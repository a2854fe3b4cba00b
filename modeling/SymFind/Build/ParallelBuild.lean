import SymFind.Core.Compression
import SymFind.Database.DatabaseBlocks
import SymFind.Elf.ElfParser
import SymFind.Lib.Interleaving
import SymFind.Utils.Threading

/-!
# Building the symbol table in parallel

Each worker fills a table of its own, one symbol at a time, while the others do
the same; the tables are merged in the order of the threads. The merged table is
the one that a single worker would have filled.
-/
namespace ParallelBuild
open RecordCodec InsertionMap SymbolData PathCache Compression DatabaseBlocks
open ElfParser Threading Interleaving Machine

section Worker

/-- What the workers share: the found files, the cache of their paths, and the files on disk
(the id tells apart files of one path). -/
structure Shared where
  foundFiles : List FileInfo
  cache : StringCache
  fileAt : FileID → Bytes → ObjectFile

/-- A worker between two steps. `fileId` is the variable that the callback captures by
reference; `delivery` is what the running call of the parser has still to hand over. -/
structure Worker where
  fileIds : FileIDList
  fileId : FileID
  delivery : List SymbolEntry
  symtable : HashMap
  fault : Option Fault

def Worker.start (fileIds : FileIDList) : Worker := ⟨fileIds, 0, [], Map.empty, none⟩

/-- The callback: `try_emplace` of the name, then `push_back` of the reference. -/
def tryStoreSymbol (symtable : HashMap) (fileId : FileID) (syment : SymbolEntry) : HashMap :=
  symtable.upsert syment.name [] (fun refs => refs ++ [⟨fileId, syment.metadata⟩])

/-- One step: the callback takes a symbol, or the loop goes on to the next file. A file that
cannot be parsed is skipped. -/
def Worker.next (shared : Shared) (w : Worker) : Option Worker :=
  match w.fault, w.delivery, w.fileIds with
  | some _, _, _ => none
  | none, syment :: rest, _ =>
    some { w with delivery := rest, symtable := tryStoreSymbol w.symtable w.fileId syment }
  | none, [], [] => none
  | none, [], id :: ids =>
    match shared.foundFiles[id.toNat]? with
    | none => some { w with fault := some .outOfBounds }
    | some fileInfo =>
      let filePath := getFileInfoFullPath shared.cache fileInfo
      match parseSymtables (shared.fileAt id filePath) acceptAllSymbols with
      | .error _ => some { w with fileId := id, fileIds := ids }
      | .ok syms => some { w with fileId := id, fileIds := ids, delivery := syms }

/-- The symbols that the parser reports for a file; none for a file that it fails on. -/
def reportedSymbols (shared : Shared) (id : FileID) : List SymbolEntry :=
  match shared.foundFiles[id.toNat]? with
  | none => []
  | some fileInfo =>
    match shared.fileAt id (getFileInfoFullPath shared.cache fileInfo) with
    | .error _ => []
    | .ok syms => syms

def reference (id : FileID) (syment : SymbolEntry) : SymbolName × SymbolRef :=
  (syment.name, ⟨id, syment.metadata⟩)

/-- The names and references that visiting the files in order records. -/
def reports (shared : Shared) (fileIds : FileIDList) : List (SymbolName × SymbolRef) :=
  fileIds.flatMap (fun id => (reportedSymbols shared id).map (reference id))

/-- The table that a worker has when it stops. -/
def Worker.outcome (shared : Shared) (w : Worker) : HashMap :=
  pushAll w.symtable (w.delivery.map (reference w.fileId) ++ reports shared w.fileIds)

/-- All ids still to visit are ids of found files, and nothing went wrong. -/
structure Worker.Sound (shared : Shared) (w : Worker) : Prop where
  ids : ∀ id ∈ w.fileIds, id.toNat < shared.foundFiles.length
  fault : w.fault = none

variable {shared : Shared}

/-- The two kinds of steps of a sound worker. -/
lemma Worker.next_cases {w w' : Worker} (sound : w.Sound shared) (step : w.next shared = some w') :
    (∃ syment rest, w.delivery = syment :: rest ∧
      w' = { w with delivery := rest, symtable := push w.symtable (reference w.fileId syment) }) ∨
    (∃ id ids, w.delivery = [] ∧ w.fileIds = id :: ids ∧
      w' = { w with fileId := id, fileIds := ids, delivery := reportedSymbols shared id }) := by
  obtain ⟨fileIds, fileId, delivery, symtable, fault⟩ := w
  obtain rfl : fault = none := sound.fault
  cases delivery with
  | cons syment rest =>
    cases step
    exact Or.inl ⟨syment, rest, rfl, rfl⟩
  | nil =>
    cases fileIds with
    | nil => cases step
    | cons id ids =>
      have hlt : id.toNat < shared.foundFiles.length := sound.ids id List.mem_cons_self
      have hget : shared.foundFiles[id.toNat]? = some shared.foundFiles[id.toNat] :=
        List.getElem?_eq_getElem hlt
      refine Or.inr ⟨id, ids, rfl, rfl, ?_⟩
      simp only [Worker.next, hget, parseSymtables_all] at step
      rcases hfile : shared.fileAt id (getFileInfoFullPath shared.cache
        shared.foundFiles[id.toNat]) with errMsg | syms
      · rw [hfile] at step
        cases step
        simp only [reportedSymbols, hget, hfile]
      · rw [hfile] at step
        cases step
        simp only [reportedSymbols, hget, hfile]

/-- No step changes the table that the worker will end with. -/
theorem worker_keeps (shared : Shared) :
    Keeps (Worker.next shared) (Worker.Sound shared) (Worker.outcome shared) := by
  constructor
  · intro w w' sound step
    obtain ⟨syment, rest, hdelivery, rfl⟩ | ⟨id, ids, hdelivery, hids, rfl⟩ :=
      Worker.next_cases sound step
    · exact ⟨sound.ids, sound.fault⟩
    · exact ⟨fun id' h => sound.ids id' (hids ▸ List.mem_cons_of_mem id h), sound.fault⟩
  · intro w w' sound step
    obtain ⟨syment, rest, hdelivery, rfl⟩ | ⟨id, ids, hdelivery, hids, rfl⟩ :=
      Worker.next_cases sound step
    · rw [Worker.outcome, Worker.outcome, hdelivery]
      rfl
    · rw [Worker.outcome, Worker.outcome, hdelivery, hids]
      rfl

/-- The steps that a worker has before it. -/
def Worker.work (shared : Shared) (w : Worker) : Nat :=
  (if w.fault = none then 1 else 0) + w.delivery.length +
    (w.fileIds.map (fun id => (reportedSymbols shared id).length + 1)).sum

lemma worker_lowers (w w' : Worker) (step : w.next shared = some w') :
    w'.work shared < w.work shared := by
  obtain ⟨fileIds, fileId, delivery, symtable, fault⟩ := w
  cases fault with
  | some fault => cases step
  | none =>
    cases delivery with
    | cons syment rest =>
      cases step
      simp only [Worker.work, List.length_cons]
      omega
    | nil =>
      cases fileIds with
      | nil => cases step
      | cons id ids =>
        simp only [Worker.next, parseSymtables_all] at step
        rcases hget : shared.foundFiles[id.toNat]? with _ | fileInfo
        · rw [hget] at step
          cases step
          simp [Worker.work]
        · simp only [hget] at step
          rcases hfile : shared.fileAt id (getFileInfoFullPath shared.cache fileInfo) with
            errMsg | syms
          · rw [hfile] at step
            cases step
            simp only [Worker.work, List.map_cons, List.sum_cons, List.length_nil]
            omega
          · rw [hfile] at step
            cases step
            simp only [Worker.work, List.map_cons, List.sum_cons, List.length_nil,
              reportedSymbols, hget, hfile]
            omega

lemma start_sound {fileIds : FileIDList}
    (ids : ∀ id ∈ fileIds, id.toNat < shared.foundFiles.length) :
    (Worker.start fileIds).Sound shared := ⟨ids, rfl⟩

/-- A sound worker that has stopped has its outcome for a table. -/
lemma stopped_symtable {w : Worker} (sound : w.Sound shared) (stopped : w.next shared = none) :
    w.symtable = w.outcome shared := by
  obtain ⟨fileIds, fileId, delivery, symtable, fault⟩ := w
  obtain rfl : fault = none := sound.fault
  cases delivery with
  | cons syment rest => cases stopped
  | nil =>
    cases fileIds with
    | nil => rfl
    | cons id ids =>
      have hlt : id.toNat < shared.foundFiles.length := sound.ids id List.mem_cons_self
      simp only [Worker.next, List.getElem?_eq_getElem hlt] at stopped
      split at stopped <;> cases stopped

end Worker

section Merging

def maxSymbolNameSamples : Nat := 100000

/-- The merged table, the dictionary builder and the number of names offered to it. -/
structure Merging where
  mergedSymtable : HashMap
  dictBuilder : Option DictionaryBuilder
  symbolNameSamples : UInt64

/-- A new name becomes a sample for the dictionary, up to the limit. -/
def Merging.addSample (m : Merging) (symName : SymbolName) : Merging :=
  match m.dictBuilder with
  | none => m
  | some dictBuilder =>
    let samples := m.symbolNameSamples + 1
    { m with
      symbolNameSamples := samples
      dictBuilder := some (if samples.toNat ≤ maxSymbolNameSamples then
        dictBuilder.addSample symName else dictBuilder) }

/-- One pass of the inner loop. -/
def mergeSymbol (m : Merging) (sym : SymbolName × SymbolRefs) : Merging :=
  match m.mergedSymtable.get sym.1 with
  | none =>
    let m := m.addSample sym.1
    { m with mergedSymtable := m.mergedSymtable.upsert sym.1 [] (fun _ => sym.2) }
  | some _ =>
    { m with
      mergedSymtable := m.mergedSymtable.upsert sym.1 []
        (fun refs => sym.2.foldl (fun refs symRef => refs ++ [symRef]) refs) }

def mergeSymtables (symtables : List HashMap) (m : Merging) : Merging :=
  symtables.foldl (fun m symtable => symtable.entries.foldl mergeSymbol m) m

@[simp] lemma addSample_merged (m : Merging) (symName : SymbolName) :
    (m.addSample symName).mergedSymtable = m.mergedSymtable := by
  rw [Merging.addSample]
  cases m.dictBuilder <;> rfl

lemma mergeSymbol_merged (m : Merging) (sym : SymbolName × SymbolRefs) :
    (mergeSymbol m sym).mergedSymtable =
      m.mergedSymtable.upsert sym.1 [] (fun refs => refs ++ sym.2) := by
  rw [mergeSymbol]
  cases hget : m.mergedSymtable.get sym.1 with
  | none =>
    simp only [addSample_merged]
    apply Map.upsert_congr
    rw [hget]
    rfl
  | some refs =>
    have hloop : ∀ (more old : SymbolRefs),
        more.foldl (fun refs symRef => refs ++ [symRef]) old = old ++ more := by
      intro more old
      induction more generalizing old with
      | nil => simp
      | cons r rest ih => simp [ih]
    simp only [hloop]

/-- Merging the tables appends their lists, table after table. -/
lemma mergeSymtables_merged (symtables : List HashMap) (m : Merging) :
    (mergeSymtables symtables m).mergedSymtable = symtables.foldl merge m.mergedSymtable := by
  have one : ∀ (entries : List (SymbolName × SymbolRefs)) (m : Merging),
      (entries.foldl mergeSymbol m).mergedSymtable =
        entries.foldl (fun t e => t.upsert e.1 [] (fun refs => refs ++ e.2))
          m.mergedSymtable := by
    intro entries m
    induction entries generalizing m with
    | nil => rfl
    | cons e rest ih => rw [List.foldl_cons, ih, mergeSymbol_merged, List.foldl_cons]
  induction symtables generalizing m with
  | nil => rfl
  | cons symtable rest ih =>
    change (mergeSymtables rest (symtable.entries.foldl mergeSymbol m)).mergedSymtable = _
    rw [ih, one]
    rfl

end Merging

section Build

/-- The workers of a build; the process exits when no thread is reserved. -/
def launchThreads (fileCount threadCount : Nat) : Option (List Worker) :=
  if threadCount = 0 then none
  else some ((computeFileIdChunks fileCount threadCount).map Worker.start)

/-- The ids of all found files. -/
def allFileIds (n : Nat) : FileIDList := (List.range n).map UInt32.ofNat

variable {shared : Shared}

lemma allFileIds_lt {n : Nat} (small : n < 2 ^ 32) {id : FileID} (h : id ∈ allFileIds n) :
    id.toNat < n := by
  obtain ⟨i, hi, rfl⟩ := List.mem_map.mp h
  have hlt := List.mem_range.mp hi
  rw [UInt32.toNat_ofNat', Nat.mod_eq_of_lt (by omega)]
  exact hlt

lemma chunk_ids {n threadCount : Nat} (someThread : 1 ≤ threadCount) (small : n < 2 ^ 32) :
    ∀ chunk ∈ computeFileIdChunks n threadCount, ∀ id ∈ chunk, id.toNat < n := by
  intro chunk hchunk id hid
  apply allFileIds_lt small
  rw [allFileIds, ← computeFileIdChunks_flatten someThread small]
  exact List.mem_flatten_of_mem hchunk hid

/-- Workers that started on ids of found files end with the records of their chunks. -/
lemma joined_symtables {chunks : List FileIDList}
    (ids : ∀ chunk ∈ chunks, ∀ id ∈ chunk, id.toNat < shared.foundFiles.length)
    {joined : List Worker}
    (steps : Steps (Worker.next shared) (chunks.map Worker.start) joined)
    (stopped : Stopped (Worker.next shared) joined) :
    (∀ w ∈ joined, w.fault = none) ∧
      joined.map Worker.symtable = (chunks.map (reports shared)).map record := by
  have sound : ∀ w ∈ chunks.map Worker.start, w.Sound shared := by
    intro w hw
    obtain ⟨chunk, hchunk, rfl⟩ := List.mem_map.mp hw
    exact start_sound (ids chunk hchunk)
  obtain ⟨hsound, houtcome⟩ := steps.keeps (worker_keeps shared) sound
  refine ⟨fun w hw => (hsound w hw).fault, ?_⟩
  have htables : joined.map Worker.symtable = joined.map (Worker.outcome shared) :=
    List.map_congr_left (fun w hw => stopped_symtable (hsound w hw) (stopped w hw))
  rw [htables, houtcome, List.map_map, List.map_map]
  rfl

/-- The merged tables of consecutive chunks are the record of all files. -/
lemma merged_record {chunks : List FileIDList} {n : Nat} (hall : chunks.flatten = allFileIds n)
    (dictBuilder : Option DictionaryBuilder) (samples : UInt64) :
    (mergeSymtables ((chunks.map (reports shared)).map record)
      ⟨Map.empty, dictBuilder, samples⟩).mergedSymtable =
        record (reports shared (allFileIds n)) := by
  have hreports : (chunks.map (reports shared)).flatten = reports shared (allFileIds n) := by
    have hflat : chunks.flatten = chunks.flatMap id := List.flatMap_id.symm
    rw [← hall, reports, hflat, List.flatMap_assoc, List.flatMap_def]
    rfl
  rw [mergeSymtables_merged, foldl_merge_record, hreports]
  rfl

/-- A single worker that visits all files. -/
def SequentialTable (shared : Shared) (symtable : HashMap) : Prop :=
  ∃ w, Steps (Worker.next shared) [Worker.start (allFileIds shared.foundFiles.length)] [w] ∧
    Stopped (Worker.next shared) [w] ∧ symtable = w.symtable

lemma sequentialTable_record (small : shared.foundFiles.length < 2 ^ 32) :
    SequentialTable shared (record (reports shared (allFileIds shared.foundFiles.length))) := by
  obtain ⟨ws, steps, stopped⟩ :=
    exists_stopped worker_lowers [Worker.start (allFileIds shared.foundFiles.length)]
  have ids : ∀ chunk ∈ [allFileIds shared.foundFiles.length], ∀ id ∈ chunk,
      id.toNat < shared.foundFiles.length := by
    intro chunk hchunk id hid
    rw [List.mem_singleton.mp hchunk] at hid
    exact allFileIds_lt small hid
  have tables := joined_symtables ids steps stopped
  obtain ⟨w, hw⟩ := List.length_eq_one_iff.mp (by simpa using congrArg List.length tables.2)
  rw [hw] at steps stopped tables
  refine ⟨w, steps, stopped, ?_⟩
  simpa using tables.2.symm

/-- What is left when all threads have joined and their tables are merged. -/
structure BuiltAsOne (shared : Shared) (joined : List Worker) (merged : HashMap) : Prop where
  sound : ∀ w ∈ joined, w.fault = none
  sequential : SequentialTable shared merged
  names : ∀ name, name ∈ merged.keys ↔
    ∃ id ∈ allFileIds shared.foundFiles.length, ∃ syment ∈ reportedSymbols shared id,
      syment.name = name

/-- Every interleaving of the workers ends, and the merged table is that of one worker. -/
theorem parallel_build_is_sequential (shared : Shared)
    (small : shared.foundFiles.length < 2 ^ 32) (threadCount : Nat) (someThread : 1 ≤ threadCount)
    (dictBuilder : Option DictionaryBuilder) (samples : UInt64) :
    ∃ workers, launchThreads shared.foundFiles.length threadCount = some workers ∧
      (∃ joined, Steps (Worker.next shared) workers joined ∧
        Stopped (Worker.next shared) joined) ∧
      ∀ joined, Steps (Worker.next shared) workers joined → Stopped (Worker.next shared) joined →
        BuiltAsOne shared joined (mergeSymtables (joined.map Worker.symtable)
          ⟨Map.empty, dictBuilder, samples⟩).mergedSymtable := by
  refine ⟨_, if_neg (by omega), exists_stopped worker_lowers _, ?_⟩
  intro joined steps stopped
  have hall := computeFileIdChunks_flatten someThread small
  obtain ⟨sound, tables⟩ := joined_symtables (chunk_ids someThread small) steps stopped
  rw [tables, merged_record hall]
  refine ⟨sound, sequentialTable_record small, ?_⟩
  intro name
  rw [mem_keys_record, reports, List.mem_map]
  simp only [List.mem_flatMap, List.mem_map]
  constructor
  · rintro ⟨_, ⟨id, hid, syment, hsym, rfl⟩, rfl⟩
    exact ⟨id, hid, syment, hsym, rfl⟩
  · rintro ⟨id, hid, syment, hsym, rfl⟩
    exact ⟨_, ⟨id, hid, syment, hsym, rfl⟩, rfl⟩

/-- Three files for two threads: a name that both threads see, and a file that is no object. -/
def sampleShared : Shared where
  foundFiles := [⟨text "a.o", 0⟩, ⟨text "b.o", 0⟩, ⟨text "c.so", 0⟩]
  cache := (StringCache.new.storeString (text "/lib/")).1
  fileAt id _ :=
    if id = 0 then .ok [⟨text "main", ⟨true, .symtab, .func, .global, .default, 0⟩⟩,
      ⟨text "free", ⟨false, .symtab, .noType, .global, .default, 0⟩⟩]
    else if id = 1 then .error (text "Unknown file type\n")
    else .ok [⟨text "free", ⟨true, .dynsym, .func, .weak, .default, 0⟩⟩]

theorem parallel_build_is_sequential_sample :
    ∃ workers joined, launchThreads 3 2 = some workers ∧
      Steps (Worker.next sampleShared) workers joined ∧
      Stopped (Worker.next sampleShared) joined ∧
      BuiltAsOne sampleShared joined
        (mergeSymtables (joined.map Worker.symtable) ⟨Map.empty, none, 0⟩).mergedSymtable := by
  obtain ⟨workers, launched, ⟨joined, steps, stopped⟩, built⟩ :=
    parallel_build_is_sequential sampleShared (by decide) 2 (by decide) none 0
  exact ⟨workers, joined, launched, steps, stopped, built joined steps stopped⟩

end Build
end ParallelBuild
