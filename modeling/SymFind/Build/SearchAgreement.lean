import SymFind.Build.MergeTables
import SymFind.Database.SymbolLookup

/-!
# A database answers like a direct scan

A free run parses every file and shows the symbols that pass the filter. A build
records all symbols, stores them and looks the name up in what it stored. Both
show the same symbols of the same files.
-/
namespace SearchAgreement
open RecordCodec InsertionMap Machine SymbolData TrigramCodes PathCache Compression
open DatabaseLayout DatabaseBlocks Config DatabaseWriting WritePlan DatabaseReading
open DatabaseRoundTrip
open SymbolLookup ElfParser Threading Interleaving ParallelBuild MergeTables

section FreeRun

/-- One symbol as it is shown: the path of its file, its name and its metadata. -/
abbrev Shown := Bytes × SymbolName × SymbolMetaData

/-- `worker` of the symbol finder. A failed parse goes on without clearing the vector. -/
def worker (shared : Shared) (ignoreSymbol : SymbolShouldBeIgnoredCallback) :
    List SymbolEntry → FileIDList → Except Fault (List Shown)
  | _, [] => .ok []
  | parsedSymbolEntries, id :: ids =>
    match shared.foundFiles[id.toNat]? with
    | none => .error .outOfBounds
    | some fileInfo =>
      let filePath := getFileInfoFullPath shared.cache fileInfo
      match parseSymtables (shared.fileAt id filePath) ignoreSymbol with
      | .error _ => worker shared ignoreSymbol parsedSymbolEntries ids
      | .ok syms => do
        let later ← worker shared ignoreSymbol [] ids
        pure ((parsedSymbolEntries ++ syms).map
          (fun sym => (filePath, sym.name, sym.metadata)) ++ later)

/-- All threads together; their outputs are listed thread after thread. -/
def freeRun (shared : Shared) (ignoreSymbol : SymbolShouldBeIgnoredCallback) (threadCount : Nat) :
    Except Fault (List Shown) := do
  let outputs ← (computeFileIdChunks shared.foundFiles.length threadCount).mapM
    (worker shared ignoreSymbol [])
  pure outputs.flatten

/-- The filter of a free run. -/
def freeRunFilter (query : Bytes) : SymbolShouldBeIgnoredCallback := fun symEnt =>
  ! symfinderSymbolShouldBeStored symEnt .onlyDefined (defaultStringComparator query)

/-- The path under which a file is opened. -/
def filePathOf (shared : Shared) (id : FileID) : Bytes :=
  match shared.foundFiles[id.toNat]? with
  | none => []
  | some fileInfo => getFileInfoFullPath shared.cache fileInfo

/-- What a free run shows of one file. -/
def shownOf (shared : Shared) (ignoreSymbol : SymbolShouldBeIgnoredCallback) (id : FileID) :
    List Shown :=
  ((reportedSymbols shared id).filter (fun symEnt => ! ignoreSymbol symEnt)).map
    (fun sym => (filePathOf shared id, sym.name, sym.metadata))

variable {shared : Shared} {ignoreSymbol : SymbolShouldBeIgnoredCallback}

/-- A worker whose files exist shows them one by one: no vector is ever carried over. -/
lemma worker_shows {ids : FileIDList} (inRange : ∀ id ∈ ids, id.toNat < shared.foundFiles.length) :
    worker shared ignoreSymbol [] ids = .ok (ids.flatMap (shownOf shared ignoreSymbol)) := by
  induction ids with
  | nil => rfl
  | cons id rest ih =>
    have hrest := ih (fun id' h => inRange id' (List.mem_cons_of_mem id h))
    have hlt : id.toNat < shared.foundFiles.length := inRange id List.mem_cons_self
    have hget : shared.foundFiles[id.toNat]? = some shared.foundFiles[id.toNat] :=
      List.getElem?_eq_getElem hlt
    simp only [worker, hget, List.flatMap_cons, shownOf, filePathOf, reportedSymbols]
    rcases hfile : shared.fileAt id (getFileInfoFullPath shared.cache
      shared.foundFiles[id.toNat]) with errMsg | syms
    · simp only [parseSymtables, Except.map, hrest, List.filter_nil, List.map_nil,
        List.nil_append]
    · simp only [parseSymtables, Except.map, hrest, List.nil_append]
      rfl

/-- The free run shows every file once, whatever the number of threads. -/
theorem freeRun_shows (small : shared.foundFiles.length < 2 ^ 32) {threadCount : Nat}
    (someThread : 1 ≤ threadCount) :
    freeRun shared ignoreSymbol threadCount =
      .ok ((allFileIds shared.foundFiles.length).flatMap (shownOf shared ignoreSymbol)) := by
  have hall := computeFileIdChunks_flatten someThread small
  have hworkers : ∀ chunks : List FileIDList,
      (∀ chunk ∈ chunks, ∀ id ∈ chunk, id.toNat < shared.foundFiles.length) →
      chunks.mapM (worker shared ignoreSymbol []) =
        .ok (chunks.map (fun chunk => chunk.flatMap (shownOf shared ignoreSymbol))) := by
    intro chunks inRange
    induction chunks with
    | nil => rfl
    | cons chunk rest ih =>
      rw [List.mapM_cons, worker_shows (inRange chunk List.mem_cons_self),
        ih (fun c hc => inRange c (List.mem_cons_of_mem chunk hc))]
      rfl
  have hchunks := hworkers _ (chunk_ids someThread small)
  have hflat : (computeFileIdChunks shared.foundFiles.length threadCount).flatten =
      (computeFileIdChunks shared.foundFiles.length threadCount).flatMap id :=
    List.flatMap_id.symm
  rw [freeRun, hchunks, allFileIds, ← hall, hflat, List.flatMap_assoc, List.flatMap_def]
  rfl

end FreeRun

section Lookup

/-- What the build phase hands to `store_db`, with the merged table as its loops meet it. -/
def buildArgs (tableOrder : IterationOrder (SymbolName × SymbolRefs)) (shared : Shared)
    (conf : ConfigParser) (m : Merging) : StoreArgs where
  foundFiles := shared.foundFiles
  pathList := shared.cache.idToStr
  conf := conf
  symtable := iterated tableOrder m.mergedSymtable
  dictBuilder := m.dictBuilder

/-- The cached directory path of every found file ends in a `/`. -/
def ClosedPaths (shared : Shared) : Prop :=
  ∀ file ∈ shared.foundFiles, ∃ path,
    shared.cache.idToStr[file.pathId.toNat]? = some path ∧ path.getLast? = some 0x2F

/-- A database reference as a free run would show it. -/
def shownReferenceOf (found : SymbolName × FileReference) : Shown :=
  (found.2.fullPath, found.1, found.2.metadata)

lemma readDbFilter_kept_iff (query name : Bytes) (metadata : SymbolMetaData) :
    readDbFilter query name metadata = false ↔ query = name ∧ metadata.isDefined = true := by
  rw [readDbFilter, Bool.not_eq_false']
  exact onlyDefined_kept_iff query name metadata

lemma freeRunFilter_eq (query : Bytes) (symEnt : SymbolEntry) :
    freeRunFilter query symEnt = readDbFilter query symEnt.name symEnt.metadata := rfl

variable (tableOrder : IterationOrder (SymbolName × SymbolRefs)) {shared : Shared}
  (conf : ConfigParser) (m : Merging)

/-- The reader joins a directory and a name to the path under which the file was opened. -/
lemma referencePath_eq (closed : ClosedPaths shared) (ref : SymbolRef) :
    referencePath (buildArgs tableOrder shared conf m) ref = filePathOf shared ref.fileId := by
  rw [referencePath, filePathOf, buildArgs]
  rcases hfile : shared.foundFiles[ref.fileId.toNat]? with _ | file
  · simp only
  · obtain ⟨path, hpath, hslash⟩ := closed file (List.mem_of_getElem? hfile)
    have hprefix : directoryPrefix path = path := by
      rw [directoryPrefix, if_neg (fun h => h.2 hslash)]
    simp only [getFileInfoFullPath, StringCache.getString_of_getElem? hpath,
      List.getD_eq_getElem?_getD, hpath, Option.getD_some, hprefix]

/-- For one file, the database keeps what the free run shows. -/
lemma kept_of_file (closed : ClosedPaths shared) (query : Bytes) (id : FileID)
    (syms : List SymbolEntry) :
    (keptReferences (buildArgs tableOrder shared conf m) (readDbFilter query)
        (query, history (syms.map (reference id)) query)).map shownReferenceOf =
      (syms.filter (fun symEnt => ! freeRunFilter query symEnt)).map
        (fun sym => (filePathOf shared id, sym.name, sym.metadata)) := by
  rw [keptReferences, List.map_map]
  induction syms with
  | nil => rfl
  | cons sym rest ih =>
    rw [List.map_cons, history_cons, List.filter_append, List.map_append, ih, List.filter_cons,
      freeRunFilter_eq]
    by_cases hname : sym.name = query
    · have hown : (reference id sym).1 = query := hname
      rw [if_pos hown, hname]
      cases hkept : readDbFilter query query sym.metadata with
      | true => simp [reference, hkept]
      | false =>
        simp [reference, hkept, shownReferenceOf, referencePath_eq tableOrder conf m closed, hname]
    · have hother : (reference id sym).1 ≠ query := hname
      have hdrop : readDbFilter query sym.name sym.metadata = true := by
        rw [← Bool.not_eq_false, readDbFilter_kept_iff]
        exact fun h => hname h.1.symm
      rw [if_neg hother, hdrop]
      rfl

/-- Over all files, in the order of the files. -/
lemma kept_of_files (closed : ClosedPaths shared) (query : Bytes) (ids : FileIDList) :
    (keptReferences (buildArgs tableOrder shared conf m) (readDbFilter query)
        (query, history (reports shared ids) query)).map shownReferenceOf =
      ids.flatMap (shownOf shared (freeRunFilter query)) := by
  induction ids with
  | nil => rfl
  | cons id rest ih =>
    have hsplit : history (reports shared (id :: rest)) query =
        history ((reportedSymbols shared id).map (reference id)) query ++
          history (reports shared rest) query := history_append _ _ _
    rw [List.flatMap_cons, ← ih, shownOf, ← kept_of_file tableOrder conf m closed, hsplit]
    simp only [keptReferences, List.filter_append, List.map_append]

/-- References of a build carry ids of found files. -/
lemma buildArgs_inRange (small : shared.foundFiles.length < 2 ^ 32)
    (hmerged : ∀ name, m.mergedSymtable.get name =
      (record (reports shared (allFileIds shared.foundFiles.length))).get name) :
    ∀ sym ∈ (buildArgs tableOrder shared conf m).symtable.entries, ∀ ref ∈ sym.2,
      ref.fileId.toNat < (buildArgs tableOrder shared conf m).foundFiles.length := by
  rintro ⟨name, refs⟩ hsym ref href
  have hget := (Map.mem_entries_iff _ _ _).mp hsym
  change (iterated tableOrder m.mergedSymtable).get name = some refs at hget
  rw [get_iterated, hmerged, get_record] at hget
  split at hget
  · obtain rfl : history _ name = refs := Option.some.inj hget
    rw [history, List.mem_map] at href
    obtain ⟨e, he, rfl⟩ := href
    have hreport := (List.mem_filter.mp he).1
    simp only [reports, List.mem_flatMap, List.mem_map] at hreport
    obtain ⟨id, hid, syment, _, rfl⟩ := hreport
    exact allFileIds_lt small hid
  · cases hget

variable {tableOrder conf m}

/-- The loops of `store_db` meet what is recorded of the files, in some order. -/
lemma iterated_perm {es : List (SymbolName × SymbolRef)}
    (hmerged : ∀ name, m.mergedSymtable.get name = (record es).get name) :
    (buildArgs tableOrder shared conf m).symtable.entries.Perm (record es).entries :=
  (tableOrder.perm _).trans (Map.perm_of_get hmerged)

/-- The kept references of all candidates are those of the name itself. -/
lemma candidates_kept (query : Bytes)
    (hmerged : ∀ name, m.mergedSymtable.get name =
      (record (reports shared (allFileIds shared.foundFiles.length))).get name) :
    ((candidateSymbols (buildArgs tableOrder shared conf m) query).flatMap
        (keptReferences (buildArgs tableOrder shared conf m) (readDbFilter query))).Perm
      (keptReferences (buildArgs tableOrder shared conf m) (readDbFilter query)
        (query, history (reports shared (allFileIds shared.foundFiles.length)) query)) := by
  have others : ∀ sym : SymbolName × SymbolRefs, sym.1 ≠ query →
      keptReferences (buildArgs tableOrder shared conf m) (readDbFilter query) sym = [] := by
    intro sym hne
    have hnone : sym.2.filter (fun ref => ! readDbFilter query sym.1 ref.metadata) = [] := by
      rw [List.filter_eq_nil_iff]
      intro ref _
      rw [Bool.not_eq_true, Bool.not_eq_false', ← Bool.not_eq_false, readDbFilter_kept_iff]
      exact fun h => hne h.1.symm
    rw [keptReferences, hnone]
    rfl
  rw [candidateSymbols, ← flatMap_record _ (fun sym _ => others sym) rfl]
  refine (((iterated_perm hmerged).filter _).flatMap_right _).trans (List.Perm.of_eq ?_)
  induction (record (reports shared (allFileIds shared.foundFiles.length))).entries with
  | nil => rfl
  | cons sym rest ih =>
    rw [List.filter_cons, List.flatMap_cons]
    by_cases hname : sym.1 = query
    · have hself : EmitsAll query sym.1 := by
        rw [hname]
        exact fun _ h => h
      rw [if_pos (decide_eq_true hself), List.flatMap_cons, ih]
    · split
      · rw [List.flatMap_cons, ih]
      · rw [others sym hname, ih]
        rfl

/-- A build that returned true: some number of threads, in some interleaving, and the writes. The
builder opens the database when it is made, and `store_db` opens it again. -/
structure BuildRun (z : Zstd) (order : IterationOrder (TrigramCode × List UInt32))
    (tableOrder : IterationOrder (SymbolName × SymbolRefs)) (shared : Shared)
    (conf : ConfigParser) (dictBuilder : Option DictionaryBuilder) where
  threadCount : Nat
  someThread : 1 ≤ threadCount
  workers : List Worker
  launched : launchThreads shared.foundFiles.length threadCount = some workers
  joined : List Worker
  steps : Steps (Worker.next shared) workers joined
  stopped : Stopped (Worker.next shared) joined
  merging : Merging
  merged : merging = mergeSymtables ((joined.map Worker.symtable).map (iterated tableOrder))
    ⟨Map.empty, dictBuilder, 0⟩
  existing : Except Nat Unit
  opened : Except Nat Unit
  before : Disk
  after : Disk
  returned : Writing.on (storeDb z order opened (buildArgs tableOrder shared conf merging))
    before = (.ok (), after)

lemma BuildRun.merged_get {z : Zstd} {order : IterationOrder (TrigramCode × List UInt32)}
    {dictBuilder : Option DictionaryBuilder}
    (run : BuildRun z order tableOrder shared conf dictBuilder)
    (small : shared.foundFiles.length < 2 ^ 32) (name : SymbolName) :
    run.merging.mergedSymtable.get name =
      (record (reports shared (allFileIds shared.foundFiles.length))).get name := by
  have hworkers : (computeFileIdChunks shared.foundFiles.length run.threadCount).map
      Worker.start = run.workers := by
    have launched := run.launched
    rw [launchThreads, if_neg (by have := run.someThread; omega)] at launched
    exact Option.some.inj launched
  have steps := run.steps
  rw [← hworkers] at steps
  rw [run.merged, get_merged_iterated,
    (joined_symtables (chunk_ids run.someThread small) steps run.stopped).2,
    merged_record (computeFileIdChunks_flatten run.someThread small)]

/-- The references that a lookup in a built database returns are, up to their order, what a
free run shows of the same files. -/
theorem search_agrees_with_free_run (z : Zstd) (undoes : z.Undoes)
    (order : IterationOrder (TrigramCode × List UInt32))
    (tableOrder : IterationOrder (SymbolName × SymbolRefs)) (shared : Shared)
    (closed : ClosedPaths shared) (conf : ConfigParser) (dictBuilder : Option DictionaryBuilder)
    (run : BuildRun z order tableOrder shared conf dictBuilder)
    (fits : Fits z order (buildArgs tableOrder shared conf run.merging))
    (idOrder : IterationOrder (UInt32 × UInt32)) (fuel : Nat) (enough : 2 ^ 25 ≤ fuel)
    (query : Bytes) (nonempty : query ≠ []) (freeThreads : Nat) (someFree : 1 ≤ freeThreads) :
    ∃ found shown,
      flattened (findSymbolReferences z idOrder fuel conf (.ok run.after.file) query
        (readDbFilter query)) = some found ∧
      freeRun shared (freeRunFilter query) freeThreads = .ok shown ∧
      (found.map shownReferenceOf).Perm shown := by
  have small : shared.foundFiles.length < 2 ^ 32 := small_of_fits fits
  have hmerged := run.merged_get small
  obtain ⟨syms, hperm, hfind⟩ := findSymbolReferences_stored undoes fits run.returned _ idOrder
    enough nonempty (readDbFilter query)
  have hfound := flattened_shown (fun sym hsym => buildArgs_inRange tableOrder conf run.merging
    small hmerged sym (List.mem_of_mem_filter (hperm.mem_iff.mp hsym))) (readDbFilter query)
  rw [← hfind] at hfound
  refine ⟨_, _, hfound, freeRun_shows small someFree, ?_⟩
  have hkept := ((hperm.flatMap_right (keptReferences (buildArgs tableOrder shared conf run.merging)
    (readDbFilter query))).trans (candidates_kept query hmerged)).map shownReferenceOf
  rw [kept_of_files tableOrder conf run.merging closed] at hkept
  exact hkept

lemma sample_closed : ClosedPaths sampleShared := by
  intro file hfile
  refine ⟨text "/lib/", ?_, by decide⟩
  have hid : ∀ f ∈ sampleShared.foundFiles, f.pathId = 0 := by decide
  rw [hid file hfile]
  decide

/-- What is handed to `store_db` after three files, one of which is no object. -/
def sampleBuildArgs : StoreArgs :=
  buildArgs (IterationOrder.insertion _) sampleShared ConfigParser.new
    ⟨record (reports sampleShared (allFileIds 3)), none, 0⟩

lemma mergeSymtables_noDict {m : Merging} (h : m.dictBuilder = none) (symtables : List HashMap) :
    (mergeSymtables symtables m).dictBuilder = none := by
  have one : ∀ (m : Merging) (sym : SymbolName × SymbolRefs), m.dictBuilder = none →
      (mergeSymbol m sym).dictBuilder = none := by
    intro m sym h
    rw [mergeSymbol]
    cases m.mergedSymtable.get sym.1 with
    | none => simp only [Merging.addSample, h]
    | some refs => exact h
  have keeps : ∀ (es : List (SymbolName × SymbolRefs)) (m : Merging), m.dictBuilder = none →
      (es.foldl mergeSymbol m).dictBuilder = none := by
    intro es
    induction es with
    | nil => exact fun m h => h
    | cons e rest ih => exact fun m h => ih _ (one m e h)
  induction symtables generalizing m with
  | nil => exact h
  | cons symtable rest ih => exact ih (keeps symtable.entries m h)

/-- Looking up `free` in the database that two threads build of the three files. -/
theorem search_agrees_with_free_run_sample :
    ∃ (run : BuildRun Zstd.stored (IterationOrder.insertion _) (IterationOrder.insertion _)
        sampleShared ConfigParser.new none)
      (found : List (SymbolName × FileReference)) (shown : List Shown),
      flattened (findSymbolReferences Zstd.stored (IterationOrder.insertion _) (2 ^ 25)
        ConfigParser.new (.ok run.after.file) (text "free") (readDbFilter (text "free"))) =
          some found ∧
      freeRun sampleShared (freeRunFilter (text "free")) 3 = .ok shown ∧
      (found.map shownReferenceOf).Perm shown := by
  obtain ⟨joined, steps, stopped⟩ := exists_stopped (@worker_lowers sampleShared)
    ((computeFileIdChunks 3 2).map Worker.start)
  have hmerged := (joined_symtables (chunk_ids (by decide) (by decide)) steps stopped).2
  have hargs : buildArgs (IterationOrder.insertion _) sampleShared ConfigParser.new
      (mergeSymtables ((joined.map Worker.symtable).map (iterated (IterationOrder.insertion _)))
        ⟨Map.empty, none, 0⟩) = sampleBuildArgs := by
    rw [insertion_ordered.tables, buildArgs, mergeSymtables_noDict rfl, hmerged,
      merged_record (computeFileIdChunks_flatten (by decide) (by decide))]
    rfl
  have hok : (Writing.on (storeDb Zstd.stored (IterationOrder.insertion _) (.ok ())
      sampleBuildArgs) sampleDisk).1.isOk = true := by decide +kernel
  rcases hrun : Writing.on (storeDb Zstd.stored (IterationOrder.insertion _) (.ok ())
    sampleBuildArgs) sampleDisk with ⟨halt | u, disk'⟩
  · rw [hrun] at hok
    cases hok
  · refine ⟨⟨2, by decide, _, rfl, joined, steps, stopped, _, rfl, .ok (), .ok (), sampleDisk,
      disk', by rw [hargs]; exact hrun⟩, ?_⟩
    apply search_agrees_with_free_run Zstd.stored Zstd.stored_undoes (IterationOrder.insertion _)
      (IterationOrder.insertion _) sampleShared sample_closed ConfigParser.new none _
      (by rw [hargs]; decide +kernel) (IterationOrder.insertion _) (2 ^ 25) (Nat.le_refl _)
      (text "free") (by decide) 3 (by decide)

end Lookup
end SearchAgreement
