import SymFind.Build.ReproducibleBuild
import SymFind.Elf.ElfFiles
import SymFind.Lib.FatalInterleaving

/-!
# Files that end a build

The parser does not check what it reads: a file may make it exit or crash, in
whichever thread has come to it, and then the process is gone. The tables are
stored when all threads have been joined, but the builder has opened the
database before, which is empty then. If no file does this the build is the one
of the files' symbols.
-/
namespace FatalFiles
open RecordCodec InsertionMap Machine SymbolData TrigramCodes PathCache Compression
open DatabaseLayout DatabaseBlocks Config DatabaseWriting WritePlan
open ElfParser ParallelBuild SearchAgreement ReproducibleBuild Threading FatalInterleaving
open ElfFiles (FileAnswers Libraries ProcessEnd FileReadable FileNamesEnd Certain objectFile)

section Worker

/-- What the workers share, with the files as libelf sees them, none of whose names is read past its
string data. -/
structure FoundFiles where
  foundFiles : List FileInfo
  cache : StringCache
  fileAt : FileID → Bytes → FileAnswers
  inside : ∀ id path, FileNamesEnd (fileAt id path)

/-- The files as the symbols that are reported of them. -/
def FoundFiles.objects (libs : Libraries) (files : FoundFiles) : Shared where
  foundFiles := files.foundFiles
  cache := files.cache
  fileAt := fun id path => objectFile libs (files.fileAt id path)

/-- What the parser makes of a found file, or how it ends the process. -/
def parseFound (libs : Libraries) (files : FoundFiles) (id : FileID) (fileInfo : FileInfo) :
    ElfFiles.Parsing (Except Bytes (List SymbolEntry)) :=
  ElfFiles.parseSymtables libs (files.fileAt id (getFileInfoFullPath files.cache fileInfo))
    acceptAllSymbols

/-- One step of `worker`: as over symbols, unless the next file ends the process. What the worker
stored of that file is gone with the process. -/
def nextFile (libs : Libraries) (files : FoundFiles) (w : Worker) :
    Option (Except ProcessEnd Worker) :=
  match w.fault, w.delivery, w.fileIds with
  | some _, _, _ => none
  | none, syment :: rest, _ =>
    some (.ok { w with delivery := rest, symtable := tryStoreSymbol w.symtable w.fileId syment })
  | none, [], [] => none
  | none, [], id :: ids =>
    match files.foundFiles[id.toNat]? with
    | none => some (.ok { w with fault := some .outOfBounds })
    | some fileInfo =>
      match parseFound libs files id fileInfo with
      | .error stop => some (.error stop)
      | .ok (.error _) => some (.ok { w with fileId := id, fileIds := ids })
      | .ok (.ok syms) => some (.ok { w with fileId := id, fileIds := ids, delivery := syms })

/-- The parser ends the process at this file. -/
def EndsAt (libs : Libraries) (files : FoundFiles) (id : FileID) (stop : ProcessEnd) : Prop :=
  ∃ fileInfo, files.foundFiles[id.toNat]? = some fileInfo ∧
    parseFound libs files id fileInfo = .error stop

lemma endsAt_certain {libs : Libraries} {files : FoundFiles} {id : FileID} {stop : ProcessEnd}
    (ends : EndsAt libs files id stop) : Certain stop := by
  obtain ⟨fileInfo, -, hparse⟩ := ends
  exact ElfFiles.parseSymtables_certain (files.inside id _) hparse

/-- Every found file has headers, entry sizes and terminated names where the parser reads them. -/
def AllReadable (libs : Libraries) (files : FoundFiles) : Prop :=
  ∀ id ∈ allFileIds files.foundFiles.length, ∀ fileInfo,
    files.foundFiles[id.toNat]? = some fileInfo →
      FileReadable libs (files.fileAt id (getFileInfoFullPath files.cache fileInfo))

variable {libs : Libraries} {files : FoundFiles}

/-- A worker falls at a file that ends the process, and else does what it does over symbols. -/
lemma nextFile_cases (w : Worker) :
    (∃ id ids stop, w.fault = none ∧ w.delivery = [] ∧ w.fileIds = id :: ids ∧
      EndsAt libs files id stop ∧ nextFile libs files w = some (.error stop)) ∨
    (nextFile libs files w = (w.next (files.objects libs)).map .ok ∧
      ∀ id ids stop, w.fault = none → w.delivery = [] → w.fileIds = id :: ids →
        ¬ EndsAt libs files id stop) := by
  obtain ⟨fileIds, fileId, delivery, symtable, fault⟩ := w
  cases fault with
  | some fault => exact .inr ⟨rfl, nofun⟩
  | none =>
    cases delivery with
    | cons syment rest => exact .inr ⟨rfl, nofun⟩
    | nil =>
      cases fileIds with
      | nil => exact .inr ⟨rfl, nofun⟩
      | cons id ids =>
        cases hget : files.foundFiles[id.toNat]? with
        | none =>
          refine .inr ⟨?_, ?_⟩
          · simp only [nextFile, Worker.next, FoundFiles.objects, hget]
            rfl
          · rintro _ _ stop - - hids ⟨fileInfo, hinfo, -⟩
            cases hids
            rw [hget] at hinfo
            cases hinfo
        | some fileInfo =>
          cases hparse : parseFound libs files id fileInfo with
          | error stop =>
            refine .inl ⟨id, ids, stop, rfl, rfl, rfl, ⟨fileInfo, hget, hparse⟩, ?_⟩
            simp only [nextFile, hget, hparse]
          | ok parsed =>
            have hobject : objectFile libs
                (files.fileAt id (getFileInfoFullPath files.cache fileInfo)) = parsed := by
              rw [parseFound] at hparse
              rw [objectFile, hparse]
            refine .inr ⟨?_, ?_⟩
            · simp only [nextFile, Worker.next, FoundFiles.objects, hget, hparse, hobject,
                parseSymtables_all]
              cases parsed with
              | error errMsg => rfl
              | ok syms => rfl
            · rintro _ _ stop - - hids ⟨fileInfo', hinfo, hstop⟩
              cases hids
              obtain rfl := Option.some.inj (hget.symm.trans hinfo)
              rw [hparse] at hstop
              cases hstop

/-- A step in which the worker does not fall. -/
lemma nextFile_ok {w w' : Worker} (step : nextFile libs files w = some (.ok w')) :
    w.next (files.objects libs) = some w' ∧
      ∀ id ids stop, w.fault = none → w.delivery = [] → w.fileIds = id :: ids →
        ¬ EndsAt libs files id stop := by
  rcases @nextFile_cases libs files w with
    ⟨_, _, _, -, -, -, -, hfalls⟩ | ⟨hsame, hnot⟩
  · rw [hfalls] at step
    cases step
  · rw [hsame, Option.map_eq_some_iff] at step
    obtain ⟨w'', hnext, hok⟩ := step
    cases hok
    exact ⟨hnext, hnot⟩

lemma nextFile_none {w : Worker} (stopped : nextFile libs files w = none) :
    w.next (files.objects libs) = none := by
  rcases @nextFile_cases libs files w with
    ⟨_, _, _, -, -, -, -, hfalls⟩ | ⟨hsame, -⟩
  · rw [hfalls] at stopped
    cases stopped
  · rw [hsame] at stopped
    exact Option.map_eq_none_iff.mp stopped

/-- A worker falls at a file that it has still to visit. -/
lemma nextFile_error {w : Worker} {stop : ProcessEnd}
    (falls : nextFile libs files w = some (.error stop)) :
    ∃ id ∈ w.fileIds, EndsAt libs files id stop := by
  rcases @nextFile_cases libs files w with
    ⟨id, ids, stop', -, -, hids, hends, hfalls⟩ | ⟨hsame, -⟩
  · rw [hfalls] at falls
    cases falls
    exact ⟨id, by rw [hids]; exact List.mem_cons_self, hends⟩
  · rw [hsame, Option.map_eq_some_iff] at falls
    obtain ⟨_, -, herror⟩ := falls
    cases herror

lemma next_fileIds {shared : Shared} {w w' : Worker} (step : w.next shared = some w') {id : FileID}
    (hid : id ∈ w'.fileIds) : id ∈ w.fileIds := by
  obtain ⟨fileIds, fileId, delivery, symtable, fault⟩ := w
  cases fault with
  | some fault => cases step
  | none =>
    cases delivery with
    | cons syment rest =>
      cases step
      exact hid
    | nil =>
      cases fileIds with
      | nil => cases step
      | cons id' ids =>
        simp only [Worker.next] at step
        split at step
        · cases step
          exact hid
        · split at step
          · cases step
            exact List.mem_cons_of_mem _ hid
          · cases step
            exact List.mem_cons_of_mem _ hid

/-- A worker that has a file before it at which it will fall. -/
structure Doomed (libs : Libraries) (files : FoundFiles) (w : Worker) : Prop where
  sound : w.Sound (files.objects libs)
  ahead : ∃ id ∈ w.fileIds, ∃ stop, EndsAt libs files id stop

lemma Doomed.stays {w w' : Worker} (doomed : Doomed libs files w)
    (step : nextFile libs files w = some (.ok w')) : Doomed libs files w' := by
  obtain ⟨hnext, hnot⟩ := nextFile_ok step
  have hsound := (worker_keeps (files.objects libs)).stays w w' doomed.sound hnext
  obtain ⟨id, hid, stop, hends⟩ := doomed.ahead
  obtain ⟨syment, rest, hdelivery, rfl⟩ | ⟨id', ids, hdelivery, hids, rfl⟩ :=
    Worker.next_cases doomed.sound hnext
  · exact ⟨hsound, id, hid, stop, hends⟩
  · rw [hids, List.mem_cons] at hid
    rcases hid with rfl | hid
    · exact absurd hends (hnot id ids stop doomed.sound.fault hdelivery hids)
    · exact ⟨hsound, id, hid, stop, hends⟩

/-- It is not at its end. -/
lemma Doomed.goes_on {w : Worker} (doomed : Doomed libs files w) :
    nextFile libs files w ≠ none := by
  obtain ⟨⟨-, hfault⟩, id, hid, -⟩ := doomed
  obtain ⟨fileIds, fileId, delivery, symtable, fault⟩ := w
  obtain rfl : fault = none := hfault
  cases delivery with
  | cons syment rest => exact nofun
  | nil =>
    cases fileIds with
    | nil => cases hid
    | cons id' ids =>
      intro hnone
      rw [nextFile] at hnone
      dsimp only at hnone
      split at hnone
      · cases hnone
      · split at hnone <;> cases hnone

lemma allReadable_iff : AllReadable libs files ↔
    ∀ id ∈ allFileIds files.foundFiles.length, ∀ stop, ¬ EndsAt libs files id stop := by
  constructor
  · rintro readable id hid stop ⟨fileInfo, hget, hparse⟩
    obtain ⟨parsed, hparsed⟩ := (ElfFiles.returns_parseSymtables _ acceptAllSymbols).mpr
      (readable id hid fileInfo hget)
    rw [parseFound, hparsed] at hparse
    cases hparse
  · intro never id hid fileInfo hget
    rw [← ElfFiles.returns_parseSymtables _ acceptAllSymbols]
    cases hparse : parseFound libs files id fileInfo with
    | error stop => exact absurd ⟨fileInfo, hget, hparse⟩ (never id hid stop)
    | ok parsed => exact ⟨parsed, hparse⟩

end Worker

section Builds

variable {z : Zstd} {order : IterationOrder (TrigramCode × List UInt32)}
  {tableOrder : IterationOrder (SymbolName × SymbolRefs)} {libs : Libraries} {files : FoundFiles}
  {conf : ConfigParser} {dictBuilder : Option DictionaryBuilder} {threadCount : Nat}

/-- How a build ends, and the disk then. The constructor has opened the database, and then a thread
falls, or all are joined and the tables stored. -/
inductive FilesBuild (z : Zstd) (order : IterationOrder (TrigramCode × List UInt32))
    (tableOrder : IterationOrder (SymbolName × SymbolRefs)) (libs : Libraries)
    (files : FoundFiles) (conf : ConfigParser) (dictBuilder : Option DictionaryBuilder)
    (threadCount : Nat) (existing opened : Except Nat Unit) (before : Disk) :
    Except ProcessEnd (Except Halt Unit) → Disk → Prop
  | fell {workers : List Worker} {stop : ProcessEnd}
      (launched : launchThreads files.foundFiles.length threadCount = some workers)
      (steps : Steps (nextFile libs files) (.ok workers) (.error stop)) :
      FilesBuild z order tableOrder libs files conf dictBuilder threadCount existing opened before
        (.error stop) (before.opened existing)
  | stored {workers joined : List Worker} {r : Except Halt Unit} {after : Disk}
      (launched : launchThreads files.foundFiles.length threadCount = some workers)
      (steps : Steps (nextFile libs files) (.ok workers) (.ok joined))
      (ended : Over (nextFile libs files) (.ok joined))
      (store : Writing.on (storeDb z order opened (buildArgs tableOrder (files.objects libs) conf
        (mergeSymtables ((joined.map Worker.symtable).map (iterated tableOrder))
          ⟨Map.empty, dictBuilder, 0⟩))) (before.opened existing) = (r, after)) :
      FilesBuild z order tableOrder libs files conf dictBuilder threadCount existing opened before
        (.ok r) after

section Launched

variable (someThread : 1 ≤ threadCount) (small : files.foundFiles.length < 2 ^ 32)
  {state : Except ProcessEnd (List Worker)}
  (steps : Steps (nextFile libs files)
    (.ok ((computeFileIdChunks files.foundFiles.length threadCount).map Worker.start)) state)
include someThread small steps

/-- A thread that falls does so at a found file. -/
lemma fell_at {stop : ProcessEnd} (fell : state = .error stop) :
    ∃ id ∈ allFileIds files.foundFiles.length, EndsAt libs files id stop := by
  subst fell
  obtain ⟨workers, w, reached, hw, falls⟩ := steps.fallen
  have found : ∀ w ∈ workers, ∀ id ∈ w.fileIds, id ∈ allFileIds files.foundFiles.length := by
    refine Steps.everyone ?_ reached ?_
    · intro w w' hfound step id hid
      obtain ⟨hnext, -⟩ := nextFile_ok step
      exact hfound id (next_fileIds hnext hid)
    · intro w hw id hid
      obtain ⟨chunk, hchunk, rfl⟩ := List.mem_map.mp hw
      rw [allFileIds, ← computeFileIdChunks_flatten someThread small]
      exact List.mem_flatten_of_mem hchunk hid
  obtain ⟨id, hid, hends⟩ := nextFile_error falls
  exact ⟨id, found w hw id hid, hends⟩

/-- When the threads are joined, no found file ends the process. -/
lemma joined_readable {joined : List Worker} (reached : state = .ok joined)
    (ended : Over (nextFile libs files) (.ok joined)) : AllReadable libs files := by
  subst reached
  rw [allReadable_iff]
  intro id hid stop hends
  have doomed : ∃ w ∈ (computeFileIdChunks files.foundFiles.length threadCount).map Worker.start,
      Doomed libs files w := by
    rw [allFileIds, ← computeFileIdChunks_flatten someThread small, List.mem_flatten] at hid
    obtain ⟨chunk, hchunk, hid⟩ := hid
    exact ⟨_, List.mem_map_of_mem hchunk,
      start_sound (chunk_ids someThread small chunk hchunk), id, hid, stop, hends⟩
  obtain ⟨w, hw, hdoomed⟩ := Steps.someone (fun w w' hw step => hw.stays step) steps doomed
  exact hdoomed.goes_on (ended w hw)

/-- Then they have done what they do over symbols. -/
lemma joined_args (inserted : InsertionOrdered tableOrder) {joined : List Worker}
    (reached : state = .ok joined) (ended : Over (nextFile libs files) (.ok joined)) :
    buildArgs tableOrder (files.objects libs) conf
        (mergeSymtables ((joined.map Worker.symtable).map (iterated tableOrder))
          ⟨Map.empty, dictBuilder, 0⟩) =
      settledArgs (files.objects libs) conf dictBuilder := by
  subst reached
  have hsteps : Interleaving.Steps (Worker.next (files.objects libs))
      ((computeFileIdChunks files.foundFiles.length threadCount).map Worker.start) joined := by
    refine Relation.ReflTransGen.mono ?_ _ _ steps.survived
    rintro _ _ ⟨moves⟩
    exact .party (nextFile_ok (surviving_eq_some.mp moves)).1
  exact @args_settled tableOrder (files.objects libs) conf dictBuilder inserted threadCount
    someThread small joined hsteps (fun w hw => nextFile_none (ended w hw))

end Launched

/-- A build with a file at which the parser ends the process always ends there, in whichever order
the threads come to their files, and leaves the database as its constructor opened it: empty, if it
could be opened. With no such file it always stores the tables of the files' symbols. -/
theorem fatal_files_empty_database (z : Zstd)
    (order : IterationOrder (TrigramCode × List UInt32))
    {tableOrder : IterationOrder (SymbolName × SymbolRefs)}
    (inserted : InsertionOrdered tableOrder) (libs : Libraries) (files : FoundFiles)
    (small : files.foundFiles.length < 2 ^ 32) (conf : ConfigParser)
    (dictBuilder : Option DictionaryBuilder) (threadCount : Nat) (someThread : 1 ≤ threadCount)
    (existing opened : Except Nat Unit) (before : Disk) :
    (∃ ending after, FilesBuild z order tableOrder libs files conf dictBuilder threadCount existing
      opened before ending after) ∧
    ∀ ending after, FilesBuild z order tableOrder libs files conf dictBuilder threadCount existing
        opened before ending after →
      (AllReadable libs files → ∃ r, ending = .ok r ∧
        Writing.on (storeDb z order opened (settledArgs (files.objects libs) conf dictBuilder))
          (before.opened existing) = (r, after)) ∧
      (¬ AllReadable libs files → after = before.opened existing ∧
        ∃ id ∈ allFileIds files.foundFiles.length, ∃ stop, EndsAt libs files id stop ∧
          Certain stop ∧ ending = .error stop) := by
  have launched : launchThreads files.foundFiles.length threadCount =
      some ((computeFileIdChunks files.foundFiles.length threadCount).map Worker.start) := by
    rw [launchThreads, if_neg (by omega)]
  constructor
  · have lowers : ∀ w w', nextFile libs files w = some (.ok w') →
        w'.work (files.objects libs) < w.work (files.objects libs) :=
      fun w w' step => worker_lowers w w' (nextFile_ok step).1
    obtain ⟨state, steps, ended⟩ := exists_over lowers
      ((computeFileIdChunks files.foundFiles.length threadCount).map Worker.start)
    cases state with
    | error stop => exact ⟨_, _, .fell launched steps⟩
    | ok joined => exact ⟨_, _, .stored launched steps ended rfl⟩
  · intro ending after build
    cases build with
    | fell hlaunched steps =>
      rw [(launched_chunks hlaunched).2] at steps
      obtain ⟨id, hid, hends⟩ := fell_at someThread small steps rfl
      refine ⟨fun readable => absurd hends (allReadable_iff.mp readable id hid _), fun _ => ?_⟩
      exact ⟨rfl, id, hid, _, hends, endsAt_certain hends, rfl⟩
    | stored hlaunched steps ended store =>
      rw [(launched_chunks hlaunched).2] at steps
      have readable := joined_readable someThread small steps rfl ended
      refine ⟨fun _ => ⟨_, rfl, ?_⟩, fun unreadable => absurd readable unreadable⟩
      rw [← joined_args someThread small steps inserted rfl ended]
      exact store

/-- Two files of which the second divides by zero. -/
def zeroEntsizeFiles : FoundFiles where
  foundFiles := [⟨text "a.o", 0⟩, ⟨text "b.o", 0⟩]
  cache := (StringCache.new.storeString (text "/lib/")).1
  fileAt id _ := if id = 1 then ElfFiles.zeroEntsizeFile else ⟨.ok (), .ok (), none⟩
  inside := by
    intro id _ kind hkind
    split at hkind
    · cases hkind
      intro scn hscn _ i hi
      obtain rfl := List.mem_singleton.mp hscn
      exact absurd hi (Nat.not_lt_zero i)
    · cases hkind

/-- Two threads over them leave an empty database. -/
theorem fatal_files_empty_database_sample : ∃ stop,
    FilesBuild Zstd.stored (IterationOrder.insertion _) (IterationOrder.insertion _)
      ElfFiles.sampleLibraries zeroEntsizeFiles ConfigParser.new none 2 (.ok ()) (.ok ())
      ⟨text "an older database", [], 0⟩ (.error stop) ⟨[], [], 0⟩ := by
  obtain ⟨⟨ending, after, build⟩, builds⟩ := fatal_files_empty_database Zstd.stored
    (IterationOrder.insertion _) insertion_ordered ElfFiles.sampleLibraries zeroEntsizeFiles
    (by decide) ConfigParser.new none 2 (by decide) (.ok ()) (.ok ())
    ⟨text "an older database", [], 0⟩
  have unreadable : ¬ AllReadable ElfFiles.sampleLibraries zeroEntsizeFiles := by
    rw [allReadable_iff]
    intro never
    exact never 1 (by decide) .divideByZero ⟨_, rfl, rfl⟩
  obtain ⟨rfl, _, _, stop, _, _, rfl⟩ := (builds ending after build).2 unreadable
  exact ⟨stop, build⟩

end Builds

end FatalFiles
