import Mathlib.Data.List.TakeWhile
import Mathlib.Data.Prod.Lex
import SymFind.Build.FatalFiles
import SymFind.Lib.SharedOutput
import SymFind.Program.FreeRunOutput

/-!
# A free run, step by step

A thread parses the next file of its chunk and then inserts what it shows of it,
one item after the other, while other threads do the same. With readable files
the outputs are the shuffles of what the threads show. A file that ends the
process leaves a beginning of them.
-/
namespace FreeRunSteps
open RecordCodec Machine SymbolData PathCache ElfParser Threading ParallelBuild SearchAgreement
open Outcome Shuffle SharedOutput FreeRunOutput FatalFiles
open ElfFiles (Libraries ProcessEnd)

section Threads

/-- A thread of the symbol finder: the files before it, the vector of its callback, and what is
still to be inserted of the last file. -/
structure Finder where
  fileIds : FileIDList
  parsedSymbolEntries : List SymbolEntry
  pending : List Bytes
  fault : Option Fault

def Finder.start (fileIds : FileIDList) : Finder := ⟨fileIds, [], [], none⟩

variable (libs : Libraries) (files : FoundFiles) (ignoreSymbol : SymbolShouldBeIgnoredCallback)

/-- One step of `worker`: the next insertion, or the next file. A failed parse goes on without
clearing the vector. -/
def nextInsertion (f : Finder) : Option (Except ProcessEnd (Finder × Option Bytes)) :=
  match f.fault, f.pending, f.fileIds with
  | some _, _, _ => none
  | none, item :: rest, _ => some (.ok ({ f with pending := rest }, some item))
  | none, [], [] => none
  | none, [], id :: ids =>
    match files.foundFiles[id.toNat]? with
    | none => some (.ok ({ f with fault := some .outOfBounds }, none))
    | some fileInfo =>
      let filePath := getFileInfoFullPath files.cache fileInfo
      match ElfFiles.parseSymtables libs (files.fileAt id filePath) ignoreSymbol with
      | .error stop => some (.error stop)
      | .ok (.error _) => some (.ok ({ f with fileIds := ids }, none))
      | .ok (.ok syms) => some (.ok ({ f with
          fileIds := ids
          parsedSymbolEntries := []
          pending := outputOf ((f.parsedSymbolEntries ++ syms).map
            (fun sym => (filePath, sym.name, sym.metadata))) }, none))

/-- How the parser ends the process at a found file, if it does. -/
def stopAt (id : FileID) : Option ProcessEnd :=
  match files.foundFiles[id.toNat]? with
  | none => none
  | some fileInfo =>
    match ElfFiles.parseSymtables libs
        (files.fileAt id (getFileInfoFullPath files.cache fileInfo)) ignoreSymbol with
    | .error stop => some stop
    | .ok _ => none

/-- How a thread over these files ends the process, if it does. -/
def stopOf (ids : FileIDList) : Option ProcessEnd := ids.findSome? (stopAt libs files ignoreSymbol)

/-- What a thread over these files inserts, in front of the first one that ends the process. -/
def dueOutput (ids : FileIDList) : List Bytes :=
  outputOf ((ids.takeWhile (fun id => (stopAt libs files ignoreSymbol id).isNone)).flatMap
    (shownOf (files.objects libs) ignoreSymbol))

def Finder.due (f : Finder) : List Bytes := f.pending ++ dueOutput libs files ignoreSymbol f.fileIds

/-- The files before a thread exist, and nothing is left in its vector. -/
structure Finder.Sound (f : Finder) : Prop where
  ids : ∀ id ∈ f.fileIds, id.toNat < files.foundFiles.length
  vector : f.parsedSymbolEntries = []
  fault : f.fault = none

variable {libs files ignoreSymbol}

/-- The symbols that a parse delivers. -/
def delivered : Except Bytes (List SymbolEntry) → List SymbolEntry
  | .error _ => []
  | .ok syms => syms

/-- They are what is shown of the file. -/
lemma shownOf_parsed {id : FileID} {fileInfo : FileInfo}
    (hget : files.foundFiles[id.toNat]? = some fileInfo)
    {parsed : Except Bytes (List SymbolEntry)}
    (hparse : ElfFiles.parseSymtables libs
      (files.fileAt id (getFileInfoFullPath files.cache fileInfo)) ignoreSymbol = .ok parsed) :
    shownOf (files.objects libs) ignoreSymbol id = (delivered parsed).map
      (fun sym => (getFileInfoFullPath files.cache fileInfo, sym.name, sym.metadata)) := by
  have readable := (ElfFiles.returns_parseSymtables _ ignoreSymbol).mp ⟨parsed, hparse⟩
  rw [ElfFiles.parse_as_objectFile readable] at hparse
  obtain rfl := Except.ok.inj hparse
  have hfound : (files.objects libs).foundFiles[id.toNat]? = some fileInfo := hget
  rw [shownOf, reportedSymbols, filePathOf, hfound]
  change List.map _ (List.filter _ (delivered (ElfFiles.objectFile libs
    (files.fileAt id (getFileInfoFullPath files.cache fileInfo))))) = _
  cases ElfFiles.objectFile libs (files.fileAt id (getFileInfoFullPath files.cache fileInfo)) <;>
    rfl

lemma stopAt_eq_none_iff {id : FileID} {fileInfo : FileInfo}
    (hget : files.foundFiles[id.toNat]? = some fileInfo) :
    stopAt libs files ignoreSymbol id = none ↔ ElfFiles.FileReadable libs
      (files.fileAt id (getFileInfoFullPath files.cache fileInfo)) := by
  rw [stopAt, hget, ← ElfFiles.returns_parseSymtables _ ignoreSymbol]
  dsimp only
  cases ElfFiles.parseSymtables libs
    (files.fileAt id (getFileInfoFullPath files.cache fileInfo)) ignoreSymbol with
  | error stop => exact iff_of_false nofun (not_returns_error stop)
  | ok parsed => exact iff_of_true rfl (returns_ok parsed)

/-- Behind a file that does not end the process a thread goes on with the others. -/
lemma dueOutput_cons {id : FileID} (passes : stopAt libs files ignoreSymbol id = none)
    (ids : FileIDList) :
    dueOutput libs files ignoreSymbol (id :: ids) =
      outputOf (shownOf (files.objects libs) ignoreSymbol id) ++
        dueOutput libs files ignoreSymbol ids := by
  rw [dueOutput, List.takeWhile_cons_of_pos (by rw [passes]; rfl), List.flatMap_cons,
    outputOf_append, dueOutput]

lemma stopOf_cons {id : FileID} (passes : stopAt libs files ignoreSymbol id = none)
    (ids : FileIDList) :
    stopOf libs files ignoreSymbol (id :: ids) = stopOf libs files ignoreSymbol ids := by
  rw [stopOf, List.findSome?_cons, passes, stopOf]

/-- The steps of a sound thread. -/
lemma next_cases {f : Finder} (sound : f.Sound files) :
    (∃ item rest, f.pending = item :: rest ∧
      nextInsertion libs files ignoreSymbol f =
        some (.ok ({ f with pending := rest }, some item))) ∨
    (f.pending = [] ∧ f.fileIds = [] ∧ nextInsertion libs files ignoreSymbol f = none) ∨
    (∃ id ids stop, f.pending = [] ∧ f.fileIds = id :: ids ∧
      stopAt libs files ignoreSymbol id = some stop ∧
      nextInsertion libs files ignoreSymbol f = some (.error stop)) ∨
    (∃ id ids, f.pending = [] ∧ f.fileIds = id :: ids ∧
      stopAt libs files ignoreSymbol id = none ∧
      nextInsertion libs files ignoreSymbol f = some (.ok (⟨ids, [],
        outputOf (shownOf (files.objects libs) ignoreSymbol id), none⟩, none))) := by
  obtain ⟨hids, hvector, hfault⟩ := sound
  obtain ⟨fileIds, parsedSymbolEntries, pending, fault⟩ := f
  obtain rfl : parsedSymbolEntries = [] := hvector
  obtain rfl : fault = none := hfault
  cases pending with
  | cons item rest => exact .inl ⟨item, rest, rfl, rfl⟩
  | nil =>
    cases fileIds with
    | nil => exact .inr (.inl ⟨rfl, rfl, rfl⟩)
    | cons id ids =>
      obtain ⟨fileInfo, hget⟩ : ∃ fileInfo, files.foundFiles[id.toNat]? = some fileInfo :=
        ⟨_, List.getElem?_eq_getElem (hids id List.mem_cons_self)⟩
      refine .inr (.inr ?_)
      cases hparse : ElfFiles.parseSymtables libs
          (files.fileAt id (getFileInfoFullPath files.cache fileInfo)) ignoreSymbol with
      | error stop =>
        refine .inl ⟨id, ids, stop, rfl, rfl, ?_, ?_⟩
        · simp only [stopAt, hget, hparse]
        · simp only [nextInsertion, hget, hparse]
      | ok parsed =>
        have readable := (ElfFiles.returns_parseSymtables _ ignoreSymbol).mp ⟨parsed, hparse⟩
        refine .inr ⟨id, ids, rfl, rfl, (stopAt_eq_none_iff hget).mpr readable, ?_⟩
        rw [shownOf_parsed hget hparse]
        cases parsed with
        | error errMsg =>
          simp only [nextInsertion, hget, hparse]
          rfl
        | ok syms =>
          simp only [nextInsertion, hget, hparse, List.nil_append]
          rfl

/-- A step of a sound thread inserts the beginning of what is due, and leaves the way in which the
thread will end. -/
lemma next_keeps {f f' : Finder} {item : Option Bytes} (sound : f.Sound files)
    (moves : nextInsertion libs files ignoreSymbol f = some (.ok (f', item))) :
    f'.Sound files ∧
      item.toList ++ f'.due libs files ignoreSymbol = f.due libs files ignoreSymbol ∧
      stopOf libs files ignoreSymbol f'.fileIds = stopOf libs files ignoreSymbol f.fileIds := by
  rcases @next_cases libs files ignoreSymbol f sound with
    ⟨first, rest, hpending, hnext⟩ | ⟨-, -, hnext⟩ | ⟨id, ids, stop, -, -, -, hnext⟩ |
      ⟨id, ids, hpending, hids, hpasses, hnext⟩
  · obtain ⟨rfl, rfl⟩ := Prod.mk.inj (Except.ok.inj (Option.some.inj (hnext.symm.trans moves)))
    refine ⟨⟨sound.ids, sound.vector, sound.fault⟩, ?_, rfl⟩
    rw [Finder.due, Finder.due, hpending]
    rfl
  · rw [hnext] at moves
    cases moves
  · rw [hnext] at moves
    cases moves
  · obtain ⟨rfl, rfl⟩ := Prod.mk.inj (Except.ok.inj (Option.some.inj (hnext.symm.trans moves)))
    refine ⟨⟨?_, rfl, rfl⟩, ?_, ?_⟩
    · exact fun id' hid' => sound.ids id' (hids ▸ List.mem_cons_of_mem id hid')
    · rw [Finder.due, Finder.due, hpending, hids, dueOutput_cons hpasses]
      rfl
    · rw [hids, stopOf_cons hpasses]

/-- So does a thread on its own, until it can go no further. -/
lemma alone_keeps {f f' : Finder} {log : List Bytes} (sound : f.Sound files)
    (alone : Alone (nextInsertion libs files ignoreSymbol) f log f') :
    f'.Sound files ∧ log ++ f'.due libs files ignoreSymbol = f.due libs files ignoreSymbol ∧
      stopOf libs files ignoreSymbol f'.fileIds = stopOf libs files ignoreSymbol f.fileIds := by
  induction alone with
  | refl f => exact ⟨sound, rfl, rfl⟩
  | step moves later ih =>
    obtain ⟨hsound, hdue, hstop⟩ := next_keeps sound moves
    obtain ⟨hsound', hdue', hstop'⟩ := ih hsound
    refine ⟨hsound', ?_, hstop'.trans hstop⟩
    rw [List.append_assoc, hdue', hdue]

/-- A thread that goes no further has nothing due, and it falls if a file before it is fatal. -/
lemma end_cases {f : Finder} (sound : f.Sound files)
    (ended : ∀ f' item, nextInsertion libs files ignoreSymbol f ≠ some (.ok (f', item))) :
    f.due libs files ignoreSymbol = [] ∧ nextInsertion libs files ignoreSymbol f =
      (stopOf libs files ignoreSymbol f.fileIds).map Except.error := by
  rcases @next_cases libs files ignoreSymbol f sound with
    ⟨first, rest, -, hnext⟩ | ⟨hpending, hids, hnext⟩ |
      ⟨id, ids, stop, hpending, hids, hstop, hnext⟩ | ⟨id, ids, -, -, -, hnext⟩
  · exact absurd hnext (ended _ _)
  · rw [hnext, Finder.due, hpending, hids]
    exact ⟨rfl, rfl⟩
  · rw [hnext, Finder.due, hpending, hids, stopOf, List.findSome?_cons, hstop, dueOutput,
      List.takeWhile_cons_of_neg (by rw [hstop]; exact Bool.false_ne_true)]
    exact ⟨rfl, rfl⟩
  · exact absurd hnext (ended _ _)

lemma next_lowers (f f' : Finder) (item : Option Bytes)
    (moves : nextInsertion libs files ignoreSymbol f = some (.ok (f', item))) :
    toLex ((if f'.fault = none then f'.fileIds.length + 1 else 0), f'.pending.length) <
      toLex ((if f.fault = none then f.fileIds.length + 1 else 0), f.pending.length) := by
  rw [Prod.Lex.toLex_lt_toLex]
  obtain ⟨fileIds, parsedSymbolEntries, pending, fault⟩ := f
  cases fault with
  | some fault => cases moves
  | none =>
    cases pending with
    | cons first rest =>
      cases moves
      exact .inr ⟨rfl, Nat.lt_succ_self _⟩
    | nil =>
      cases fileIds with
      | nil => cases moves
      | cons id ids =>
        left
        rw [nextInsertion] at moves
        dsimp only at moves
        split at moves
        · cases moves
          exact Nat.succ_pos _
        · split at moves <;> cases moves <;> exact Nat.lt_succ_self _

lemma start_sound {ids : FileIDList} (inRange : ∀ id ∈ ids, id.toNat < files.foundFiles.length) :
    (Finder.start ids).Sound files := ⟨inRange, rfl, rfl⟩

/-- A thread can insert all that is due, and then it is done or falls. -/
lemma exists_run {ids : FileIDList} (inRange : ∀ id ∈ ids, id.toNat < files.foundFiles.length) :
    ∃ f, Alone (nextInsertion libs files ignoreSymbol) (Finder.start ids)
        (dueOutput libs files ignoreSymbol ids) f ∧ f.fault = none ∧
      nextInsertion libs files ignoreSymbol f =
        (stopOf libs files ignoreSymbol ids).map Except.error := by
  obtain ⟨log, f, alone, ended⟩ := exists_end (@next_lowers libs files ignoreSymbol)
    (Finder.start ids)
  obtain ⟨hsound, hdue, hstop⟩ := alone_keeps (start_sound inRange) alone
  obtain ⟨hnothing, hnext⟩ := end_cases hsound ended
  rw [hnothing, List.append_nil] at hdue
  subst hdue
  rw [hstop] at hnext
  exact ⟨f, alone, hsound.fault, hnext⟩

end Threads

section Runs

/-- How a free run ends, and what has been inserted then: all threads are joined, or one of them
takes the process with it. What others insert while it does so they might have inserted before. -/
inductive FinderRun (libs : Libraries) (files : FoundFiles)
    (ignoreSymbol : SymbolShouldBeIgnoredCallback) (threadCount : Nat) :
    Except ProcessEnd Unit → List Bytes → Prop
  | joined {finders : List Finder} {out : List Bytes}
      (steps : Steps (nextInsertion libs files ignoreSymbol)
        ((computeFileIdChunks files.foundFiles.length threadCount).map Finder.start, [])
        (finders, out))
      (ended : ∀ f ∈ finders, f.fault = none ∧ nextInsertion libs files ignoreSymbol f = none) :
      FinderRun libs files ignoreSymbol threadCount (.ok ()) out
  | fell {finders : List Finder} {out : List Bytes} {f : Finder} {stop : ProcessEnd}
      (steps : Steps (nextInsertion libs files ignoreSymbol)
        ((computeFileIdChunks files.foundFiles.length threadCount).map Finder.start, [])
        (finders, out))
      (hf : f ∈ finders) (falls : nextInsertion libs files ignoreSymbol f = some (.error stop)) :
      FinderRun libs files ignoreSymbol threadCount (.error stop) out

variable {libs : Libraries} {files : FoundFiles} {ignoreSymbol : SymbolShouldBeIgnoredCallback}
  {threadCount : Nat} {chunks : List FileIDList}

/-- All files are readable if no thread will fall. -/
lemma allReadable_iff_stopOf (small : files.foundFiles.length < 2 ^ 32)
    (all : chunks.flatten = allFileIds files.foundFiles.length) :
    AllReadable libs files ↔ ∀ chunk ∈ chunks, stopOf libs files ignoreSymbol chunk = none := by
  have hids : (∀ chunk ∈ chunks, stopOf libs files ignoreSymbol chunk = none) ↔
      ∀ id ∈ allFileIds files.foundFiles.length, stopAt libs files ignoreSymbol id = none := by
    simp only [← all, stopOf, List.findSome?_eq_none_iff, List.mem_flatten]
    exact ⟨fun h id ⟨chunk, hchunk, hid⟩ => h chunk hchunk id hid,
      fun h chunk hchunk id hid => h id ⟨chunk, hchunk, hid⟩⟩
  rw [hids, AllReadable]
  constructor
  · intro readable id hid
    have hget := List.getElem?_eq_getElem (allFileIds_lt small hid)
    exact (stopAt_eq_none_iff hget).mpr (readable id hid _ hget)
  · exact fun passes id hid fileInfo hget => (stopAt_eq_none_iff hget).mp (passes id hid)

lemma dueOutput_of_passes {ids : FileIDList}
    (passes : stopOf libs files ignoreSymbol ids = none) :
    dueOutput libs files ignoreSymbol ids =
      outputOf (ids.flatMap (shownOf (files.objects libs) ignoreSymbol)) := by
  rw [dueOutput, List.takeWhile_eq_self_iff.mpr]
  intro id hid
  rw [List.findSome?_eq_none_iff.mp passes id hid]
  rfl

/-- Over readable files the threads insert what they show. -/
lemma threadOutputs_due
    (inRange : ∀ chunk ∈ chunks, ∀ id ∈ chunk, id.toNat < files.foundFiles.length)
    (passes : ∀ chunk ∈ chunks, stopOf libs files ignoreSymbol chunk = none) :
    threadOutputs (files.objects libs) ignoreSymbol chunks =
      .ok (chunks.map (dueOutput libs files ignoreSymbol)) := by
  have hall : chunks.map (dueOutput libs files ignoreSymbol) =
      (chunks.map (fun chunk => chunk.flatMap (shownOf (files.objects libs) ignoreSymbol))).map
        outputOf := by
    rw [List.map_map]
    exact List.map_congr_left (fun chunk hchunk => dueOutput_of_passes (passes chunk hchunk))
  rw [threadOutputs, @mapM_worker (files.objects libs) ignoreSymbol chunks inRange, hall]
  rfl

section Threaded

variable {runs : List (Run (nextInsertion libs files ignoreSymbol))}
  (inRange : ∀ chunk ∈ chunks, ∀ id ∈ chunk, id.toNat < files.foundFiles.length)
  (starts : runs.map Run.first = chunks.map Finder.start)
include inRange starts

lemma first_sound {r : Run (nextInsertion libs files ignoreSymbol)} (hr : r ∈ runs) :
    r.first.Sound files := by
  have hmem : r.first ∈ chunks.map Finder.start := starts ▸ List.mem_map_of_mem hr
  obtain ⟨chunk, hchunk, hstart⟩ := List.mem_map.mp hmem
  exact hstart ▸ start_sound (inRange chunk hchunk)

omit inRange in
lemma chunk_at {i : Nat} {r : Run (nextInsertion libs files ignoreSymbol)}
    (hr : runs[i]? = some r) : ∃ chunk, chunks[i]? = some chunk ∧ Finder.start chunk = r.first := by
  rw [← Option.map_eq_some_iff, ← List.getElem?_map, ← starts, List.getElem?_map, hr]
  rfl

omit inRange in
lemma dues_of_runs : runs.map (fun r => r.first.due libs files ignoreSymbol) =
    chunks.map (dueOutput libs files ignoreSymbol) := by
  have hdues := congrArg (List.map (Finder.due libs files ignoreSymbol)) starts
  rwa [List.map_map, List.map_map] at hdues

/-- Threads on their own have inserted beginnings of what was due. -/
lemma logs_begin : List.Forall₂ (· <+: ·) (runs.map Run.log)
    (chunks.map (dueOutput libs files ignoreSymbol)) := by
  rw [← dues_of_runs starts, List.forall₂_map_left_iff, List.forall₂_map_right_iff,
    List.forall₂_same]
  intro r hr
  obtain ⟨-, hdue, -⟩ := alone_keeps (first_sound inRange starts hr) r.alone
  exact ⟨_, hdue⟩

/-- A thread that can go no further has inserted all of it. -/
lemma ended_of {r : Run (nextInsertion libs files ignoreSymbol)} (hr : r ∈ runs)
    (ended : ∀ f item, nextInsertion libs files ignoreSymbol r.last ≠ some (.ok (f, item))) :
    r.log = r.first.due libs files ignoreSymbol ∧
      nextInsertion libs files ignoreSymbol r.last =
        (stopOf libs files ignoreSymbol r.first.fileIds).map Except.error := by
  obtain ⟨hsound, hdue, hstop⟩ := alone_keeps (first_sound inRange starts hr) r.alone
  obtain ⟨hnothing, hnext⟩ := end_cases hsound ended
  rw [hnothing, List.append_nil] at hdue
  rw [hstop] at hnext
  exact ⟨hdue, hnext⟩

end Threaded

/-- Threads can insert any beginnings of what is due, and those that insert all of it end then. -/
lemma exists_runs {logs : List (List Bytes)}
    (inRange : ∀ chunk ∈ chunks, ∀ id ∈ chunk, id.toNat < files.foundFiles.length)
    (begins : List.Forall₂ (fun log chunk => log <+: dueOutput libs files ignoreSymbol chunk)
      logs chunks) :
    ∃ runs : List (Run (nextInsertion libs files ignoreSymbol)),
      runs.map Run.first = chunks.map Finder.start ∧ runs.map Run.log = logs ∧
      ∀ (i : Nat) (chunk : FileIDList), chunks[i]? = some chunk →
        logs[i]? = some (dueOutput libs files ignoreSymbol chunk) →
        ∃ r : Run (nextInsertion libs files ignoreSymbol), runs[i]? = some r ∧
          r.last.fault = none ∧
          nextInsertion libs files ignoreSymbol r.last =
            (stopOf libs files ignoreSymbol chunk).map Except.error := by
  induction begins with
  | nil => exact ⟨[], rfl, rfl, nofun⟩
  | @cons log chunk logs chunks begins _ ih =>
    obtain ⟨runs, hfirst, hlogs, hends⟩ := ih (fun c hc => inRange c (List.mem_cons_of_mem _ hc))
    obtain ⟨f, alone, hfault, hnext⟩ :=
      @exists_run libs files ignoreSymbol chunk (inRange chunk List.mem_cons_self)
    obtain ⟨r, hstart, hlog, hend⟩ : ∃ r : Run (nextInsertion libs files ignoreSymbol),
        r.first = Finder.start chunk ∧ r.log = log ∧
        (log = dueOutput libs files ignoreSymbol chunk → r.last = f) := by
      by_cases full : log = dueOutput libs files ignoreSymbol chunk
      · exact ⟨⟨_, _, f, alone⟩, rfl, full.symm, fun _ => rfl⟩
      · obtain ⟨rest, hrest⟩ := begins
        obtain ⟨t, hfront, -⟩ := @Alone.split _ _ _ _ _ _ log rest (hrest.symm ▸ alone)
        exact ⟨⟨_, log, t, hfront⟩, rfl, rfl, fun h => absurd h full⟩
    refine ⟨r :: runs, ?_, ?_, ?_⟩
    · rw [List.map_cons, List.map_cons, hstart, hfirst]
    · rw [List.map_cons, hlog, hlogs]
    · intro i chunk' hchunk hfull
      cases i with
      | zero =>
        obtain rfl := Option.some.inj hchunk
        obtain rfl := hend (Option.some.inj hfull)
        exact ⟨r, rfl, hfault, hnext⟩
      | succ i => exact hends i chunk' hchunk hfull

section Ends

variable (inRange : ∀ chunk ∈ computeFileIdChunks files.foundFiles.length threadCount,
  ∀ id ∈ chunk, id.toNat < files.foundFiles.length)
include inRange

lemma joined_iff (out : List Bytes) :
    FinderRun libs files ignoreSymbol threadCount (.ok ()) out ↔
      (∀ chunk ∈ computeFileIdChunks files.foundFiles.length threadCount,
        stopOf libs files ignoreSymbol chunk = none) ∧
      Shuffles ((computeFileIdChunks files.foundFiles.length threadCount).map
        (dueOutput libs files ignoreSymbol)) out := by
  constructor
  · rintro ⟨steps, ended⟩
    obtain ⟨runs, more, starts, rfl, hshuffles, rfl⟩ := steps_iff.mp steps
    have hends : ∀ r ∈ runs, r.log = r.first.due libs files ignoreSymbol ∧
        stopOf libs files ignoreSymbol r.first.fileIds = none := by
      intro r hr
      have hlast := (ended _ (List.mem_map_of_mem hr)).2
      obtain ⟨hlog, hnext⟩ := ended_of inRange starts hr
        (fun f item => by rw [hlast]; exact nofun)
      exact ⟨hlog, Option.map_eq_none_iff.mp (hnext.symm.trans hlast)⟩
    constructor
    · intro chunk hchunk
      have hstart : Finder.start chunk ∈ runs.map Run.first :=
        starts ▸ List.mem_map_of_mem hchunk
      obtain ⟨r, hr, hfirst⟩ := List.mem_map.mp hstart
      have hstop := (hends r hr).2
      rwa [hfirst] at hstop
    · rw [← dues_of_runs starts, ← List.map_congr_left (fun r hr => (hends r hr).1)]
      exact hshuffles
  · rintro ⟨passes, shuffles⟩
    obtain ⟨runs, hfirst, hlogs, hends⟩ := exists_runs inRange
      (List.forall₂_map_left_iff.mpr (List.forall₂_same.mpr
        (fun chunk _ => List.prefix_refl (dueOutput libs files ignoreSymbol chunk))))
    refine .joined (steps_iff.mpr ⟨runs, out, hfirst, rfl, hlogs ▸ shuffles, rfl⟩) ?_
    intro f hf
    obtain ⟨r, hr, rfl⟩ := List.mem_map.mp hf
    obtain ⟨i, hi⟩ := List.getElem?_of_mem hr
    obtain ⟨chunk, hchunk, -⟩ := chunk_at hfirst hi
    obtain ⟨r', hr', hfault, hnext⟩ := hends i chunk hchunk (by rw [List.getElem?_map, hchunk]; rfl)
    obtain rfl := Option.some.inj (hi.symm.trans hr')
    rw [passes chunk (List.mem_of_getElem? hchunk)] at hnext
    exact ⟨hfault, hnext⟩

/-- A process that is gone was taken by a thread that had inserted all that was due; the others had
inserted beginnings. -/
lemma fell_iff (stop : ProcessEnd) (out : List Bytes) :
    FinderRun libs files ignoreSymbol threadCount (.error stop) out ↔
      ∃ (i : Nat) (chunk : FileIDList) (logs : List (List Bytes)),
        (computeFileIdChunks files.foundFiles.length threadCount)[i]? = some chunk ∧
        stopOf libs files ignoreSymbol chunk = some stop ∧
        logs[i]? = some (dueOutput libs files ignoreSymbol chunk) ∧
        List.Forall₂ (· <+: ·) logs ((computeFileIdChunks files.foundFiles.length threadCount).map
          (dueOutput libs files ignoreSymbol)) ∧
        Shuffles logs out := by
  constructor
  · intro run
    cases run with
    | @fell finders _ f _ steps hf falls =>
      obtain ⟨runs, more, starts, rfl, hshuffles, rfl⟩ := steps_iff.mp steps
      obtain ⟨r, hr, rfl⟩ := List.mem_map.mp hf
      obtain ⟨hlog, hnext⟩ := ended_of inRange starts hr
        (fun f item => by rw [falls]; exact nofun)
      obtain ⟨i, hi⟩ := List.getElem?_of_mem hr
      obtain ⟨chunk, hchunk, hstart⟩ := chunk_at starts hi
      rw [← hstart] at hlog hnext
      obtain ⟨stop', hstop, herror⟩ := Option.map_eq_some_iff.mp (hnext.symm.trans falls)
      obtain rfl := Except.error.inj herror
      refine ⟨i, chunk, runs.map Run.log, hchunk, hstop, ?_, logs_begin inRange starts, hshuffles⟩
      rw [List.getElem?_map, hi, Option.map_some, hlog]
      rfl
  · rintro ⟨i, chunk, logs, hchunk, hstop, hfull, begins, shuffles⟩
    obtain ⟨runs, hfirst, rfl, hends⟩ := exists_runs inRange (List.forall₂_map_right_iff.mp begins)
    obtain ⟨r, hr, -, hnext⟩ := hends i chunk hchunk hfull
    rw [hstop] at hnext
    exact .fell (steps_iff.mpr ⟨runs, out, hfirst, rfl, shuffles, rfl⟩)
      (List.mem_map_of_mem (List.mem_of_getElem? hr)) hnext

/-- Whatever the threads have done, the run can come to one of its ends. -/
lemma goes_on {finders : List Finder} {out : List Bytes}
    (steps : Steps (nextInsertion libs files ignoreSymbol)
      ((computeFileIdChunks files.foundFiles.length threadCount).map Finder.start, [])
      (finders, out)) :
    ∃ ending more, FinderRun libs files ignoreSymbol threadCount ending (out ++ more) := by
  obtain ⟨finders', more, later, ended⟩ :=
    exists_ended (@next_lowers libs files ignoreSymbol) finders out
  have hsteps := steps.trans later
  by_cases falls : ∃ f ∈ finders', ∃ stop,
      nextInsertion libs files ignoreSymbol f = some (.error stop)
  · obtain ⟨f, hf, stop, hfalls⟩ := falls
    exact ⟨_, more, .fell hsteps hf hfalls⟩
  · refine ⟨_, more, .joined hsteps ?_⟩
    obtain ⟨runs, _, starts, hlasts, -, -⟩ := steps_iff.mp hsteps
    intro f hf
    obtain ⟨r, hr, rfl⟩ := List.mem_map.mp (hlasts ▸ hf)
    have hsound := (alone_keeps (first_sound inRange starts hr) r.alone).1
    refine ⟨hsound.fault, ?_⟩
    rcases hnext : nextInsertion libs files ignoreSymbol r.last with _ | stop | ⟨f', item⟩
    · rfl
    · exact absurd ⟨r.last, hf, stop, hnext⟩ falls
    · exact absurd hnext (ended r.last hf f' item)

end Ends

/-- Over readable files a free run that goes step by step inserts the shuffles of what its threads
show, all of them and nothing else. With a fatal file it always ends at one: a thread has inserted
what was due in front of its first fatal file, and the others beginnings of what was due. -/
theorem free_run_steps (libs : Libraries) (files : FoundFiles)
    (small : files.foundFiles.length < 2 ^ 32) (ignoreSymbol : SymbolShouldBeIgnoredCallback)
    (threadCount : Nat) (someThread : 1 ≤ threadCount) :
    (∀ out, FinderRun libs files ignoreSymbol threadCount (.ok ()) out ↔
      AllReadable libs files ∧ ∃ outputs, threadOutputs (files.objects libs) ignoreSymbol
        (computeFileIdChunks files.foundFiles.length threadCount) = .ok outputs ∧
          Shuffles outputs out) ∧
    (∀ stop out, FinderRun libs files ignoreSymbol threadCount (.error stop) out ↔
      ∃ (i : Nat) (chunk : FileIDList) (logs : List (List Bytes)),
        (computeFileIdChunks files.foundFiles.length threadCount)[i]? = some chunk ∧
        stopOf libs files ignoreSymbol chunk = some stop ∧
        logs[i]? = some (dueOutput libs files ignoreSymbol chunk) ∧
        List.Forall₂ (· <+: ·) logs ((computeFileIdChunks files.foundFiles.length threadCount).map
          (dueOutput libs files ignoreSymbol)) ∧
        Shuffles logs out) ∧
    ∀ finders out, Steps (nextInsertion libs files ignoreSymbol)
        ((computeFileIdChunks files.foundFiles.length threadCount).map Finder.start, [])
        (finders, out) →
      ∃ ending more, FinderRun libs files ignoreSymbol threadCount ending (out ++ more) := by
  have inRange := chunk_ids someThread small
  have hreadable := @allReadable_iff_stopOf libs files ignoreSymbol _ small
    (computeFileIdChunks_flatten someThread small)
  refine ⟨fun out => ?_, fell_iff inRange, fun _ _ => goes_on inRange⟩
  rw [joined_iff inRange, hreadable]
  constructor
  · exact fun ⟨passes, shuffles⟩ => ⟨passes, _, threadOutputs_due inRange passes, shuffles⟩
  · rintro ⟨passes, outputs, houtputs, shuffles⟩
    rw [threadOutputs_due inRange passes] at houtputs
    exact ⟨passes, Except.ok.inj houtputs ▸ shuffles⟩

/-- Two threads of which the second comes to a file that divides by zero. -/
theorem free_run_steps_sample :
    FinderRun ElfFiles.sampleLibraries zeroEntsizeFiles (fun _ => false) 2
      (.error .divideByZero) [] :=
  ((free_run_steps ElfFiles.sampleLibraries zeroEntsizeFiles (by decide) (fun _ => false) 2
    (by decide)).2.1 .divideByZero []).mpr
    ⟨1, [1], [[], []], by decide, rfl, rfl, .cons (List.nil_prefix) (.cons (List.nil_prefix) .nil),
      .done (by decide)⟩

end Runs

end FreeRunSteps
