import SymFind.Database.StoppedStore
import SymFind.Program.ReadAfterBuild

/-!
# Reading in a session whose builds may stop

A build writes over the database in place, and the kernel or a signal may stop
it at any byte. What a later read finds is never a mixture of two databases: it
is what the last build that changed the file has stored, and nothing unless that
build got to the end of its header.
-/
namespace StoppedBuilds
open RecordCodec InsertionMap Machine SymbolData TrigramCodes Compression Config ConfigParsing
open StringComparators OptionParser CommandLines PathStrings PathCache TreeScan ScanSelection
open ElfParser Interleaving ParallelBuild SearchAgreement ThreadCount DatabaseLayout
open DatabaseBlocks (insertion_ordered)
open DatabaseWriting WritePlan DatabaseReading DatabaseRoundTrip InterruptedStore StoppedStore
open SymbolLookup SymbolPrinting FreeRunOutput Shuffle SearchPipeline ReproducibleBuild MainProgram
open ProgramRuns ReadAfterBuild

section Changes

variable {lib : Libraries} {path : Bytes}

/-- A session none of whose runs changes the file under a path. -/
inductive KeepsFile (lib : Libraries) (path : Bytes) :
    Files → List (Surroundings × List Bytes) → Files → Prop
  | nil {files : Files} : KeepsFile lib path files [] files
  | cons {w : Surroundings} {argv : List Bytes} {runs : List (Surroundings × List Bytes)}
      {files between files' : Files} {outcome : Outcome}
      (run : MainRun lib w argv files outcome between) (same : between path = files path)
      (later : KeepsFile lib path between runs files') :
      KeepsFile lib path files ((w, argv) :: runs) files'

lemma KeepsFile.files_eq {runs : List (Surroundings × List Bytes)} {files files' : Files}
    (keeps : KeepsFile lib path files runs files') : files' path = files path := by
  induction keeps with
  | nil => rfl
  | cons run same later ih => exact ih.trans same

/-- The last run of a session that changes the file under a path. -/
structure LastChange (lib : Libraries) (path : Bytes) (files : Files)
    (runs : List (Surroundings × List Bytes)) (later : Files) (w : Surroundings)
    (argv : List Bytes) (before : Files) (outcome : Outcome) (stored : Files) : Prop where
  run : MainRun lib w argv before outcome stored
  changes : stored path ≠ before path
  around : ∃ earlier others, runs = earlier ++ (w, argv) :: others ∧
    Session lib files earlier before ∧ KeepsFile lib path stored others later

/-- Either no run of a session changes a file, or one is the last to do so. -/
lemma session_change {runs : List (Surroundings × List Bytes)} {files later : Files}
    (session : Session lib files runs later) : KeepsFile lib path files runs later ∨
      ∃ w argv before outcome stored,
        LastChange lib path files runs later w argv before outcome stored := by
  induction session with
  | nil => exact .inl .nil
  | @cons w argv runs files between files' outcome run later ih =>
    rcases ih with keeps | ⟨w', argv', before, outcome', stored, last⟩
    · by_cases same : between path = files path
      · exact .inl (.cons run same keeps)
      · exact .inr ⟨w, argv, files, outcome, between, run, same, [], runs, rfl, .nil, keeps⟩
    · obtain ⟨run', changes, earlier, others, hruns, reached, keeps⟩ := last
      refine .inr ⟨w', argv', before, outcome', stored, run', changes, (w, argv) :: earlier,
        others, ?_, .cons run reached, keeps⟩
      rw [hruns, List.cons_append]

end Changes

section Leftovers

variable {lib : Libraries} {w : Surroundings} {p : Prepared} {files files' : Files}
  {outcome : Outcome}

/-- What a build stores, in front of its final header as well, stays below 2^32 bytes. -/
structure RoomFor (lib : Libraries) (w : Surroundings) (p : Prepared) : Prop where
  fits : FitsFor lib w p
  before : ∀ args, Handed lib w p args →
    (partsBefore lib.zstd lib.storeOrder args).flatten.length < 2 ^ 32

/-- The final header of a build ends between the capacity of the slots and the place of the
postings. -/
def CutOff (lib : Libraries) (w : Surroundings) (p : Prepared) (file : Except Nat Bytes) : Prop :=
  ∃ args built n, Handed lib w p args ∧
    buildTables lib.zstd lib.storeOrder args (withDictOf lib.zstd args) = .ok built ∧
    capacityOffset < n ∧ n < countsOffset ∧ file = .ok (cutImage lib.zstd args built n)

/-- The file of a build that stored everything a reader uses. -/
def Completed (lib : Libraries) (w : Surroundings) (p : Prepared) (file : Except Nat Bytes) :
    Prop :=
  ∃ (run : BuildRun lib.zstd lib.storeOrder lib.tableOrder (p.shared w) p.conf
      p.scanned.dictBuilder) (left : Bytes),
    file = .ok left ∧ Alike left run.after.file

/-- With some answers of the kernel a build stores everything. -/
lemma exists_completed {args : StoreArgs} (handed : Handed lib w p args) (fits : FitsFor lib w p)
    {built : BuiltTables}
    (hbuilt : buildTables lib.zstd lib.storeOrder args (withDictOf lib.zstd args) = .ok built) :
    ∃ run : BuildRun lib.zstd lib.storeOrder lib.tableOrder (p.shared w) p.conf
        p.scanned.dictBuilder,
      run.after.file = (imageParts lib.zstd args built).flatten := by
  have hfits := fits args handed
  obtain ⟨answers, after, completes⟩ := storeDb_completes hbuilt (hfits.image built hbuilt) []
  obtain ⟨built', hbuilt', himage⟩ := stored_image hfits completes
  obtain rfl : built = built' := Except.ok.inj (hbuilt.symm.trans hbuilt')
  cases handed with
  | @stopped threadCount workers joined launched steps stopped =>
    exact ⟨⟨threadCount, (launched_chunks launched).1, workers, launched, joined, steps, stopped,
      _, rfl, .ok (), .ok (), _, after, completes⟩, himage⟩

/-- What the constructor of a builder does to its database. -/
lemma openedFiles_self (w : Surroundings) (p : Prepared) (files : Files) :
    openedFiles w p files p.conf.databasePath = files p.conf.databasePath ∨
      openedFiles w p files p.conf.databasePath = .ok [] := by
  rw [openedFiles]
  rcases w.openExisting p.conf.databasePath with errno | ⟨⟩
  · exact .inl rfl
  · exact .inr (rewritten_self _ _ _)

/-- A build that changes its database leaves it empty, or what a run of `store_db` leaves. -/
lemma BuildDb.leaves (builds : BuildDb lib w p files outcome files')
    (changes : files' p.conf.databasePath ≠ files p.conf.databasePath) :
    files' p.conf.databasePath = .ok [] ∨ ∃ args disk, Handed lib w p args ∧
      files' p.conf.databasePath = .ok (fileLeft lib.zstd lib.storeOrder args disk) := by
  cases builds with
  | @stored threads workers joined merging pending errno result after counted launched steps
      stopped sound merged runs =>
    rcases hopened : w.openDatabase p.conf.databasePath with errno' | ⟨⟩
    · rw [hopened] at changes
      exact .inl ((openedFiles_self w p files).resolve_left changes)
    · rw [hopened] at runs
      refine .inr ⟨_, ⟨bytesOf (openedFiles w p files p.conf.databasePath), pending, errno⟩,
        .stopped launched steps stopped, ?_⟩
      rw [rewritten_self, fileLeft, ← merged, runs]
  | _ => exact .inl ((openedFiles_self w p files).resolve_left changes)

/-- So nothing is found in its file, or everything, or its header was cut off. -/
lemma BuildDb.leftover (builds : BuildDb lib w p files outcome files') (room : RoomFor lib w p)
    (changes : files' p.conf.databasePath ≠ files p.conf.databasePath) :
    Silent (files' p.conf.databasePath) ∨ Completed lib w p (files' p.conf.databasePath) ∨
      CutOff lib w p (files' p.conf.databasePath) := by
  rcases BuildDb.leaves builds changes with hempty | ⟨args, disk, handed, hfile⟩
  · rw [hempty]
    exact .inl (silent_short (by decide : 0 < 10))
  rw [hfile]
  have hfits := room.fits args handed
  have hbefore := room.before args handed
  by_cases late : (partsBefore lib.zstd lib.storeOrder args).flatten.length <
      storedBytes lib.zstd lib.storeOrder args disk.pending
  · obtain ⟨built, hbuilt, n, hwidth, -, hcut⟩ := fileLeft_cut hfits late
    rw [hcut]
    by_cases early : n ≤ capacityOffset
    · exact .inl (silent_cut hfits hbuilt early)
    · by_cases located : countsOffset ≤ n
      · obtain ⟨run, himage⟩ := exists_completed handed room.fits hbuilt
        refine .inr (.inl ⟨run, _, rfl, ?_⟩)
        rw [himage]
        exact alike_cut hfits hbuilt located hwidth
      · exact .inr (.inr ⟨args, built, n, handed, hbuilt, Nat.lt_of_not_le early,
          Nat.lt_of_not_le located, rfl⟩)
  · exact .inl (silent_early hbefore (Nat.le_of_not_lt late))

/-- Only a build of the database changes it. -/
lemma MainRun.change_builds {argv : List Bytes} {path : Bytes}
    (run : MainRun lib w argv files outcome files') (changes : files' path ≠ files path) :
    ∃ p body, RunsAs lib .buildDb w argv p files outcome files' ∧
      p.conf.databasePath = path ∧ BuildDb lib w p files body files' := by
  cases run with
  | ended prepared => exact absurd rfl changes
  | killed said printed => exact absurd rfl changes
  | @ready p body _ prepared run =>
    cases run with
    | buildDb method builds =>
      refine ⟨p, body, ⟨prepared, method, body, rfl, .buildDb method builds⟩, ?_, builds⟩
      by_contra hpath
      exact changes (BuildDb.files_other builds (fun h => hpath h.1))
    | _ => exact absurd rfl changes

end Leftovers

section Reads

variable {lib : Libraries}

/-- Where every lookup ends with a message a read says so and prints nothing. -/
lemma readDb_silent {q : Prepared} {files : Files} (ready : Ready q.options)
    (silent : Silent (files q.conf.databasePath)) :
    (readDb lib q files).ending = .returned 1 ∧ (readDb lib q files).printed = [] := by
  obtain ⟨compareSymNames, made⟩ := @comparator_made lib _ ready
  obtain ⟨errMsg, hfails⟩ := silent lib.zstd lib.countOrder lookupFuel q.conf q.options.symbol
    (ignoreEntry compareSymNames)
  rw [readDb, made]
  simp only [hfails, and_self]

/-- The read shows what the files that a build found have for its query. -/
def Shows (lib : Libraries) (q : Prepared) (read : Outcome) (w : Surroundings) (p : Prepared) :
    Prop :=
  ∃ compareSymNames found, comparatorOf lib q.options = some compareSymNames ∧
    read.printed = outputOf found ∧
      found.Perm ((shownOfPaths w.contents (ignoreSymbol compareSymNames) (pathsFound p)).filter
        (fun shown => EmitsAll q.options.symbol shown.2.1))

/-- Whatever runs lie before a read, and wherever the builds among them were stopped by the kernel
or died: the read prints nothing and returns 1, or it shows exactly what the files of the last build
that changed the database have for the query. Only a header that was cut off between the capacity of
the slots and the place of the postings is left open. -/
theorem session_reads (undoes : lib.zstd.Undoes) {files later last : Files}
    {runs : List (Surroundings × List Bytes)} (session : Session lib files runs later)
    {w' : Surroundings} {argv : List Bytes} {q : Prepared} {read : Outcome}
    (reading : RunsAs lib .readDb w' argv q later read last)
    (start : Silent (files q.conf.databasePath))
    (room : ∀ run ∈ runs, ∀ p, prepare run.1 run.2 = .ready p →
      p.options.runningMethod = .buildDb → RoomFor lib run.1 p) :
    (read.ending = .returned 1 ∧ read.printed = []) ∨
      ∃ w buildArgv before outcome stored p,
        LastChange lib q.conf.databasePath files runs later w buildArgv before outcome stored ∧
        RunsAs lib .buildDb w buildArgv p before outcome stored ∧
        p.conf.databasePath = q.conf.databasePath ∧
          (Shows lib q read w p ∨ CutOff lib w p (later q.conf.databasePath)) := by
  obtain ⟨_, by_conf'⟩ := prepare_ready reading.prepared
  have hread := reading.reads
  rcases session_change session with keeps | ⟨w, buildArgv, before, outcome, stored, change⟩
  · rw [← keeps.files_eq] at start
    rw [hread]
    exact .inl (readDb_silent by_conf'.ready start)
  · obtain ⟨p, body, building, samePath, builds⟩ :=
      MainRun.change_builds change.run change.changes
    obtain ⟨earlier, others, hruns, -, keeps⟩ := change.around
    have hroom : RoomFor lib w p :=
      room (w, buildArgv) (by rw [hruns]; simp) p building.prepared building.method
    have hchanges := change.changes
    have hkept := keeps.files_eq
    rw [← samePath] at hchanges
    rcases BuildDb.leftover builds hroom hchanges with silent | completed | cut
    · rw [samePath, ← hkept] at silent
      rw [hread]
      exact .inl (readDb_silent by_conf'.ready silent)
    · refine .inr ⟨w, buildArgv, before, outcome, stored, p, change, building, samePath,
        .inl ?_⟩
      obtain ⟨run, left, hfile, alike⟩ := completed
      obtain ⟨compareSymNames, made⟩ := @comparator_made lib _ by_conf'.ready
      obtain ⟨_, by_conf⟩ := prepare_ready building.prepared
      have hanswer := alike lib.zstd lib.countOrder lookupFuel q.conf q.options.symbol
        (ignoreEntry compareSymNames)
      rw [← hfile, samePath, ← hkept] at hanswer
      obtain ⟨found, hprinted, hperm⟩ := readDb_answers undoes by_conf hroom.fits run
        by_conf'.ready reading.method made hanswer
      rw [hread]
      exact ⟨compareSymNames, found, made, hprinted, hperm⟩
    · rw [samePath, ← hkept] at cut
      exact .inr ⟨w, buildArgv, before, outcome, stored, p, change, building, samePath,
        .inr cut⟩

lemma sample_roomFor : RoomFor sampleLibraries sampleWorld (samplePrepared buildOptions) := by
  refine ⟨sample_fitsFor oneSymbol_small, fun args handed => ?_⟩
  obtain ⟨built, hbuilt, hfits⟩ := sample_tables oneSymbol_small
  have small : fileCount (samplePrepared buildOptions) < 2 ^ 32 := by decide +kernel
  rw [handed.settled insertion_ordered small]
  change (partsBefore Zstd.stored (IterationOrder.insertion _)
    (sampleStoreArgs oneSymbol)).flatten.length < _
  rw [partsBefore_built hbuilt]
  exact hfits

/-- A read behind one build, with no database before it, shows the files of that build. -/
theorem session_reads_sample : ∃ (later : Files) (read : Outcome),
    Session sampleLibraries noFiles [(sampleWorld, [text "symfind", text "-m", text "build_db"])]
      later ∧
    RunsAs sampleLibraries .readDb sampleWorld [text "symfind", text "main"]
      (samplePrepared readOptions) later read later ∧
    read.printed ≠ [] ∧
    ∃ w buildArgv before outcome stored p,
      LastChange sampleLibraries sampleConf.databasePath noFiles
        [(sampleWorld, [text "symfind", text "-m", text "build_db"])] later w buildArgv before
        outcome stored ∧
      RunsAs sampleLibraries .buildDb w buildArgv p before outcome stored ∧
      p.conf.databasePath = sampleConf.databasePath ∧
        (Shows sampleLibraries (samplePrepared readOptions) read w p ∨
          CutOff sampleLibraries w p (later sampleConf.databasePath)) := by
  obtain ⟨built, stored, build, success, -⟩ := sample_build oneSymbol_small
  have session : Session sampleLibraries noFiles _ stored := .cons build.mainRun .nil
  have reading := sample_read oneSymbol stored
  have prints := sample_prints oneSymbol_small build success
    (prepare_ready reading.prepared).choose_spec.ready rfl rfl (by decide +kernel)
  have reads := session_reads Zstd.stored_undoes session reading (silent_unopened 2)
  refine ⟨stored, _, session, reading, prints, (reads ?_).resolve_left (fun h => prints h.2)⟩
  intro run hrun p prepared _
  obtain rfl := List.mem_singleton.mp hrun
  obtain rfl : samplePrepared buildOptions = p :=
    Preparation.ready.inj ((sample_build_prepared oneSymbol).symm.trans prepared)
  exact sample_roomFor

end Reads

end StoppedBuilds
