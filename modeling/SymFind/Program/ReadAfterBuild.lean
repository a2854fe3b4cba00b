import SymFind.Core.TrigramEnds
import SymFind.Elf.ElfEntries
import SymFind.Program.ProgramRuns

/-!
# Reading what an earlier run built

A read answers from the tree that the last successful build saw. It agrees with
a free run over that tree as far as the trigrams of the query reach, and for
exact names it prints their definitions in the tree.
-/
namespace ReadAfterBuild
open RecordCodec InsertionMap Machine SymbolData TrigramCodes Compression Config ConfigParsing
open StringComparators OptionParser CommandLines PathStrings PathCache TreeScan ScanSelection
open ElfParser Interleaving ParallelBuild SearchAgreement ThreadCount DatabaseLayout
open DatabaseBlocks (iterated InsertionOrdered insertion_ordered)
open DatabaseWriting WritePlan DatabaseReading DatabaseRoundTrip SymbolLookup SymbolPrinting
open FreeRunOutput Shuffle SearchPipeline ReproducibleBuild MainProgram ProgramRuns

section Answers

variable {lib : Libraries} {w : Surroundings} {argv : List Bytes} {p : Prepared}
  {files files' : Files} {outcome : Outcome}

/-- No end that cuts a run short is that of a successful one. -/
lemma CutShort.fails {ending : Ending} (ends : CutShort w p ending) : ending ≠ .returned 0 := by
  cases ends with
  | killed => exact Ending.noConfusion
  | @parser _ stop found ends => cases stop <;> exact Ending.noConfusion

/-- A build that ends with success leaves what some order of the workers' steps stores. -/
lemma BuildDb.stores (builds : BuildDb lib w p files outcome files')
    (success : outcome.ending = .returned 0) :
    ∃ run : BuildRun lib.zstd lib.storeOrder lib.tableOrder (p.shared w) p.conf
        p.scanned.dictBuilder,
      files' p.conf.databasePath = .ok run.after.file := by
  cases builds with
  | @stored threads workers joined merging pending errno result after counted launched steps
      stopped sound merged runs =>
    have hthread : 1 ≤ threads.toNat := (launched_chunks launched).1
    rcases result with halt | ⟨⟩
    · cases halt <;> cases success
    · have hopened : w.openDatabase p.conf.databasePath = .ok () := by
        rcases hopened : w.openDatabase p.conf.databasePath with errno' | ⟨⟩
        · rw [hopened] at runs
          cases congrArg Prod.fst runs
        · rfl
      have hfile : rewritten (openedFiles w p files) p.conf.databasePath
          (w.openDatabase p.conf.databasePath) after.file p.conf.databasePath =
            .ok after.file := by
        rw [hopened, rewritten_self]
      exact ⟨⟨threads.toNat, hthread, workers, launched, joined, steps, stopped, merging, merged,
        w.openExisting p.conf.databasePath, w.openDatabase p.conf.databasePath, _, after, runs⟩,
        hfile⟩
  | cutShort counted some_thread ends => exact absurd success (CutShort.fails ends)
  | _ => cases success

lemma printSymbolLookupResults_eq (results : List SymbolLookupResult) :
    printSymbolLookupResults results = outputOf ((results.flatMap (fun result =>
      result.references.map (fun ref => (result.symbolName, ref)))).map shownReferenceOf) := by
  rw [printSymbolLookupResults, outputOf, List.flatMap_map, List.flatMap_assoc]
  apply List.flatMap_congr
  intro result _
  rw [List.flatMap_map]
  rfl

/-- What a read prints is what its lookup finds. -/
lemma readDb_printed {compareSymNames : StringComparator}
    (made : comparatorOf lib p.options = some compareSymNames)
    {found : List (SymbolName × FileReference)}
    (finds : flattened (findSymbolReferences lib.zstd lib.countOrder lookupFuel p.conf
      (files p.conf.databasePath) p.options.symbol (ignoreEntry compareSymNames)) = some found) :
    (readDb lib p files).printed = outputOf (found.map shownReferenceOf) := by
  rw [readDb, made]
  simp only
  revert finds
  rcases findSymbolReferences lib.zstd lib.countOrder lookupFuel p.conf
    (files p.conf.databasePath) p.options.symbol (ignoreEntry compareSymNames) with
    (fault | errMsg) | results
  · rintro ⟨⟩
  · rintro ⟨⟩
    rfl
  · rintro ⟨⟩
    exact printSymbolLookupResults_eq results

lemma comparator_made {options : ProgramOptions} (ready : Ready options) :
    ∃ compareSymNames, comparatorOf lib options = some compareSymNames := by
  rw [comparatorOf]
  rcases ready.searchType with h | h | h
  · exact ⟨_, by rw [h]; rfl⟩
  · exact ⟨_, by rw [h]; rfl⟩
  · exact ⟨_, by rw [h]; rfl⟩

/-- The paths of the files that a prepared run found. -/
def pathsFound (p : Prepared) : List Bytes :=
  p.scanned.foundFiles.map (getFileInfoFullPath p.scanned.cache)

/-- What a build of the found files may hand to its store when its threads have stopped. -/
inductive Handed (lib : Libraries) (w : Surroundings) (p : Prepared) : StoreArgs → Prop
  | stopped {threadCount : Nat} {workers joined : List Worker}
      (launched : launchThreads (fileCount p) threadCount = some workers)
      (steps : Steps (Worker.next (p.shared w)) workers joined)
      (stopped : Stopped (Worker.next (p.shared w)) joined) :
      Handed lib w p (buildArgs lib.tableOrder (p.shared w) p.conf
        (mergeSymtables ((joined.map Worker.symtable).map (iterated lib.tableOrder))
          ⟨Map.empty, p.scanned.dictBuilder, 0⟩))

/-- What the libraries store of the files of a prepared run fits into 32 bits. -/
def FitsFor (lib : Libraries) (w : Surroundings) (p : Prepared) : Prop :=
  ∀ args, Handed lib w p args → Fits lib.zstd lib.storeOrder args

lemma Handed.conf {args : StoreArgs} (handed : Handed lib w p args) : args.conf = p.conf := by
  cases handed
  rfl

lemma Handed.small {args : StoreArgs} (handed : Handed lib w p args) (fits : FitsFor lib w p) :
    fileCount p < 2 ^ 32 := by
  have hfits := fits args handed
  cases handed
  exact small_of_fits hfits

/-- Tables that are iterated in the order of insertion leave one possibility. -/
lemma Handed.settled {args : StoreArgs} (handed : Handed lib w p args)
    (inserted : InsertionOrdered lib.tableOrder) (small : fileCount p < 2 ^ 32) :
    args = settledArgs (p.shared w) p.conf p.scanned.dictBuilder := by
  cases handed with
  | stopped launched steps stopped => exact args_launched inserted launched small steps stopped

lemma BuildRun.handed (run : BuildRun lib.zstd lib.storeOrder lib.tableOrder (p.shared w) p.conf
    p.scanned.dictBuilder) :
    Handed lib w p (buildArgs lib.tableOrder (p.shared w) p.conf run.merging) := by
  rw [run.merged]
  exact .stopped run.launched run.steps run.stopped

/-- A build that ends with success leaves the image of what it hands to its store. -/
lemma BuildDb.image (builds : BuildDb lib w p files outcome files')
    (success : outcome.ending = .returned 0) (fits : FitsFor lib w p) :
    ∃ args built, Handed lib w p args ∧ Fits lib.zstd lib.storeOrder args ∧
      buildTables lib.zstd lib.storeOrder args (withDictOf lib.zstd args) = .ok built ∧
      files' p.conf.databasePath = .ok (imageParts lib.zstd args built).flatten := by
  obtain ⟨run, hfile⟩ := BuildDb.stores builds success
  have handed := BuildRun.handed run
  obtain ⟨built, hbuilt, himage⟩ := stored_image (fits _ handed) run.returned
  exact ⟨_, built, handed, fits _ handed, hbuilt, hfile.trans (congrArg Except.ok himage)⟩

lemma BuildDb.small (builds : BuildDb lib w p files outcome files')
    (success : outcome.ending = .returned 0) (fits : FitsFor lib w p) : fileCount p < 2 ^ 32 := by
  obtain ⟨run, -⟩ := BuildDb.stores builds success
  exact (BuildRun.handed run).small fits

/-- A file in which lookups end as in that of a complete build answers with the symbols of the
found files whose names have the trigrams of the query. -/
lemma readDb_answers (undoes : lib.zstd.Undoes) {conf : ConfigParser}
    (by_conf : PreparedBy w p conf) (fits : FitsFor lib w p)
    (run : BuildRun lib.zstd lib.storeOrder lib.tableOrder (p.shared w) p.conf
      p.scanned.dictBuilder)
    {q : Prepared} (ready : Ready q.options) (method : q.options.runningMethod = .readDb)
    {compareSymNames : StringComparator}
    (made : comparatorOf lib q.options = some compareSymNames) {later : Files}
    (alike : findSymbolReferences lib.zstd lib.countOrder lookupFuel q.conf
        (later q.conf.databasePath) q.options.symbol (ignoreEntry compareSymNames) =
      findSymbolReferences lib.zstd lib.countOrder lookupFuel q.conf (.ok run.after.file)
        q.options.symbol (ignoreEntry compareSymNames)) :
    ∃ found, (readDb lib q later).printed = outputOf found ∧
      found.Perm ((shownOfPaths w.contents (ignoreSymbol compareSymNames) (pathsFound p)).filter
        (fun shown => EmitsAll q.options.symbol shown.2.1)) := by
  have handed := BuildRun.handed run
  have nonempty : q.options.symbol ≠ [] :=
    ready.symbol (by rw [method]; exact RunningMethod.noConfusion)
  obtain ⟨found, hfound, hperm⟩ := lookup_shown undoes (by_conf.interned.closed w.contents) run
    (fits _ handed) q.conf lib.countOrder (by decide : 2 ^ 25 ≤ lookupFuel) compareSymNames
    nonempty
  have hprinted : (readDb lib q later).printed = outputOf (found.map shownReferenceOf) := by
    apply readDb_printed made
    rw [alike]
    exact hfound
  refine ⟨_, hprinted, ?_⟩
  have hpaths := flatMap_shownOf p.scanned w.contents (ignoreSymbol compareSymNames)
    (handed.small fits)
  rw [pathsFound, ← hpaths]
  exact hperm

/-- So does a database that a build left and that no later run rewrote. -/
lemma read_finds (undoes : lib.zstd.Undoes)
    (build : RunsAs lib .buildDb w argv p files outcome files')
    (success : outcome.ending = .returned 0) (fits : FitsFor lib w p)
    {others : List (Surroundings × List Bytes)} {later : Files}
    (session : Session lib files' others later)
    (keep : ∀ run ∈ others, ¬ Rewrites run.1 run.2 p.conf.databasePath)
    {q : Prepared} (ready : Ready q.options) (method : q.options.runningMethod = .readDb)
    (samePath : q.conf.databasePath = p.conf.databasePath)
    {compareSymNames : StringComparator}
    (made : comparatorOf lib q.options = some compareSymNames) :
    ∃ found, (readDb lib q later).printed = outputOf found ∧
      found.Perm ((shownOfPaths w.contents (ignoreSymbol compareSymNames) (pathsFound p)).filter
        (fun shown => EmitsAll q.options.symbol shown.2.1)) := by
  obtain ⟨conf, by_conf⟩ := prepare_ready build.prepared
  obtain ⟨body, rfl, builds⟩ := build.builds
  obtain ⟨run, hfile⟩ := BuildDb.stores builds success
  apply readDb_answers undoes by_conf fits run ready method made
  rw [samePath, session.files_other keep, hfile]

end Answers

section Sample

variable {contents : Bytes → ObjectFile}

lemma sample_fitsFor (parts : SmallParts contents) :
    FitsFor sampleLibraries (worldOf contents) (samplePrepared buildOptions) := by
  intro args handed
  have small : fileCount (samplePrepared buildOptions) < 2 ^ 32 := by decide +kernel
  rw [handed.settled insertion_ordered small]
  exact sample_fits parts

/-- A read that finds the database as it was left. -/
lemma sample_read (contents : Bytes → ObjectFile) (files : Files) :
    RunsAs sampleLibraries .readDb (worldOf contents) [text "symfind", text "main"]
      (samplePrepared readOptions) files
      ((readDb sampleLibraries (samplePrepared readOptions) files).behind []) files :=
  ⟨sample_read_prepared contents, rfl, _, rfl, .readDb rfl⟩

/-- A free run whose one thread prints everything. -/
lemma sample_free (files : Files) : ∃ free, RunsAs sampleLibraries .freeRun sampleWorld
    [text "symfind", text "-m", text "free_run", text "main"] (samplePrepared freeOptions) files
      free files ∧ free.ending = .returned 0 := by
  have interned : Interned (samplePrepared freeOptions).scanned :=
    scan_keeps interned_kept _ (interned_new (some DictionaryBuilder.new))
  obtain ⟨outputs, houtputs, -, -⟩ := @threadOutputs_eq
    ((samplePrepared freeOptions).shared sampleWorld)
    (ignoreSymbol (defaultStringComparator (text "main"))) (interned.closed oneSymbol)
    (by decide +kernel) 1 (Nat.le_refl 1)
  have counted : threadsFor sampleWorld (samplePrepared freeOptions) = some 1 := by decide +kernel
  have shown : FreeRun sampleLibraries sampleWorld (samplePrepared freeOptions)
      ⟨.returned 0, [.elapsedTime], outputs.flatten⟩ :=
    .shown counted (by decide) rfl houtputs (shuffles_flatten outputs)
  exact ⟨_, ⟨sample_free_prepared, rfl, _, rfl, .freeRun rfl shown⟩, rfl⟩

/-- A read behind the build prints something when a name that it shows has the trigrams. -/
lemma sample_prints (parts : SmallParts contents) {built : Outcome} {stored : Files}
    (build : RunsAs sampleLibraries .buildDb (worldOf contents)
      [text "symfind", text "-m", text "build_db"] (samplePrepared buildOptions) noFiles built
        stored)
    (success : built.ending = .returned 0) {options : ProgramOptions} (ready : Ready options)
    (method : options.runningMethod = .readDb) {compareSymNames : StringComparator}
    (made : comparatorOf sampleLibraries options = some compareSymNames)
    (some_name : (shownOfPaths contents (ignoreSymbol compareSymNames)
      (pathsFound (samplePrepared buildOptions))).filter
        (fun shown => EmitsAll options.symbol shown.2.1) ≠ []) :
    (readDb sampleLibraries (samplePrepared options) stored).printed ≠ [] := by
  obtain ⟨found, hread, hperm⟩ := @read_finds sampleLibraries _ _ _ _ _ _ Zstd.stored_undoes
    build success (sample_fitsFor parts) _ _ .nil nofun (samplePrepared options) ready method rfl
    _ made
  rw [hread]
  intro hnone
  obtain rfl : found = [] := by
    cases found with
    | nil => rfl
    | cons shown rest => cases hnone
  exact some_name hperm.nil_eq.symm

end Sample

section Agreement

variable {lib : Libraries} {w : Surroundings} {p : Prepared} {outcome : Outcome}

/-- What a free run prints, in any order of the insertions. -/
lemma freeRun_prints (runs : FreeRun lib w p outcome) (success : outcome.ending = .returned 0)
    (interned : Interned p.scanned) (small : fileCount p < 2 ^ 32) :
    ∃ compareSymNames, comparatorOf lib p.options = some compareSymNames ∧
      outcome.printed.Perm
        (outputOf (shownOfPaths w.contents (ignoreSymbol compareSymNames) (pathsFound p))) := by
  cases runs with
  | @shown threads compareSymNames outputs out counted some_thread made outputs_eq shuffles =>
    obtain ⟨outputs', houtputs, hperm, -⟩ := @threadOutputs_eq (p.shared w)
      (ignoreSymbol compareSymNames) (interned.closed w.contents) small _
      (Threading.one_le_toNat_iff.mpr some_thread)
    obtain rfl : outputs = outputs' := Except.ok.inj (outputs_eq.symm.trans houtputs)
    refine ⟨compareSymNames, made, ?_⟩
    rw [pathsFound, ← flatMap_shownOf p.scanned w.contents (ignoreSymbol compareSymNames) small]
    exact hperm out shuffles
  | cutShort counted some_thread made outputs_eq begins shuffles ends =>
    exact absurd success (CutShort.fails ends)
  | _ => cases success

/-- Everything shown under the default comparator has the name that is asked for. -/
lemma shownOfPaths_named {contents : Bytes → ObjectFile} {symbol : Bytes} {paths : List Bytes}
    {shown : Shown} (h : shown ∈ shownOfPaths contents
      (ignoreSymbol (defaultStringComparator symbol)) paths) : shown.2.1 = symbol := by
  obtain ⟨path, -, hpath⟩ := List.mem_flatMap.mp h
  rw [shownAt] at hpath
  rcases hfile : contents path with errMsg | syms
  · rw [hfile] at hpath
    cases hpath
  · rw [hfile] at hpath
    obtain ⟨sym, hsym, rfl⟩ := List.mem_map.mp hpath
    have hkept := (List.mem_filter.mp hsym).2
    rw [ignoreSymbol, Bool.not_not, filters_agree] at hkept
    exact ((onlyDefined_kept_iff symbol sym.name sym.metadata).mp hkept).1.symm

lemma filter_named {contents : Bytes → ObjectFile} {symbol : Bytes} {paths : List Bytes} :
    (shownOfPaths contents (ignoreSymbol (defaultStringComparator symbol)) paths).filter
        (fun shown => EmitsAll symbol shown.2.1) =
      shownOfPaths contents (ignoreSymbol (defaultStringComparator symbol)) paths := by
  rw [List.filter_eq_self]
  intro shown hshown
  rw [shownOfPaths_named hshown, decide_eq_true_eq]
  exact fun _ h => h

/-- A database answers like a search without one. Whatever lies between the build and the read, as
long as nothing rewrites the database, the read prints of what a free run in the surroundings of the
build prints the symbols whose names have the trigrams of the query, and all of it when the names
are compared for equality. -/
theorem read_agrees_with_free_run {lib : Libraries} (undoes : lib.zstd.Undoes)
    {w w' : Surroundings} {buildArgv readArgv freeArgv : List Bytes} {p q r : Prepared}
    {files stored later last any any' : Files} {built read free : Outcome}
    (build : RunsAs lib .buildDb w buildArgv p files built stored)
    (success : built.ending = .returned 0) (fits : FitsFor lib w p)
    {others : List (Surroundings × List Bytes)} (session : Session lib stored others later)
    (keep : ∀ run ∈ others, ¬ Rewrites run.1 run.2 p.conf.databasePath)
    (reading : RunsAs lib .readDb w' readArgv q later read last)
    (samePath : q.conf.databasePath = p.conf.databasePath)
    (searching : RunsAs lib .freeRun w freeArgv r any free any')
    (searched : free.ending = .returned 0) (wholeTree : r.options.scanRootPath = [])
    (sameSymbol : r.options.symbol = q.options.symbol)
    (sameType : r.options.searchType = q.options.searchType) :
    ∃ shown found, free.printed.Perm (outputOf shown) ∧ read.printed = outputOf found ∧
      found.Perm (shown.filter (fun s => EmitsAll q.options.symbol s.2.1)) ∧
      (q.options.searchType = .default → found.Perm shown) := by
  obtain ⟨conf, by_conf⟩ := prepare_ready build.prepared
  obtain ⟨conf', by_conf'⟩ := prepare_ready searching.prepared
  obtain ⟨_, ready⟩ := prepare_ready reading.prepared
  have hmethod : p.options.runningMethod ≠ .freeRun := by
    rw [build.method]
    exact RunningMethod.noConfusion
  obtain ⟨-, hscanned⟩ := by_conf.same by_conf' (by_conf.ready.scanRootPath hmethod) wholeTree
  obtain ⟨_, rfl, built_db⟩ := build.builds
  obtain ⟨body, rfl, runs⟩ := searching.searches
  have small : fileCount r < 2 ^ 32 := by
    rw [fileCount, ← hscanned]
    exact BuildDb.small built_db success fits
  obtain ⟨compareSymNames, made, hfree⟩ := freeRun_prints runs searched by_conf'.interned small
  have hmade : comparatorOf lib q.options = some compareSymNames := by
    rw [comparatorOf, ← sameSymbol, ← sameType]
    exact made
  obtain ⟨found, hread, hperm⟩ := read_finds undoes build success fits session keep ready.ready
    reading.method samePath hmade
  have hpaths : pathsFound r = pathsFound p := by rw [pathsFound, pathsFound, hscanned]
  rw [hpaths] at hfree
  refine ⟨_, found, hfree, ?_, hperm, fun hdefault => ?_⟩
  · rw [reading.reads]
    exact hread
  · have hexact : compareSymNames = defaultStringComparator q.options.symbol := by
      rw [comparatorOf, hdefault] at hmade
      exact (Option.some.inj hmade).symm
    rw [hexact, filter_named] at hperm
    rw [hexact]
    exact hperm

/-- A build, a read and a free run of the two files. -/
theorem read_agrees_with_free_run_sample : ∃ (stored : Files) (built read free : Outcome),
    RunsAs sampleLibraries .buildDb sampleWorld [text "symfind", text "-m", text "build_db"]
      (samplePrepared buildOptions) noFiles built stored ∧
    RunsAs sampleLibraries .readDb sampleWorld [text "symfind", text "main"]
      (samplePrepared readOptions) stored read stored ∧
    RunsAs sampleLibraries .freeRun sampleWorld
      [text "symfind", text "-m", text "free_run", text "main"] (samplePrepared freeOptions) stored
        free stored ∧
    read.printed ≠ [] ∧
    ∃ shown found, free.printed.Perm (outputOf shown) ∧ read.printed = outputOf found ∧
      found.Perm (shown.filter (fun s => EmitsAll (text "main") s.2.1)) ∧ found.Perm shown := by
  obtain ⟨built, stored, build, success, -⟩ := sample_build oneSymbol_small
  obtain ⟨free, searching, searched⟩ := sample_free stored
  have reading := sample_read oneSymbol stored
  have prints := sample_prints oneSymbol_small build success
    (prepare_ready reading.prepared).choose_spec.ready rfl rfl (by decide +kernel)
  obtain ⟨shown, found, hfree, hread, hperm, hall⟩ := read_agrees_with_free_run Zstd.stored_undoes
    build success (sample_fitsFor oneSymbol_small) .nil nofun reading rfl searching searched rfl rfl
    rfl
  exact ⟨stored, built, _, free, build, reading, searching, prints, shown, found, hfree, hread,
    hperm, hall rfl⟩

/-- The definitions of a symbol in the file under a path. -/
def definitionsOf (contents : Bytes → ObjectFile) (symbol path : Bytes) : List Shown :=
  match contents path with
  | .error _ => []
  | .ok syms => (syms.filter (fun sym => sym.name = symbol ∧ sym.metadata.isDefined = true)).map
      (fun sym => (path, symbol, sym.metadata))

lemma shownAt_definitions (contents : Bytes → ObjectFile) (symbol path : Bytes) :
    shownAt contents (ignoreSymbol (defaultStringComparator symbol)) path =
      definitionsOf contents symbol path := by
  rw [shownAt, definitionsOf]
  rcases contents path with errMsg | syms
  · rfl
  · have hkept : ∀ sym : SymbolEntry,
        (! ignoreSymbol (defaultStringComparator symbol) sym) =
          decide (sym.name = symbol ∧ sym.metadata.isDefined = true) := by
      intro sym
      rw [ignoreSymbol, Bool.not_not, filters_agree, Bool.eq_iff_iff, onlyDefined_kept_iff,
        decide_eq_true_eq, eq_comm (a := symbol)]
    simp only [hkept]
    apply List.map_congr_left
    intro sym hsym
    rw [(of_decide_eq_true (List.mem_filter.mp hsym).2).1]

/-- The files that a scan of a well-formed tree found, if they are no more than the numbers of the
cache. -/
lemma scan_lists {env : ScanEnv} {root : Root} {device : Device} (wf : WellFormedRoot root device)
    (off : env.conf.pruneBindMounts = false) (dictBuilder : Option DictionaryBuilder)
    (small : (scan env (.ok root) (.new dictBuilder)).2.foundFiles.length ≤ 2 ^ 32) :
    (foundPaths (scan env (.ok root) (.new dictBuilder))).Nodup ∧
      ∀ path, path ∈ foundPaths (scan env (.ok root) (.new dictBuilder)) ↔
        ∃ directory file, ListedFile env root device directory file ∧
          path = directory ++ file := by
  by_cases hroot : root.realPath ∈ env.conf.prunepaths
  · have hscan : scan env (.ok root) (.new dictBuilder) =
        (.returned true (.text []), .new dictBuilder) := by
      rw [scan, scanFs, pruneCheck_off off, getDirPath_short wf.short, if_pos hroot]
    rw [hscan]
    refine ⟨List.nodup_nil, fun path => iff_of_false List.not_mem_nil ?_⟩
    rintro ⟨directory, file, ⟨hnot, -⟩, -⟩
    exact hnot hroot
  · obtain ⟨-, hlisted⟩ := walk_lists device off wf.entries wf.short
    rw [scan_wellFormed wf off hroot] at small ⊢
    have hcount : (replay (events env root.realPath (some device) root.entries)
        (.new dictBuilder)).2.foundFiles.length =
          (foundOf (events env root.realPath (some device) root.entries)).length := by
      have hnames := congrArg List.length (storedFiles_names
        (foundOf (events env root.realPath (some device) root.entries)) [] StringCache.new)
      rw [List.length_map, List.length_append, List.length_map, List.length_map] at hnames
      have hfiles := congrArg Prod.fst (replay_files
        (events env root.realPath (some device) root.entries) (.new dictBuilder))
      exact (congrArg List.length hfiles).trans (hnames.trans (Nat.zero_add _))
    have few : ((foundOf (events env root.realPath (some device) root.entries)).map
        Prod.fst).length ≤ 2 ^ 32 := by
      rw [List.length_map, ← hcount]
      exact small
    have hpaths := replay_paths few
      (fun directory file h => List.mem_map_of_mem (f := Prod.fst) h) dictBuilder
    rw [hpaths]
    refine ⟨walk_paths_nodup device off wf.entries wf.short, fun path => ?_⟩
    rw [List.mem_map]
    constructor
    · rintro ⟨⟨directory, file⟩, hmem, rfl⟩
      exact ⟨directory, file, ⟨hroot, (hlisted _ _).mp hmem⟩, rfl⟩
    · rintro ⟨directory, file, ⟨-, hfile⟩, rfl⟩
      exact ⟨(directory, file), (hlisted _ _).mpr hfile, rfl⟩

/-- After a build over a well-formed tree, a later read for a symbol prints its definitions in the
listed files. -/
lemma reads_definitions {lib : Libraries} (undoes : lib.zstd.Undoes)
    {w w' : Surroundings} {buildArgv readArgv : List Bytes} {p q : Prepared}
    {files stored later last : Files} {built read : Outcome} {root : Root} {device : Device}
    (build : RunsAs lib .buildDb w buildArgv p files built stored)
    (success : built.ending = .returned 0) (fits : FitsFor lib w p)
    (opened : w.openRoot p.conf.databaseScanPath = .ok root) (wf : WellFormedRoot root device)
    (off : p.conf.pruneBindMounts = false)
    {others : List (Surroundings × List Bytes)} (session : Session lib stored others later)
    (keep : ∀ run ∈ others, ¬ Rewrites run.1 run.2 p.conf.databasePath)
    (reading : RunsAs lib .readDb w' readArgv q later read last)
    (samePath : q.conf.databasePath = p.conf.databasePath)
    (exactNames : q.options.searchType = .default) :
    ∃ (paths : List Bytes) (found : List Shown), paths.Nodup ∧
      (∀ path, path ∈ paths ↔ ∃ directory file,
        ListedFile ⟨p.conf, w.isBindMount p.conf, w.mounts⟩ root device directory file ∧
          path = directory ++ file) ∧
      read.printed = outputOf found ∧
      found.Perm (paths.flatMap (definitionsOf w.contents q.options.symbol)) := by
  obtain ⟨conf, by_conf⟩ := prepare_ready build.prepared
  obtain ⟨_, ready⟩ := prepare_ready reading.prepared
  obtain ⟨_, rfl, built_db⟩ := build.builds
  have small : fileCount p < 2 ^ 32 := BuildDb.small built_db success fits
  obtain ⟨errMsg, hscan⟩ := by_conf.scanned
  rw [scanTree, opened] at hscan
  have hpaths : foundPaths (scan ⟨p.conf, w.isBindMount p.conf, w.mounts⟩ (.ok root)
      (.new (some DictionaryBuilder.new))) = pathsFound p := by rw [hscan]; rfl
  obtain ⟨hnodup, hlisted⟩ := @scan_lists ⟨p.conf, w.isBindMount p.conf, w.mounts⟩ root device wf
    off (some DictionaryBuilder.new) (by rw [hscan]; exact Nat.le_of_lt small)
  rw [hpaths] at hnodup hlisted
  have hmade : comparatorOf lib q.options = some (defaultStringComparator q.options.symbol) := by
    rw [comparatorOf, exactNames]
    rfl
  obtain ⟨found, hread, hperm⟩ := read_finds undoes build success fits session keep ready.ready
    reading.method samePath hmade
  refine ⟨pathsFound p, found, hnodup, hlisted, ?_, ?_⟩
  · rw [reading.reads]
    exact hread
  · rw [filter_named, shownOfPaths, funext (shownAt_definitions w.contents _)] at hperm
    exact hperm

/-- From the symbol tables to the output. After a build over a well-formed tree of readable files, a
later read for a symbol prints its definitions in the symbol tables of the listed files, each once;
whatever was changed in the meantime, it is the tree of the build that is shown. -/
theorem read_prints_definitions {lib : Libraries} (undoes : lib.zstd.Undoes)
    {elfLibs : ElfFiles.Libraries} {answers : Bytes → ElfFiles.FileAnswers}
    (readable : ∀ path, ElfFiles.FileReadable elfLibs (answers path))
    {w w' : Surroundings}
    (parsed : w.contents = fun path => ElfFiles.objectFile elfLibs (answers path))
    {buildArgv readArgv : List Bytes} {p q : Prepared} {files stored later last : Files}
    {built read : Outcome} {root : Root} {device : Device}
    (build : RunsAs lib .buildDb w buildArgv p files built stored)
    (success : built.ending = .returned 0) (fits : FitsFor lib w p)
    (opened : w.openRoot p.conf.databaseScanPath = .ok root) (wf : WellFormedRoot root device)
    (off : p.conf.pruneBindMounts = false)
    {others : List (Surroundings × List Bytes)} (session : Session lib stored others later)
    (keep : ∀ run ∈ others, ¬ Rewrites run.1 run.2 p.conf.databasePath)
    (reading : RunsAs lib .readDb w' readArgv q later read last)
    (samePath : q.conf.databasePath = p.conf.databasePath)
    (exactNames : q.options.searchType = .default) :
    ∃ (paths : List Bytes) (found : List Shown), paths.Nodup ∧
      (∀ path, path ∈ paths ↔ ∃ directory file,
        ListedFile ⟨p.conf, w.isBindMount p.conf, w.mounts⟩ root device directory file ∧
          path = directory ++ file) ∧
      read.printed = outputOf found ∧
      found.Perm (paths.flatMap (definitionsOf
        (fun path => ElfEntries.fileEntries elfLibs (answers path)) q.options.symbol)) := by
  have hcontents : w.contents = fun path => ElfEntries.fileEntries elfLibs (answers path) := by
    rw [parsed]
    exact funext (fun path => ElfEntries.objectFile_entries (readable path))
  rw [← hcontents]
  exact reads_definitions undoes build success fits opened wf off session keep reading samePath
    exactNames

/-- Two archives with one object file each. -/
theorem read_prints_definitions_sample : ∃ (stored : Files) (built read : Outcome),
    RunsAs sampleLibraries .buildDb sampleWorld [text "symfind", text "-m", text "build_db"]
      (samplePrepared buildOptions) noFiles built stored ∧
    RunsAs sampleLibraries .readDb sampleWorld [text "symfind", text "main"]
      (samplePrepared readOptions) stored read stored ∧
    read.printed ≠ [] ∧
    ∃ (paths : List Bytes) (found : List Shown), paths.Nodup ∧ read.printed = outputOf found ∧
      found.Perm (paths.flatMap (definitionsOf
        (fun _ => ElfEntries.fileEntries ElfFiles.sampleLibraries ElfEntries.archiveFile)
        (text "main"))) := by
  obtain ⟨built, stored, build, success, -⟩ := sample_build oneSymbol_small
  have reading := sample_read oneSymbol stored
  have prints := sample_prints oneSymbol_small build success
    (prepare_ready reading.prepared).choose_spec.ready rfl rfl (by decide +kernel)
  have wf : WellFormedRoot twoObjects 1 :=
    ⟨rfl, by decide, ⟨by decide, by decide, fun h => absurd h (by decide),
      ⟨by decide, by decide, fun h => absurd h (by decide), trivial⟩⟩⟩
  have parsed : sampleWorld.contents = fun _ =>
      ElfFiles.objectFile ElfFiles.sampleLibraries ElfEntries.archiveFile := rfl
  obtain ⟨paths, found, hnodup, -, hread, hperm⟩ := read_prints_definitions Zstd.stored_undoes
    (fun _ => ElfEntries.archive_readable) parsed build success (sample_fitsFor oneSymbol_small)
    rfl wf rfl .nil nofun reading rfl rfl
  exact ⟨stored, built, _, build, reading, prints, paths, found, hnodup, hread, hperm⟩

/-- What is shown of a file has the name of one of its symbols. -/
lemma shownOfPaths_symbol {contents : Bytes → ObjectFile} {ignore : SymbolShouldBeIgnoredCallback}
    {paths : List Bytes} {shown : Shown} (h : shown ∈ shownOfPaths contents ignore paths) :
    ∃ path syms, contents path = .ok syms ∧ ∃ sym ∈ syms, shown.2.1 = sym.name := by
  obtain ⟨path, -, hpath⟩ := List.mem_flatMap.mp h
  rw [shownAt] at hpath
  rcases hfile : contents path with errMsg | syms
  · rw [hfile] at hpath
    cases hpath
  · rw [hfile] at hpath
    obtain ⟨sym, hsym, rfl⟩ := List.mem_map.mp hpath
    exact ⟨path, syms, hfile, sym, List.mem_of_mem_filter hsym, rfl⟩

/-- A read never gets further than the trigrams: whatever the search type, each symbol that it
prints begins and ends with the two letters of the query, in either case. A part of a name that a
free run finds with a regex is found in a database only if it has both ends. -/
theorem read_keeps_ends {lib : Libraries} (undoes : lib.zstd.Undoes)
    {w w' : Surroundings} {buildArgv readArgv : List Bytes} {p q : Prepared}
    {files stored later last : Files} {built read : Outcome}
    (build : RunsAs lib .buildDb w buildArgv p files built stored)
    (success : built.ending = .returned 0) (fits : FitsFor lib w p)
    (plainNames : ∀ path syms, w.contents path = .ok syms → ∀ sym ∈ syms, (0 : UInt8) ∉ sym.name)
    {others : List (Surroundings × List Bytes)} (session : Session lib stored others later)
    (keep : ∀ run ∈ others, ¬ Rewrites run.1 run.2 p.conf.databasePath)
    (reading : RunsAs lib .readDb w' readArgv q later read last)
    (samePath : q.conf.databasePath = p.conf.databasePath)
    (plainQuery : (0 : UInt8) ∉ q.options.symbol) :
    ∃ found, read.printed = outputOf found ∧
      ∀ shown ∈ found, TrigramEnds.SameEnds q.options.symbol shown.2.1 := by
  obtain ⟨_, ready⟩ := prepare_ready reading.prepared
  obtain ⟨compareSymNames, made⟩ := @comparator_made lib _ ready.ready
  obtain ⟨found, hread, hperm⟩ := read_finds undoes build success fits session keep ready.ready
    reading.method samePath made
  have nonempty : q.options.symbol ≠ [] :=
    ready.ready.symbol (by rw [reading.method]; exact RunningMethod.noConfusion)
  refine ⟨found, by rw [reading.reads]; exact hread, fun shown hshown => ?_⟩
  obtain ⟨hmem, hall⟩ := List.mem_filter.mp (hperm.mem_iff.mp hshown)
  obtain ⟨path, syms, hfile, sym, hsym, hname⟩ := shownOfPaths_symbol hmem
  have hemits : EmitsAll q.options.symbol shown.2.1 := by
    simpa only [decide_eq_true_eq] using hall
  have plainName : (0 : UInt8) ∉ shown.2.1 := by
    rw [hname]
    exact plainNames path syms hfile sym hsym
  exact TrigramEnds.ends_of_emits nonempty plainQuery plainName hemits

/-- In each file the regex `main` is found in both names. -/
def twoSymbols (_ : Bytes) : ObjectFile :=
  .ok [⟨text "main", ⟨true, .symtab, .func, .global, .default, 0⟩⟩,
    ⟨text "domain", ⟨true, .symtab, .func, .global, .default, 0⟩⟩]

lemma twoSymbols_small : SmallParts twoSymbols :=
  ⟨by decide +kernel, by decide +kernel, by decide +kernel, by decide +kernel, by decide +kernel,
    by decide +kernel⟩

def regexOptions : ProgramOptions := { readOptions with searchType := .regex }

/-- A regex search prints `main` and not `domain`. -/
theorem read_keeps_ends_sample : ∃ (stored : Files) (built read : Outcome),
    RunsAs sampleLibraries .buildDb (worldOf twoSymbols)
      [text "symfind", text "-m", text "build_db"] (samplePrepared buildOptions) noFiles built
        stored ∧
    RunsAs sampleLibraries .readDb (worldOf twoSymbols)
      [text "symfind", text "--search-type", text "regex", text "main"]
      (samplePrepared regexOptions) stored read stored ∧
    read.printed ≠ [] ∧
    ∃ found, read.printed = outputOf found ∧
      ∀ shown ∈ found, TrigramEnds.SameEnds (text "main") shown.2.1 := by
  obtain ⟨built, stored, build, success, -⟩ := sample_build twoSymbols_small
  have reading : RunsAs sampleLibraries .readDb (worldOf twoSymbols)
      [text "symfind", text "--search-type", text "regex", text "main"]
      (samplePrepared regexOptions) stored
      ((readDb sampleLibraries (samplePrepared regexOptions) stored).behind []) stored :=
    ⟨rfl, rfl, _, rfl, .readDb rfl⟩
  have prints := sample_prints twoSymbols_small build success
    (prepare_ready reading.prepared).choose_spec.ready rfl rfl (by decide +kernel)
  have plainNames : ∀ path syms, twoSymbols path = .ok syms →
      ∀ sym ∈ syms, (0 : UInt8) ∉ sym.name := by
    rintro path syms ⟨⟩
    decide
  obtain ⟨found, hread, hends⟩ := read_keeps_ends Zstd.stored_undoes build success
    (sample_fitsFor twoSymbols_small) plainNames .nil nofun reading rfl (by decide)
  exact ⟨stored, built, _, build, reading, prints, found, hread, hends⟩

end Agreement

end ReadAfterBuild
