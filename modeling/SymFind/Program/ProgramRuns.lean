import SymFind.Database.FailedTraining
import SymFind.Program.MainProgram

/-!
# What holds across runs of the program

Runs share nothing but the files. Only a build behind a successful scan writes
one, so what a build stored is still there when a later run reads it, whatever
other runs lie between the two.
-/
namespace ProgramRuns
open RecordCodec InsertionMap Machine SymbolData TrigramCodes Compression Config ConfigParsing
open StringComparators OptionParser CommandLines PathStrings PathCache TreeScan ScanSelection
open ElfParser Interleaving ParallelBuild SearchAgreement ThreadCount DatabaseLayout
open DatabaseWriting WritePlan DatabaseReading DatabaseRoundTrip SymbolLookup SymbolPrinting
open DatabaseBlocks (insertion_ordered refsBytes fileEntries pathEntries symbolEntries)
open TrigramTable (buildTrigramTables)
open FreeRunOutput Shuffle SearchPipeline ReproducibleBuild MainProgram

section Prepared

/-- The two values that the configuration can give to the database path. -/
def DatabasePath (path : Bytes) : Prop := path = ConfigParser.new.databasePath ∨ path = []

lemma storeConfig_databasePath {conf : ConfigParser} (h : DatabasePath conf.databasePath)
    (key value : Bytes) : DatabasePath (storeConfig conf key value).2.databasePath := by
  unfold storeConfig
  split
  · cases toBool value <;> exact h
  split
  · cases toBool value <;> exact h
  split
  · split
    · exact h
    · rename_i hempty
      exact Or.inr (not_not.mp hempty)
  split
  · split <;> exact h
  split
  · exact h
  split
  · exact h
  split <;> exact h

lemma storeItems_databasePath {conf : ConfigParser} (h : DatabasePath conf.databasePath)
    (items : List (Bytes × Bytes)) : DatabasePath (storeItems conf items).2.databasePath := by
  induction items generalizing conf with
  | nil => exact h
  | cons item rest ih =>
    have hone := storeConfig_databasePath h item.1 item.2
    rw [storeItems]
    revert hone
    rcases storeConfig conf item.1 item.2 with ⟨errMsg | ⟨⟩, conf'⟩
    · exact fun hone => hone
    · exact fun hone => ih hone

lemma parse_databasePath {parsed : Except Bytes JsonData} :
    DatabasePath (parse ConfigParser.new parsed).2.databasePath := by
  have start : DatabasePath ConfigParser.new.databasePath := Or.inl rfl
  cases parsed with
  | error errMsg => exact start
  | ok jsonData =>
    simp only [parse]
    cases validateConfig jsonData with
    | error errMsg => exact start
    | ok u =>
      have hitems := storeItems_databasePath start (stringItems jsonData)
      simp only [extractConfig]
      revert hitems
      rcases storeItems ConfigParser.new (stringItems jsonData) with ⟨errMsg | ⟨⟩, conf'⟩
      · exact fun hitems => hitems
      · exact fun hitems => hitems

/-- What is accepted without asking for help or the version can be run. -/
lemma parsed_ready {argv : List Bytes} {options : ProgramOptions} {messages : List Bytes}
    (accepted : parseArguments argv {} = .ok (options, messages)) (runs : options.Runs) :
    Ready options := by
  obtain ⟨options', hfold, hfinish⟩ := parseArguments_ok accepted
  have hknown : Known options' := known_kept ⟨by decide, by decide⟩ hfold
  by_cases hruns : options'.Runs
  · by_cases hmissing : options'.symbol = [] ∧ options'.runningMethod ≠ .buildDb
    · rw [finish_missing hruns hmissing] at hfinish
      cases hfinish
    · obtain ⟨_, hcompleted⟩ := finish_completed hruns hmissing
      rw [hcompleted] at hfinish
      cases hfinish
      exact completed_ready hknown hmissing
  · rw [finish_shown hruns] at hfinish
    cases hfinish
    exact absurd runs hruns

/-- Behind the scan: the options can be run, and the configuration that was read, with the scan path
of the options if there is one, led to the found files. Only the command line can have been warned
about. -/
structure PreparedBy (w : Surroundings) (p : Prepared) (conf : ConfigParser) : Prop where
  ready : Ready p.options
  parsed : ∃ parsed, w.configFile = .ok parsed ∧ parse ConfigParser.new parsed = (.ok (), conf)
  conf : p.conf = overrideScanPath p.options conf
  scanned : ∃ errMsg, scanTree w p.conf = (.returned true errMsg, p.scanned)
  warned : ∃ messages : List Bytes, p.warnings = messages.map Notice.commandLine

lemma prepareScan_ready {w : Surroundings} {options : ProgramOptions} {warnings : List Notice}
    {conf : ConfigParser} {p : Prepared} (h : prepareScan w options warnings conf = .ready p) :
    p.options = options ∧ p.warnings = warnings ∧ p.conf = conf ∧
      ∃ errMsg, scanTree w conf = (.returned true errMsg, p.scanned) := by
  rw [prepareScan] at h
  rcases hscan : scanTree w conf with ⟨⟨_ | _, errMsg⟩ | _ | fault, scanned⟩
  · rw [hscan] at h
    cases h
  · rw [hscan] at h
    cases h
    exact ⟨rfl, rfl, rfl, errMsg, rfl⟩
  · rw [hscan] at h
    cases h
  · rw [hscan] at h
    cases h

/-- Everything that a prepared run has passed. -/
lemma prepare_ready {w : Surroundings} {argv : List Bytes} {p : Prepared}
    (h : prepare w argv = .ready p) : ∃ conf, PreparedBy w p conf := by
  rw [prepare] at h
  rcases hparse : parseArguments argv {} with (message | fault) | ⟨options, messages⟩
  · rw [hparse] at h
    cases h
  · rw [hparse] at h
    cases h
  · simp only [hparse] at h
    split at h
    · cases h
    split at h
    · cases h
    rename_i hhelp hversion
    have hready := parsed_ready hparse
      ⟨Bool.not_eq_true _ ▸ hhelp, Bool.not_eq_true _ ▸ hversion⟩
    rcases hfile : w.configFile with errno | parsed
    · rw [hfile] at h
      cases h
    · simp only [hfile] at h
      rcases hconf : parse ConfigParser.new parsed with ⟨errMsg | ⟨⟩, conf⟩
      · rw [hconf] at h
        cases h
      · rw [hconf] at h
        obtain ⟨rfl, hwarnings, hp, hscan⟩ := prepareScan_ready h
        rw [← hp] at hscan
        exact ⟨conf, hready, ⟨parsed, hfile, hconf⟩, hp, hscan, messages, hwarnings⟩

variable {w : Surroundings} {p : Prepared} {conf : ConfigParser}

lemma overrideScanPath_databasePath (options : ProgramOptions) (conf : ConfigParser) :
    (overrideScanPath options conf).databasePath = conf.databasePath := by
  rw [overrideScanPath]
  split <;> rfl

lemma PreparedBy.databasePath (by_conf : PreparedBy w p conf) :
    DatabasePath p.conf.databasePath := by
  obtain ⟨parsed, -, hparse⟩ := by_conf.parsed
  have hpath := @parse_databasePath parsed
  rw [hparse] at hpath
  rw [by_conf.conf, overrideScanPath_databasePath]
  exact hpath

/-- Without a scan path among the options the configuration is the one that was read. -/
lemma PreparedBy.plain (by_conf : PreparedBy w p conf) (no_path : p.options.scanRootPath = []) :
    p.conf = conf := by
  rw [by_conf.conf, overrideScanPath, if_neg (not_not_intro no_path)]

/-- The block is that of the file, whatever scan path the options have. -/
lemma PreparedBy.confBlock (by_conf : PreparedBy w p conf) : p.conf.confBlock = conf.confBlock := by
  rw [by_conf.conf, overrideScanPath]
  split <;> rfl

lemma PreparedBy.interned (by_conf : PreparedBy w p conf) : Interned p.scanned := by
  obtain ⟨errMsg, hscan⟩ := by_conf.scanned
  have hkept := @scan_keeps Interned ⟨p.conf, w.isBindMount p.conf, w.mounts⟩ interned_kept
    (w.openRoot p.conf.databaseScanPath) _ (interned_new (some DictionaryBuilder.new))
  rw [scanTree] at hscan
  rw [hscan] at hkept
  exact hkept

/-- Two prepared runs of the same surroundings without scan paths found the same files. -/
lemma PreparedBy.same {q : Prepared} {conf' : ConfigParser} (by_conf : PreparedBy w p conf)
    (by_conf' : PreparedBy w q conf') (no_path : p.options.scanRootPath = [])
    (no_path' : q.options.scanRootPath = []) : p.conf = q.conf ∧ p.scanned = q.scanned := by
  obtain ⟨parsed, hfile, hparse⟩ := by_conf.parsed
  obtain ⟨parsed', hfile', hparse'⟩ := by_conf'.parsed
  obtain rfl : parsed = parsed' := Except.ok.inj (hfile.symm.trans hfile')
  have hconf : conf = conf' := congrArg Prod.snd (hparse.symm.trans hparse')
  have hsame : p.conf = q.conf := by rw [by_conf.plain no_path, by_conf'.plain no_path', hconf]
  obtain ⟨errMsg, hscan⟩ := by_conf.scanned
  obtain ⟨errMsg', hscan'⟩ := by_conf'.scanned
  rw [hsame] at hscan
  exact ⟨hsame, congrArg Prod.snd (hscan.symm.trans hscan')⟩

end Prepared

section Files

variable {lib : Libraries}

/-- A build opens its database when the builder is made and when it is stored. -/
def Opens (w : Surroundings) (path : Bytes) : Prop :=
  w.openExisting path = .ok () ∨ w.openDatabase path = .ok ()

/-- A prepared run with the method that builds a database under a path that can be opened. -/
def Rewrites (w : Surroundings) (argv : List Bytes) (path : Bytes) : Prop :=
  ∃ p, prepare w argv = .ready p ∧ p.options.runningMethod = .buildDb ∧
    p.conf.databasePath = path ∧ Opens w path

lemma rewritten_other {files : Files} {path other : Bytes} {opened : Except Nat Unit}
    {file : Bytes} (h : ¬ (other = path ∧ opened = .ok ())) :
    rewritten files path opened file other = files other := by
  rcases opened with errno | ⟨⟩
  · rfl
  · exact if_neg (fun hpath => h ⟨hpath, rfl⟩)

lemma rewritten_self (files : Files) (path file : Bytes) :
    rewritten files path (.ok ()) file path = .ok file := if_pos rfl

lemma openedFiles_other {w : Surroundings} {p : Prepared} {files : Files} {other : Bytes}
    (h : ¬ (p.conf.databasePath = other ∧ Opens w other)) :
    openedFiles w p files other = files other := by
  apply rewritten_other
  rintro ⟨rfl, hopened⟩
  exact h ⟨rfl, .inl hopened⟩

lemma BuildDb.files_other {w : Surroundings} {p : Prepared} {files files' : Files}
    {outcome : Outcome} (builds : BuildDb lib w p files outcome files') {other : Bytes}
    (h : ¬ (p.conf.databasePath = other ∧ Opens w other)) : files' other = files other := by
  cases builds with
  | stored counted launched steps stopped sound merged runs =>
    refine (rewritten_other ?_).trans (openedFiles_other h)
    rintro ⟨rfl, hopened⟩
    exact h ⟨rfl, .inr hopened⟩
  | _ => exact openedFiles_other h

/-- A run leaves every file that it does not rewrite. -/
lemma MainRun.files_other {w : Surroundings} {argv : List Bytes} {files files' : Files}
    {outcome : Outcome} (run : MainRun lib w argv files outcome files') {path : Bytes}
    (keeps : ¬ Rewrites w argv path) : files' path = files path := by
  cases run with
  | ended prepared => rfl
  | killed said printed => rfl
  | ready prepared run =>
    cases run with
    | buildDb method builds =>
      exact BuildDb.files_other builds (fun h => keeps ⟨_, prepared, method, h.1, h.2⟩)
    | _ => rfl

/-- Runs of the program one after the other, each in surroundings of its own. -/
inductive Session (lib : Libraries) : Files → List (Surroundings × List Bytes) → Files → Prop
  | nil {files : Files} : Session lib files [] files
  | cons {w : Surroundings} {argv : List Bytes} {runs : List (Surroundings × List Bytes)}
      {files between files' : Files} {outcome : Outcome}
      (run : MainRun lib w argv files outcome between) (later : Session lib between runs files') :
      Session lib files ((w, argv) :: runs) files'

/-- A session leaves every file that none of its runs rewrites. -/
lemma Session.files_other {runs : List (Surroundings × List Bytes)} {files files' : Files}
    (session : Session lib files runs files') {path : Bytes}
    (keep : ∀ run ∈ runs, ¬ Rewrites run.1 run.2 path) : files' path = files path := by
  induction session with
  | nil => rfl
  | cons run later ih =>
    rw [ih (fun r hr => keep r (List.mem_cons_of_mem _ hr))]
    exact MainRun.files_other run (keep _ List.mem_cons_self)

end Files

section Methods

variable {lib : Libraries} {w : Surroundings} {argv : List Bytes} {p : Prepared}
  {files files' : Files} {outcome : Outcome}

/-- A run that got through its scan and went on with a method. -/
structure RunsAs (lib : Libraries) (method : RunningMethod) (w : Surroundings)
    (argv : List Bytes) (p : Prepared) (files : Files) (outcome : Outcome) (files' : Files) :
    Prop where
  prepared : prepare w argv = .ready p
  method : p.options.runningMethod = method
  goes_on : ∃ body, outcome = Outcome.behind body p.warnings ∧ MethodRun lib w p files body files'

lemma RunsAs.mainRun {method : RunningMethod}
    (runs : RunsAs lib method w argv p files outcome files') :
    MainRun lib w argv files outcome files' := by
  obtain ⟨body, rfl, run⟩ := runs.goes_on
  exact .ready runs.prepared run

lemma RunsAs.builds (runs : RunsAs lib .buildDb w argv p files outcome files') : ∃ body,
    outcome = Outcome.behind body p.warnings ∧ BuildDb lib w p files body files' := by
  obtain ⟨body, rfl, run⟩ := runs.goes_on
  cases run with
  | buildDb method builds => exact ⟨body, rfl, builds⟩
  | _ method =>
    rw [runs.method] at method
    cases method

lemma RunsAs.reads (runs : RunsAs lib .readDb w argv p files outcome files') :
    outcome = (readDb lib p files).behind p.warnings := by
  obtain ⟨body, rfl, run⟩ := runs.goes_on
  cases run with
  | readDb method => rfl
  | _ method =>
    rw [runs.method] at method
    cases method

lemma RunsAs.searches (runs : RunsAs lib .freeRun w argv p files outcome files') : ∃ body,
    outcome = Outcome.behind body p.warnings ∧ FreeRun lib w p body := by
  obtain ⟨body, rfl, run⟩ := runs.goes_on
  cases run with
  | freeRun method shows => exact ⟨body, rfl, shows⟩
  | _ method =>
    rw [runs.method] at method
    cases method

end Methods

section Sample

def sampleLibraries : Libraries :=
  ⟨literalEngines, Zstd.stored, IterationOrder.insertion _, IterationOrder.insertion _,
    IterationOrder.insertion _⟩

/-- Two object files with any contents, an empty configuration and four processors. -/
def worldOf (contents : Bytes → ObjectFile) : Surroundings where
  configFile := .ok (.ok (.object []))
  isBindMount _ _ := false
  mounts := some []
  openRoot path := if path = text "/" then .ok twoObjects else .error 2
  contents := contents
  parserEnds _ := none
  hardwareConcurrency := 4
  openExisting _ := .ok ()
  openDatabase _ := .ok ()

def sampleWorld : Surroundings := worldOf oneSymbol

def sampleConf : ConfigParser := (parse ConfigParser.new (.ok (.object []))).2

def samplePrepared (options : ProgramOptions) : Prepared :=
  ⟨options, [], sampleConf, (scanTree sampleWorld sampleConf).2⟩

def buildOptions : ProgramOptions :=
  { runningMethod := .buildDb, searchType := .default, visibility := .onlyDefined }

def readOptions : ProgramOptions :=
  { runningMethod := .readDb, searchType := .default, visibility := .onlyDefined
    symbol := text "main" }

def freeOptions : ProgramOptions := { readOptions with runningMethod := .freeRun }

lemma sample_build_prepared (contents : Bytes → ObjectFile) :
    prepare (worldOf contents) [text "symfind", text "-m", text "build_db"] =
      .ready (samplePrepared buildOptions) := by
  rfl

lemma sample_read_prepared (contents : Bytes → ObjectFile) :
    prepare (worldOf contents) [text "symfind", text "main"] =
      .ready (samplePrepared readOptions) := by
  rfl

lemma sample_free_prepared :
    prepare sampleWorld [text "symfind", text "-m", text "free_run", text "main"] =
      .ready (samplePrepared freeOptions) := by
  rfl

/-- With a kernel that stores whole buffers a run completes when its tables can be built. -/
lemma storeDb_completes {z : Zstd} {order : IterationOrder (TrigramCode × List UInt32)}
    {args : StoreArgs} {built : BuiltTables}
    (hbuilt : buildTables z order args (withDictOf z args) = .ok built)
    (fits : (storedParts z args built).flatten.length < 2 ^ 32) (file : Bytes) :
    ∃ pending after, Writing.on (storeDb z order (.ok ()) args) ⟨file, pending, 0⟩ =
      (.ok (), after) := by
  obtain ⟨rest, hall⟩ := FailedTraining.acceptAll_whole
    (Nat.le_refl (runLengths z args built).sum) (Nat.le_refl (runLengths z args built).length)
  obtain ⟨pending, hpending⟩ : ∃ pending, pending = List.replicate
    (runLengths z args built).length (PwriteOutcome.stored (runLengths z args built).sum) :=
      ⟨_, rfl⟩
  rw [← hpending] at hall
  have outcome := storeDb_built z order args hbuilt fits ⟨file, pending, 0⟩
  rcases hrun : Writing.on (storeDb z order (.ok ()) args) ⟨file, pending, 0⟩ with ⟨r, after⟩
  rw [hrun] at outcome
  exact ⟨pending, after, hrun.trans (congrArg (·, after) (outcome.goes_on rest hall).1)⟩

/-- What a build of the two files stores. -/
def sampleStoreArgs (contents : Bytes → ObjectFile) : StoreArgs :=
  settledArgs ((samplePrepared buildOptions).shared (worldOf contents)) sampleConf
    (samplePrepared buildOptions).scanned.dictBuilder

/-- The parts of a database of the two files that depend on what they contain are small. -/
structure SmallParts (contents : Bytes → ObjectFile) : Prop where
  symbolIndex : (symbolIndexCodec.encodeAll
    (symbolEntries (sampleStoreArgs contents).symtable.entries)).length < 2 ^ 32
  symbolNames : ((sampleStoreArgs contents).symtable.entries.map Prod.fst).flatten.length < 2 ^ 32
  symbolMetadata : ((sampleStoreArgs contents).symtable.entries.map
    refsBytes).flatten.length < 2 ^ 32
  postings : ∀ t, buildTrigramTables (IterationOrder.insertion _)
    (sampleStoreArgs contents).symtable.keys = .ok t → 4 * t.postings.length < 2 ^ 32
  dictionary : (sampleStoreArgs contents).dictBuilder.map DictionaryBuilder.maxDictionarySize =
    some (128 * 1024)
  blocks : (buildTables Zstd.stored (IterationOrder.insertion _) (sampleStoreArgs contents)
    (some ())).toOption.any (fun built =>
      decide ((blockParts built).flatten.length < 2 ^ 30)) = true

variable {contents : Bytes → ObjectFile}

/-- The buffer of the training, which so few samples are too few for, is stored whole. -/
lemma sample_dictionary (small : SmallParts contents) :
    withDictOf Zstd.stored (sampleStoreArgs contents) = some () ∧
      (dictionaryOf Zstd.stored (sampleStoreArgs contents)).length = 128 * 1024 := by
  obtain ⟨b, hb, hsize⟩ := Option.map_eq_some_iff.mp small.dictionary
  rw [dictionaryOf, withDictOf, hb, ← hsize]
  exact ⟨rfl, FailedTraining.train_failed_length FailedTraining.stored_inPlace
    (FailedTraining.stored_fails b)⟩

lemma sample_tables (small : SmallParts contents) :
    ∃ built, buildTables Zstd.stored (IterationOrder.insertion _) (sampleStoreArgs contents)
        (withDictOf Zstd.stored (sampleStoreArgs contents)) = .ok built ∧
      (storedParts Zstd.stored (sampleStoreArgs contents) built).flatten.length < 2 ^ 32 := by
  obtain ⟨hwithDict, hdictionary⟩ := sample_dictionary small
  have hblocks := small.blocks
  rw [hwithDict]
  cases hbuilt : buildTables Zstd.stored (IterationOrder.insertion _) (sampleStoreArgs contents)
      (some ()) with
  | error halt =>
    rw [hbuilt] at hblocks
    cases hblocks
  | ok built =>
    rw [hbuilt, Except.toOption, Option.any_some, decide_eq_true_eq] at hblocks
    refine ⟨built, hbuilt, ?_⟩
    have hconf : (sampleStoreArgs contents).conf.confBlock.length < 2 ^ 10 := by
      change sampleConf.confBlock.length < 2 ^ 10
      decide +kernel
    rw [storedParts_length, lead_length, databaseHeaderCodec_width, hdictionary]
    omega

lemma sample_fits (small : SmallParts contents) :
    Fits Zstd.stored (IterationOrder.insertion _) (sampleStoreArgs contents) := by
  obtain ⟨built, hbuilt, hfits⟩ := sample_tables small
  refine ⟨fun built' hbuilt' => ?_, ?_, ?_, ?_, ?_, small.symbolIndex, small.symbolNames,
    small.symbolMetadata, small.postings⟩
  · obtain rfl : built = built' := Except.ok.inj (hbuilt.symm.trans hbuilt')
    exact hfits
  -- the other parts are those of the scan
  · change (fileTableCodec.encodeAll (fileEntries
      (samplePrepared buildOptions).scanned.foundFiles)).length < 2 ^ 32
    decide +kernel
  · change ((samplePrepared buildOptions).scanned.foundFiles.map
      FileInfo.name).flatten.length < 2 ^ 32
    decide +kernel
  · change (pathIndexCodec.encodeAll (pathEntries
      (samplePrepared buildOptions).scanned.cache.idToStr)).length < 2 ^ 32
    decide +kernel
  · change (samplePrepared buildOptions).scanned.cache.idToStr.flatten.length < 2 ^ 32
    decide +kernel

lemma oneSymbol_small : SmallParts oneSymbol :=
  ⟨by decide +kernel, by decide +kernel, by decide +kernel, by decide +kernel, by decide +kernel,
    by decide +kernel⟩

/-- No file is there yet. -/
def noFiles : Files := fun _ => .error 2

/-- Some build of the two files ends with success. -/
lemma sample_build (parts : SmallParts contents) : ∃ built stored,
    RunsAs sampleLibraries .buildDb (worldOf contents)
      [text "symfind", text "-m", text "build_db"] (samplePrepared buildOptions) noFiles built
        stored ∧ built.ending = .returned 0 ∧
          stored (samplePrepared buildOptions).conf.databasePath ≠ .error 2 := by
  obtain ⟨shared, hshared⟩ : ∃ shared,
    shared = (samplePrepared buildOptions).shared (worldOf contents) := ⟨_, rfl⟩
  have hcount : shared.foundFiles.length = 2 := by
    have hfound : (samplePrepared buildOptions).scanned.foundFiles.length = 2 := by decide +kernel
    rw [hshared]
    exact hfound
  obtain ⟨joined, steps, stopped⟩ := exists_stopped (@worker_lowers shared)
    ((Threading.computeFileIdChunks shared.foundFiles.length 1).map Worker.start)
  have small : shared.foundFiles.length < 2 ^ 32 := by
    rw [hcount]
    decide
  have hargs := @args_settled sampleLibraries.tableOrder shared sampleConf
    (samplePrepared buildOptions).scanned.dictBuilder insertion_ordered _ (Nat.le_refl 1) small _
    steps stopped
  have sound := (joined_symtables (chunk_ids (Nat.le_refl 1) small) steps stopped).1
  obtain ⟨tables, htables, hfits⟩ := sample_tables parts
  obtain ⟨pending, after, hrun⟩ := storeDb_completes htables hfits []
  subst hshared
  have counted : threadsFor (worldOf contents) (samplePrepared buildOptions) = some 1 := by
    change threadsFor sampleWorld (samplePrepared buildOptions) = some 1
    decide +kernel
  have stores := hrun
  rw [sampleStoreArgs, ← hargs] at stores
  have builds : BuildDb sampleLibraries (worldOf contents) (samplePrepared buildOptions) noFiles
      (storeOutcome (.ok ())) (rewritten (openedFiles (worldOf contents)
        (samplePrepared buildOptions) noFiles) sampleConf.databasePath (.ok ()) after.file) :=
    .stored counted rfl steps stopped sound rfl stores
  refine ⟨_, _, ⟨sample_build_prepared contents, rfl, _, rfl, .buildDb rfl builds⟩, rfl, ?_⟩
  intro hmissing
  cases (rewritten_self _ sampleConf.databasePath after.file).symm.trans hmissing

end Sample

section Changes

/-- In any session, whatever the command lines, the configurations and the trees, only the default
database and the file with the empty name can change, and each only by a build behind a successful
scan that could open it. -/
theorem session_changes {runs : List (Surroundings × List Bytes)} {files files' : Files}
    (session : Session lib files runs files') {path : Bytes} (changed : files' path ≠ files path) :
    (path = ConfigParser.new.databasePath ∨ path = []) ∧
      ∃ run ∈ runs, Rewrites run.1 run.2 path := by
  have hrun : ∃ run ∈ runs, Rewrites run.1 run.2 path := by
    by_contra hnone
    exact changed (session.files_other (fun run hrun h => hnone ⟨run, hrun, h⟩))
  refine ⟨?_, hrun⟩
  obtain ⟨run, -, p, prepared, -, rfl, -⟩ := hrun
  obtain ⟨conf, by_conf⟩ := prepare_ready prepared
  exact by_conf.databasePath

/-- The build changes the default database. -/
theorem session_changes_sample : ∃ files,
    Session sampleLibraries noFiles [(sampleWorld, [text "symfind", text "-m", text "build_db"])]
      files ∧
    ∃ run ∈ [(sampleWorld, [text "symfind", text "-m", text "build_db"])],
      Rewrites run.1 run.2 ConfigParser.new.databasePath := by
  obtain ⟨built, stored, build, -, changed⟩ := sample_build oneSymbol_small
  have session : Session sampleLibraries noFiles _ stored := .cons build.mainRun .nil
  exact ⟨stored, session, (session_changes session changed).2⟩

end Changes

end ProgramRuns
