import SymFind.Build.ReproducibleBuild
import SymFind.Build.ThreadCount
import SymFind.Config.CommandLines
import SymFind.Config.ConfigParsing
import SymFind.Database.ConfigBlock
import SymFind.Elf.ElfFiles
import SymFind.Program.FreeRunOutput

/-!
# The program from its arguments to its exit

`main` reads the command line and the configuration, scans the tree whatever
the method is, and then builds a database, reads one, or searches the found
files. Between two runs only the files of the disk remain.
-/
namespace MainProgram
open RecordCodec InsertionMap Machine SymbolData TrigramCodes Compression Config ConfigParsing
open StringComparators OptionParser CommandLines PathStrings PathCache TreeScan ElfParser
open ElfFiles (ProcessEnd)
open Interleaving ParallelBuild SearchAgreement ThreadCount DatabaseLayout DatabaseWriting
open DatabaseBlocks (SymbolRefs iterated)
open WritePlan DatabaseReading ConfigBlock SymbolPrinting FreeRunOutput Shuffle SearchPipeline

section Surroundings

/-- The libraries that the program calls, and how its unordered containers are iterated. -/
structure Libraries where
  engines : Engines
  zstd : Zstd
  storeOrder : IterationOrder (TrigramCode × List UInt32)
  tableOrder : IterationOrder (SymbolName × SymbolRefs)
  countOrder : IterationOrder (UInt32 × UInt32)

/-- What a run finds around it. An error number stands for a file that cannot be opened. -/
structure Surroundings where
  configFile : Except Nat (Except Bytes JsonData)
  isBindMount : ConfigParser → Bytes → Bool
  mounts : MountTable
  openRoot : Bytes → Except Nat Root
  contents : Bytes → ObjectFile
  /-- How the parser may end the process at a file, for which it then does not get to report. -/
  parserEnds : Bytes → Option ProcessEnd
  hardwareConcurrency : UInt32
  /-- Opening a database for writing when its builder is made. -/
  openExisting : Bytes → Except Nat Unit
  /-- Opening it again to store it. -/
  openDatabase : Bytes → Except Nat Unit

/-- The files that remain between two runs. -/
abbrev Files := Bytes → Except Nat Bytes

inductive Ending where
  | returned (status : Nat)
  /-- `exit(EXIT_FAILURE)` below `main`. -/
  | exited
  | crashed (fault : Fault)
  /-- A division by zero. -/
  | trapped
  /-- By a signal, or by the thread that polls the mounts, which exits when that fails. -/
  | died
  deriving DecidableEq

/-- What is said besides the symbols. -/
inductive Notice where
  | help
  | version
  | commandLine (message : Bytes)
  | configurationUnreadable (errno : Nat)
  | configurationFailed (errMsg : Bytes)
  | scanFailed (errMsg : ScanMessage)
  | threadListNotReserved
  /-- Without a message of its own, the 1024 NULs that `main` starts with. -/
  | buildFailed (errMsg : Option DbError)
  | databaseCreated
  /-- Since the database was built. -/
  | configurationChanged
  | lookupFailed (errMsg : DbError)
  | elapsedTime
  deriving DecidableEq

/-- How a run ends, what it says, and the insertions that print symbols. -/
structure Outcome where
  ending : Ending
  notices : List Notice
  printed : List Bytes
  deriving DecidableEq

def Outcome.behind (outcome : Outcome) (notices : List Notice) : Outcome :=
  { outcome with notices := notices ++ outcome.notices }

end Surroundings

section Preparation

/-- What all methods start from. -/
structure Prepared where
  options : ProgramOptions
  warnings : List Notice
  conf : ConfigParser
  scanned : ScanState

inductive Preparation where
  | ended (outcome : Outcome)
  | ready (prepared : Prepared)

def overrideScanPath (options : ProgramOptions) (conf : ConfigParser) : ConfigParser :=
  if options.scanRootPath ≠ [] then { conf with databaseScanPath := options.scanRootPath } else conf

def scanTree (w : Surroundings) (conf : ConfigParser) : ScanOutcome × ScanState :=
  scan ⟨conf, w.isBindMount conf, w.mounts⟩ (w.openRoot conf.databaseScanPath)
    (.new (some DictionaryBuilder.new))

/-- The scan, with the configuration that it starts from. -/
def prepareScan (w : Surroundings) (options : ProgramOptions) (warnings : List Notice)
    (conf : ConfigParser) : Preparation :=
  match scanTree w conf with
  | (.returned true _, scanned) => .ready ⟨options, warnings, conf, scanned⟩
  | (.returned false errMsg, _) => .ended ⟨.returned 1, warnings ++ [.scanFailed errMsg], []⟩
  | (.exited, _) => .ended ⟨.exited, warnings, []⟩
  | (.crashed fault, _) => .ended ⟨.crashed fault, warnings, []⟩

/-- `main` up to the choice of the method. -/
def prepare (w : Surroundings) (argv : List Bytes) : Preparation :=
  match parseArguments argv {} with
  | .error (.rejected message) => .ended ⟨.returned 1, [.commandLine message, .help], []⟩
  | .error (.fault fault) => .ended ⟨.crashed fault, [], []⟩
  | .ok (options, messages) =>
    let warnings := messages.map Notice.commandLine
    if options.printHelp then .ended ⟨.returned 0, warnings ++ [.help], []⟩
    else if options.showVersion then .ended ⟨.returned 0, warnings ++ [.version], []⟩
    else
      match w.configFile with
      | .error errno => .ended ⟨.exited, warnings ++ [.configurationUnreadable errno], []⟩
      | .ok parsed =>
        match parse ConfigParser.new parsed with
        | (.error errMsg, _) =>
          .ended ⟨.returned 1, warnings ++ [.configurationFailed errMsg], []⟩
        | (.ok (), conf) => prepareScan w options warnings (overrideScanPath options conf)

/-- The found files of a prepared run. -/
def Prepared.shared (p : Prepared) (w : Surroundings) : Shared := sharedOf p.scanned w.contents

end Preparation

section Methods

def fileCount (p : Prepared) : Nat := p.scanned.foundFiles.length

def threadsFor (w : Surroundings) (p : Prepared) : Option UInt16 :=
  getProperThreadCountToProcessList w.hardwareConcurrency (UInt64.ofNat (fileCount p))

def storeOutcome : Except Halt Unit → Outcome
  | .ok () => ⟨.returned 0, [.databaseCreated, .elapsedTime], []⟩
  | .error .died => ⟨.died, [], []⟩
  | .error (.crashed fault) => ⟨.crashed fault, [], []⟩
  | .error (.failed errMsg) => ⟨.returned 1, [.buildFailed errMsg], []⟩

/-- A file that was opened for writing has the bytes that were stored. -/
def rewritten (files : Files) (path : Bytes) (opened : Except Nat Unit) (file : Bytes) : Files :=
  match opened with
  | .ok () => fun other => if other = path then .ok file else files other
  | .error _ => files

def bytesOf : Except Nat Bytes → Bytes
  | .ok bytes => bytes
  | .error _ => []

/-- The files once the builder is made, whose constructor opens the database for writing. -/
def openedFiles (w : Surroundings) (p : Prepared) (files : Files) : Files :=
  rewritten files p.conf.databasePath (w.openExisting p.conf.databasePath) []

def endingOf : ProcessEnd → Ending
  | .divideByZero => .trapped
  | .crashed fault => .crashed fault
  | .exited _ => .exited

/-- How a run may end while its threads read the found files. -/
inductive CutShort (w : Surroundings) (p : Prepared) : Ending → Prop
  | killed : CutShort w p .died
  | parser {fileInfo : FileInfo} {stop : ProcessEnd} (found : fileInfo ∈ p.scanned.foundFiles)
      (ends : w.parserEnds (getFileInfoFullPath p.scanned.cache fileInfo) = some stop) :
      CutShort w p (endingOf stop)

/-- The builder's constructor, `DatabaseBuilder::build` and what `main` says of it, for any order of
the workers' steps and any answers of the kernel to the writes. -/
inductive BuildDb (lib : Libraries) (w : Surroundings) (p : Prepared) (files : Files) :
    Outcome → Files → Prop
  | trapped (unknown : threadsFor w p = none) :
      BuildDb lib w p files ⟨.trapped, [], []⟩ (openedFiles w p files)
  | unreserved (counted : threadsFor w p = some 0) :
      BuildDb lib w p files ⟨.exited, [.threadListNotReserved], []⟩ (openedFiles w p files)
  | cutShort {threads : UInt16} {ending : Ending} (counted : threadsFor w p = some threads)
      (some_thread : threads ≠ 0) (ends : CutShort w p ending) :
      BuildDb lib w p files ⟨ending, [], []⟩ (openedFiles w p files)
  | faulted {threads : UInt16} {workers working : List Worker} {worker : Worker} {fault : Fault}
      (counted : threadsFor w p = some threads)
      (launched : launchThreads (fileCount p) threads.toNat = some workers)
      (steps : Steps (Worker.next (p.shared w)) workers working) (works : worker ∈ working)
      (faults : worker.fault = some fault) :
      BuildDb lib w p files ⟨.crashed fault, [], []⟩ (openedFiles w p files)
  | stored {threads : UInt16} {workers joined : List Worker} {merging : Merging}
      {pending : List PwriteOutcome} {errno : Nat} {result : Except Halt Unit} {after : Disk}
      (counted : threadsFor w p = some threads)
      (launched : launchThreads (fileCount p) threads.toNat = some workers)
      (steps : Steps (Worker.next (p.shared w)) workers joined)
      (stopped : Stopped (Worker.next (p.shared w)) joined)
      (sound : ∀ worker ∈ joined, worker.fault = none)
      (merged : merging = mergeSymtables ((joined.map Worker.symtable).map
        (iterated lib.tableOrder)) ⟨Map.empty, p.scanned.dictBuilder, 0⟩)
      (runs : Writing.on (storeDb lib.zstd lib.storeOrder (w.openDatabase p.conf.databasePath)
          (buildArgs lib.tableOrder (p.shared w) p.conf merging))
        ⟨bytesOf (openedFiles w p files p.conf.databasePath), pending, errno⟩ = (result, after)) :
      BuildDb lib w p files (storeOutcome result)
        (rewritten (openedFiles w p files) p.conf.databasePath
          (w.openDatabase p.conf.databasePath) after.file)

/-- As many passes as there are slots of a 32-bit index, and one more: a walk that has not left its
loop by then never does. -/
def lookupFuel : Nat := 2 ^ 32 + 1

def printSymbolLookupResults (results : List SymbolLookupResult) : List Bytes :=
  results.flatMap (fun res =>
    res.references.flatMap (fun ref => insertions ref.fullPath res.symbolName ref.metadata))

/-- The comparator for the symbol of the command line. -/
def comparatorOf (lib : Libraries) (options : ProgramOptions) : Option StringComparator :=
  makeStringComparator lib.engines options.searchType options.symbol

/-- What `read_conf_block` says, before any block is decompressed. -/
def confNotices (conf : ConfigParser) (file : Except Nat Bytes) : List Notice :=
  let reported : Reading Bool := do
    let data ← mappedFileOpen conf.databasePath file
    let dbHdr ← readHeader data
    readConfBlock data dbHdr conf
  match reported with
  | .ok true => [.configurationChanged]
  | _ => []

/-- The lookup in the database and the printing. -/
def readDb (lib : Libraries) (p : Prepared) (files : Files) : Outcome :=
  match comparatorOf lib p.options with
  -- not after an accepted command line
  | none => ⟨.crashed .nullPointer, [], []⟩
  | some compareSymNames =>
    let said := confNotices p.conf (files p.conf.databasePath)
    match findSymbolReferences lib.zstd lib.countOrder lookupFuel p.conf
        (files p.conf.databasePath) p.options.symbol (ignoreEntry compareSymNames) with
    | .error (.crashed fault) => ⟨.crashed fault, said, []⟩
    | .error (.failed errMsg) => ⟨.returned 1, said ++ [.lookupFailed errMsg], []⟩
    | .ok results => ⟨.returned 0, said ++ [.elapsedTime], printSymbolLookupResults results⟩

/-- `SymFinder` and the printing of its threads, for any order of their insertions. -/
inductive FreeRun (lib : Libraries) (w : Surroundings) (p : Prepared) : Outcome → Prop
  | trapped (unknown : threadsFor w p = none) : FreeRun lib w p ⟨.trapped, [], []⟩
  | unreserved (counted : threadsFor w p = some 0) :
      FreeRun lib w p ⟨.exited, [.threadListNotReserved], []⟩
  | nullComparator (null : comparatorOf lib p.options = none) :
      FreeRun lib w p ⟨.crashed .nullPointer, [], []⟩
  | faulted {threads : UInt16} {compareSymNames : StringComparator} {fault : Fault}
      {out : List Bytes}
      (counted : threadsFor w p = some threads) (some_thread : threads ≠ 0)
      (made : comparatorOf lib p.options = some compareSymNames)
      (faults : threadOutputs (p.shared w) (ignoreSymbol compareSymNames)
        (Threading.computeFileIdChunks (fileCount p) threads.toNat) = .error fault) :
      FreeRun lib w p ⟨.crashed fault, [], out⟩
  | cutShort {threads : UInt16} {compareSymNames : StringComparator}
      {outputs begun : List (List Bytes)} {out : List Bytes} {ending : Ending}
      (counted : threadsFor w p = some threads) (some_thread : threads ≠ 0)
      (made : comparatorOf lib p.options = some compareSymNames)
      (outputs_eq : threadOutputs (p.shared w) (ignoreSymbol compareSymNames)
        (Threading.computeFileIdChunks (fileCount p) threads.toNat) = .ok outputs)
      (begins : List.Forall₂ (· <+: ·) begun outputs) (shuffles : Shuffles begun out)
      (ends : CutShort w p ending) :
      FreeRun lib w p ⟨ending, [], out⟩
  | shown {threads : UInt16} {compareSymNames : StringComparator} {outputs : List (List Bytes)}
      {out : List Bytes}
      (counted : threadsFor w p = some threads) (some_thread : threads ≠ 0)
      (made : comparatorOf lib p.options = some compareSymNames)
      (outputs_eq : threadOutputs (p.shared w) (ignoreSymbol compareSymNames)
        (Threading.computeFileIdChunks (fileCount p) threads.toNat) = .ok outputs)
      (shuffles : Shuffles outputs out) :
      FreeRun lib w p ⟨.returned 0, [.elapsedTime], out⟩

/-- `main` behind the scan. -/
inductive MethodRun (lib : Libraries) (w : Surroundings) (p : Prepared) (files : Files) :
    Outcome → Files → Prop
  | buildDb {outcome : Outcome} {files' : Files} (method : p.options.runningMethod = .buildDb)
      (builds : BuildDb lib w p files outcome files') : MethodRun lib w p files outcome files'
  | readDb (method : p.options.runningMethod = .readDb) :
      MethodRun lib w p files (readDb lib p files) files
  | freeRun {outcome : Outcome} (method : p.options.runningMethod = .freeRun)
      (runs : FreeRun lib w p outcome) : MethodRun lib w p files outcome files
  | noMethod (method : p.options.runningMethod = .notSet) :
      MethodRun lib w p files ⟨.returned 0, [], []⟩ files

/-- A run of the program: how it may end, and the files that it leaves. One that is killed before it
makes a builder leaves them, whatever it has said and printed by then. -/
inductive MainRun (lib : Libraries) (w : Surroundings) (argv : List Bytes) (files : Files) :
    Outcome → Files → Prop
  | ended {outcome : Outcome} (prepared : prepare w argv = .ended outcome) :
      MainRun lib w argv files outcome files
  | killed (said : List Notice) (printed : List Bytes) :
      MainRun lib w argv files ⟨.died, said, printed⟩ files
  | ready {p : Prepared} {outcome : Outcome} {files' : Files}
      (prepared : prepare w argv = .ready p) (run : MethodRun lib w p files outcome files') :
      MainRun lib w argv files (outcome.behind p.warnings) files'

end Methods

end MainProgram
