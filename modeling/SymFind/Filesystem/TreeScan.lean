import SymFind.Config.ConfigParser
import SymFind.Core.Compression
import SymFind.Core.Machine
import SymFind.Filesystem.PathCache
import SymFind.Filesystem.PathStrings

/-!
# Walking a directory tree

`scan_fs` walks the tree and stores the tracked files. It leaves a directory
early by one boolean and a message, and it may end the process. What it does is
the replay of what the walk meets, up to the first event that stops it.
-/
namespace TreeScan
open RecordCodec SymbolData Machine Config Compression PathCache PathStrings

section Tree

inductive EntryType where
  | unknown
  | directory
  | regFile
  | fifo
  | characterDev
  | blockDev
  | link
  | socket
  | wht
  deriving DecidableEq

/-- The switch on `d_type`. -/
def entryTypeOf (dType : UInt8) : EntryType :=
  if dType = 4 then .directory
  else if dType = 8 then .regFile
  else if dType = 1 then .fifo
  else if dType = 2 then .characterDev
  else if dType = 6 then .blockDev
  else if dType = 10 then .link
  else if dType = 12 then .socket
  else if dType = 14 then .wht
  else .unknown

abbrev Device := UInt64

/-- Opening an entry as a directory: `openat` fails, `fdopendir` fails, or there is a stream and
perhaps a device number. -/
inductive Opening where
  | failed
  | noStream
  | opened (device : Option Device)
  deriving DecidableEq

/-- What `readdir` has still to return; with each entry, what opening it gives and the entries
below it. -/
inductive DirStream where
  | done
  | entry (name : Bytes) (dType : UInt8) (opening : Opening) (below rest : DirStream)

/-- The scan root as it was opened: its real path, its device and its entries. -/
structure Root where
  realPath : Bytes
  device : Option Device
  entries : DirStream

def maxPathLen : Nat := 1024

/-- `get_dir_path` shows the first 1023 bytes of the real path. -/
def getDirPath (realPath : Bytes) : Bytes := realPath.take (maxPathLen - 1)

def pathPlusSlash (path : Bytes) : Bytes :=
  if path.getLast? = some slash then path else path ++ [slash]

/-- The real path of an entry of a directory. -/
def joinPath (realPath name : Bytes) : Bytes := pathPlusSlash realPath ++ name

end Tree

section Scanner

/-- What a scan asks of its surroundings. -/
structure ScanEnv where
  conf : ConfigParser
  isBindMount : Bytes → Bool
  mounts : MountTable

structure ScanState where
  foundFiles : List FileInfo
  cache : StringCache
  dictBuilder : Option DictionaryBuilder
  fileNameSamples : UInt32
  pathNameSamples : UInt32

/-- A scanner that has not run, while no path is in the cache yet. -/
def ScanState.new (dictBuilder : Option DictionaryBuilder) : ScanState :=
  ⟨[], StringCache.new, dictBuilder, 0, 0⟩

def maxFileNameSamples : Nat := 100000
def maxPathNameSamples : Nat := 100000

def ScanState.addFileNameSample (st : ScanState) (name : Bytes) : ScanState :=
  match st.dictBuilder with
  | none => st
  | some dictBuilder =>
    let samples := st.fileNameSamples + 1
    { st with
      fileNameSamples := samples
      dictBuilder := some (if samples.toNat ≤ maxFileNameSamples then
        dictBuilder.addSample name else dictBuilder) }

def ScanState.addPathNameSample (st : ScanState) (name : Bytes) : ScanState :=
  match st.dictBuilder with
  | none => st
  | some dictBuilder =>
    let samples := st.pathNameSamples + 1
    { st with
      pathNameSamples := samples
      dictBuilder := some (if samples.toNat ≤ maxPathNameSamples then
        dictBuilder.addSample name else dictBuilder) }

/-- A tracked file is offered to the dictionary and stored under its directory. -/
def ScanState.storeFile (st : ScanState) (directory name : Bytes) : ScanState :=
  let st := st.addFileNameSample name
  let (cache, id) := st.cache.storeString directory
  { st with cache := cache, foundFiles := st.foundFiles ++ [⟨name, id⟩] }

/-- A message; the texts of the system stay symbolic. -/
inductive ScanMessage where
  | text (message : Bytes)
  | system (errno : Nat)
  deriving DecidableEq

inductive ScanOutcome where
  | returned (status : Bool) (errMsg : ScanMessage)
  | exited
  | crashed (fault : Fault)
  deriving DecidableEq

/-- What ends a scan before the walk is through. -/
inductive Stop where
  | failed (errMsg : ScanMessage)
  | exited
  | crashed (fault : Fault)
  deriving DecidableEq

def Stop.outcome : Stop → ScanOutcome
  | .failed errMsg => .returned false errMsg
  | .exited => .exited
  | .crashed fault => .crashed fault

/-- What the checks of `scan_fs` on the directory itself say. -/
inductive PruneCheck where
  | prunePath
  | bindMount
  | clear
  deriving DecidableEq

def pruneCheck (env : ScanEnv) (dirPath : Bytes) : PruneCheck :=
  if (stringListContainsDirPath env.conf.prunepaths 0 dirPath).1 then .prunePath
  else if env.conf.pruneBindMounts && env.isBindMount dirPath then .bindMount
  else .clear

lemma pruneCheck_off {env : ScanEnv} (off : env.conf.pruneBindMounts = false) (path : Bytes) :
    pruneCheck env path = if path ∈ env.conf.prunepaths then .prunePath else .clear := by
  rw [pruneCheck, off]
  simp only [containsDirPath_zero_iff, Bool.false_and, Bool.false_eq_true, if_false]

def prunePathMessage : ScanMessage :=
  .text (text "FSScanner scan path determined in prunepaths list")

def bindMountMessage : ScanMessage :=
  .text (text "FSScanner scan path determined in prune_bind_mounts list")

/-- What one pass of the loop does with an entry. -/
inductive EntryAction where
  | skip
  | store
  | halt (stop : Stop)
  | descend (device : Device)
  deriving DecidableEq

def isDots (name : Bytes) : Bool := name == text "." || name == text ".."

/-- One pass of the loop up to the recursive call. Entries of unknown type are opened and
checked like directories but never descended into. -/
def entryAction (env : ScanEnv) (dirPath : Bytes) (device : Option Device) (name : Bytes)
    (dType : UInt8) (opening : Opening) : EntryAction :=
  if isDots name then .skip
  else if name = [] then .skip
  else if entryTypeOf dType = .regFile then
    if filenameHasAnyOfExtensions name trackingExtensions then .store else .skip
  else if entryTypeOf dType ≠ .unknown ∧ entryTypeOf dType ≠ .directory then .skip
  else if env.conf.prunenames.contains name then .skip
  else
    let fileFullName := pathPlusSlash dirPath ++ name
    match opening with
    | .failed => .skip
    | .noStream => .halt (.crashed .nullPointer)
    | .opened none =>
      if filesystemIsExcluded env.mounts env.conf.prunefs fileFullName then .skip
      else .halt .exited
    | .opened (some dev) =>
      match device with
      | none => .halt .exited
      | some parentDev =>
        if dev ≠ parentDev ∧ filesystemIsExcluded env.mounts env.conf.prunefs fileFullName then
          .skip
        else if entryTypeOf dType = .directory then .descend dev
        else .skip

def failedToScan (name : Bytes) : ScanMessage := .text (text "Failed to scan: " ++ name)

/-- The loop of `scan_fs` over the entries of one directory. -/
def scanLoop (env : ScanEnv) (realPath : Bytes) (device : Option Device) :
    DirStream → ScanState → ScanOutcome × ScanState
  | .done, st => (.returned true (.text []), st)
  | .entry name dType opening below rest, st =>
    match entryAction env (getDirPath realPath) device name dType opening with
    | .skip => scanLoop env realPath device rest st
    | .store =>
      scanLoop env realPath device rest
        (st.storeFile (pathPlusSlash (getDirPath realPath)) name)
    | .halt stop => (stop.outcome, st)
    | .descend dev =>
      let st := st.addPathNameSample name
      -- the recursive call of `scan_fs`
      let (outcome, st) := match pruneCheck env (getDirPath (joinPath realPath name)) with
        | .prunePath => (ScanOutcome.returned true prunePathMessage, st)
        | .bindMount => (ScanOutcome.returned false bindMountMessage, st)
        | .clear => scanLoop env (joinPath realPath name) (some dev) below st
      match outcome with
      | .returned true _ => scanLoop env realPath device rest st
      | .returned false _ => (.returned false (failedToScan name), st)
      | .exited => (.exited, st)
      | .crashed fault => (.crashed fault, st)

def scanFs (env : ScanEnv) (realPath : Bytes) (device : Option Device) (entries : DirStream)
    (st : ScanState) : ScanOutcome × ScanState :=
  match pruneCheck env (getDirPath realPath) with
  | .prunePath => (.returned true prunePathMessage, st)
  | .bindMount => (.returned false bindMountMessage, st)
  | .clear => scanLoop env realPath device entries st

/-- `scan`: an error number stands for a root that cannot be opened. -/
def scan (env : ScanEnv) (root : Except Nat Root) (st : ScanState) : ScanOutcome × ScanState :=
  match root with
  | .error errno => (.returned false (.system errno), st)
  | .ok root =>
    match scanFs env root.realPath root.device root.entries st with
    | (.returned true _, st) => (.returned true (.text []), st)
    | result => result

end Scanner

section Events

inductive Event where
  | found (directory name : Bytes)
  | entered (name : Bytes)
  | stopped (stop : Stop)
  deriving DecidableEq

/-- A failure below a directory is reported with that directory's name. -/
def Event.below (name : Bytes) : Event → Event
  | .stopped (.failed _) => .stopped (.failed (failedToScan name))
  | e => e

/-- All events of the walk over a stream, as if nothing stopped it. -/
def events (env : ScanEnv) (realPath : Bytes) (device : Option Device) : DirStream → List Event
  | .done => []
  | .entry name dType opening below rest =>
    match entryAction env (getDirPath realPath) device name dType opening with
    | .skip => events env realPath device rest
    | .store =>
      .found (pathPlusSlash (getDirPath realPath)) name :: events env realPath device rest
    | .halt stop => .stopped stop :: events env realPath device rest
    | .descend dev =>
      .entered name :: (match pruneCheck env (getDirPath (joinPath realPath name)) with
        | .prunePath => []
        | .bindMount => [Event.stopped (.failed bindMountMessage)]
        | .clear => events env (joinPath realPath name) (some dev) below).map (Event.below name) ++
          events env realPath device rest

/-- The events up to the first one that stops the scan, carried out. -/
def replay : List Event → ScanState → ScanOutcome × ScanState
  | [], st => (.returned true (.text []), st)
  | .found directory name :: es, st => replay es (st.storeFile directory name)
  | .entered name :: es, st => replay es (st.addPathNameSample name)
  | .stopped stop :: _, st => (stop.outcome, st)

/-- How a replay ends. -/
def outcomeOf : List Event → ScanOutcome
  | [] => .returned true (.text [])
  | .stopped stop :: _ => stop.outcome
  | _ :: es => outcomeOf es

/-- The directory and name of each file that is found before the first stop. -/
def foundOf : List Event → List (Bytes × Bytes)
  | [] => []
  | .found directory name :: es => (directory, name) :: foundOf es
  | .entered _ :: es => foundOf es
  | .stopped _ :: _ => []

lemma replay_append (es fs : List Event) (st : ScanState) :
    replay (es ++ fs) st = match replay es st with
      | (.returned true _, st') => replay fs st'
      | result => result := by
  induction es generalizing st with
  | nil => rfl
  | cons e rest ih =>
    cases e with
    | found directory name => exact ih _
    | entered name => exact ih _
    | stopped stop => cases stop <;> rfl

/-- Below a directory a replay ends the same way, but for the message of a failure. -/
lemma replay_below (name : Bytes) (es : List Event) (st : ScanState) :
    replay (es.map (Event.below name)) st = match replay es st with
      | (.returned false _, st') => (.returned false (failedToScan name), st')
      | result => result := by
  induction es generalizing st with
  | nil => rfl
  | cons e rest ih =>
    cases e with
    | found directory n => exact ih _
    | entered n => exact ih _
    | stopped stop => cases stop <;> rfl

/-- The loop carries out the events of the walk up to the first stop. -/
theorem scanLoop_replay (env : ScanEnv) (realPath : Bytes) (device : Option Device)
    (entries : DirStream) (st : ScanState) :
    scanLoop env realPath device entries st =
      replay (events env realPath device entries) st := by
  induction entries generalizing realPath device st with
  | done => rfl
  | entry name dType opening below rest ihBelow ihRest =>
    rw [scanLoop, events]
    cases entryAction env (getDirPath realPath) device name dType opening with
    | skip => exact ihRest _ _ _
    | store => exact ihRest _ _ _
    | halt stop => rfl
    | descend dev =>
      simp only [List.cons_append, replay, replay_append, replay_below]
      cases pruneCheck env (getDirPath (joinPath realPath name)) with
      | prunePath => exact ihRest _ _ _
      | bindMount => rfl
      | clear =>
        simp only [ihBelow]
        rcases replay (events env (joinPath realPath name) (some dev) below)
          (st.addPathNameSample name) with ⟨outcome, st'⟩
        rcases outcome with ⟨_ | _, errMsg⟩ | _ | fault
        · rfl
        · exact ihRest _ _ _
        · rfl
        · rfl

/-- A scan of a root that is not pruned carries out the events of the walk. -/
theorem scan_events {env : ScanEnv} {root : Root}
    (clear : pruneCheck env (getDirPath root.realPath) = .clear) (st : ScanState) :
    scan env (.ok root) st =
      match replay (events env root.realPath root.device root.entries) st with
      | (.returned true _, st') => (.returned true (.text []), st')
      | result => result := by
  simp only [scan, scanFs, clear, scanLoop_replay]

/-- The events of the first entry come before those of the rest. -/
lemma events_entry (env : ScanEnv) (realPath : Bytes) (device : Option Device) (name : Bytes)
    (dType : UInt8) (opening : Opening) (below rest : DirStream) :
    events env realPath device (.entry name dType opening below rest) =
      events env realPath device (.entry name dType opening below .done) ++
        events env realPath device rest := by
  rw [events, events]
  cases entryAction env (getDirPath realPath) device name dType opening with
  | skip => rfl
  | store => rfl
  | halt stop => rfl
  | descend dev => simp [events]

end Events

section Stops

def Stops (es : List Event) : Prop := ∃ stop, Event.stopped stop ∈ es

lemma stops_cons (e : Event) (es : List Event) :
    Stops (e :: es) ↔ (∃ stop, e = .stopped stop) ∨ Stops es := by
  constructor
  · rintro ⟨stop, hmem⟩
    rcases List.mem_cons.mp hmem with h | h
    · exact .inl ⟨stop, h.symm⟩
    · exact .inr ⟨stop, h⟩
  · rintro (⟨stop, rfl⟩ | ⟨stop, h⟩)
    · exact ⟨stop, List.mem_cons_self⟩
    · exact ⟨stop, List.mem_cons_of_mem _ h⟩

/-- A stop hides what comes behind it. -/
lemma hidden_after_stop {es : List Event} (stops : Stops es) (fs : List Event) :
    outcomeOf (es ++ fs) = outcomeOf es ∧ foundOf (es ++ fs) = foundOf es := by
  induction es with
  | nil => obtain ⟨stop, hmem⟩ := stops; cases hmem
  | cons e rest ih =>
    rcases (stops_cons e rest).mp stops with ⟨stop, rfl⟩ | hrest
    · exact ⟨rfl, rfl⟩
    · obtain ⟨houtcome, hfound⟩ := ih hrest
      cases e with
      | found directory name => exact ⟨houtcome, congrArg (List.cons _) hfound⟩
      | entered name => exact ⟨houtcome, hfound⟩
      | stopped stop => exact ⟨rfl, rfl⟩

lemma continues_without_stop {es : List Event} (free : ¬ Stops es) (fs : List Event) :
    outcomeOf (es ++ fs) = outcomeOf fs ∧ foundOf (es ++ fs) = foundOf es ++ foundOf fs := by
  induction es with
  | nil => exact ⟨rfl, rfl⟩
  | cons e rest ih =>
    obtain ⟨houtcome, hfound⟩ := ih (fun h => free ((stops_cons e rest).mpr (.inr h)))
    cases e with
    | found directory name => exact ⟨houtcome, congrArg (List.cons _) hfound⟩
    | entered name => exact ⟨houtcome, hfound⟩
    | stopped stop => exact absurd ((stops_cons _ rest).mpr (.inl ⟨stop, rfl⟩)) free

lemma stops_append (es fs : List Event) : Stops (es ++ fs) ↔ Stops es ∨ Stops fs := by
  simp only [Stops, List.mem_append]
  exact exists_or

lemma stops_below (name : Bytes) (es : List Event) :
    Stops (es.map (Event.below name)) ↔ Stops es := by
  induction es with
  | nil => exact Iff.rfl
  | cons e rest ih =>
    rw [List.map_cons, stops_cons, stops_cons, ih]
    rcases e with _ | _ | (_ | _ | _) <;> simp [Event.below]

lemma foundOf_below (name : Bytes) (es : List Event) :
    foundOf (es.map (Event.below name)) = foundOf es := by
  induction es with
  | nil => rfl
  | cons e rest ih =>
    cases e with
    | found directory n => exact congrArg (List.cons _) ih
    | entered n => exact ih
    | stopped stop => cases stop <;> rfl

/-- Without a stop the scan returns true. -/
lemma outcomeOf_free {es : List Event} (free : ¬ Stops es) :
    outcomeOf es = .returned true (.text []) := by
  have h := (continues_without_stop free []).1
  rwa [List.append_nil] at h

end Stops

section Replay

lemma replay_outcome (es : List Event) (st : ScanState) : (replay es st).1 = outcomeOf es := by
  induction es generalizing st with
  | nil => rfl
  | cons e rest ih =>
    cases e with
    | found directory name => exact ih _
    | entered name => exact ih _
    | stopped stop => rfl

@[simp] lemma addFileNameSample_cache (st : ScanState) (name : Bytes) :
    (st.addFileNameSample name).cache = st.cache := by
  rw [ScanState.addFileNameSample]
  cases st.dictBuilder <;> rfl

@[simp] lemma addFileNameSample_foundFiles (st : ScanState) (name : Bytes) :
    (st.addFileNameSample name).foundFiles = st.foundFiles := by
  rw [ScanState.addFileNameSample]
  cases st.dictBuilder <;> rfl

@[simp] lemma addPathNameSample_cache (st : ScanState) (name : Bytes) :
    (st.addPathNameSample name).cache = st.cache := by
  rw [ScanState.addPathNameSample]
  cases st.dictBuilder <;> rfl

@[simp] lemma addPathNameSample_foundFiles (st : ScanState) (name : Bytes) :
    (st.addPathNameSample name).foundFiles = st.foundFiles := by
  rw [ScanState.addPathNameSample]
  cases st.dictBuilder <;> rfl

/-- The found files and the cache after the files of a list have been stored. -/
def storedFiles : List (Bytes × Bytes) → List FileInfo × StringCache → List FileInfo × StringCache
  | [], s => s
  | (directory, name) :: rest, (files, cache) =>
    let (cache, id) := cache.storeString directory
    storedFiles rest (files ++ [⟨name, id⟩], cache)

lemma storedFiles_cons (directory name : Bytes) (rest : List (Bytes × Bytes))
    (files : List FileInfo) (cache : StringCache) :
    storedFiles ((directory, name) :: rest) (files, cache) =
      storedFiles rest (files ++ [⟨name, (cache.storeString directory).2⟩],
        (cache.storeString directory).1) := rfl

lemma storedFiles_length (found : List (Bytes × Bytes)) (s : List FileInfo × StringCache) :
    (storedFiles found s).1.length = s.1.length + found.length := by
  induction found generalizing s with
  | nil => rfl
  | cons file rest ih =>
    rw [storedFiles, ih]
    simp only [List.length_append, List.length_cons, List.length_nil]
    omega

/-- The dictionary has no influence on the files and the cache. -/
lemma replay_files (es : List Event) (st : ScanState) :
    ((replay es st).2.foundFiles, (replay es st).2.cache) =
      storedFiles (foundOf es) (st.foundFiles, st.cache) := by
  induction es generalizing st with
  | nil => rfl
  | cons e rest ih =>
    cases e with
    | found directory name =>
      rw [replay, ih, foundOf, storedFiles]
      simp only [ScanState.storeFile, addFileNameSample_cache, addFileNameSample_foundFiles]
    | entered name =>
      rw [replay, ih, foundOf, addPathNameSample_cache, addPathNameSample_foundFiles]
    | stopped stop => rfl

end Replay
end TreeScan
