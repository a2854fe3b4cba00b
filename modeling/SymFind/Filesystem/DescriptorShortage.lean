import SymFind.Filesystem.DirHandles
import SymFind.Filesystem.ScanSelection

/-!
# Scans that run out of descriptors

On a well-formed tree a scan returns true however few descriptors it gets. It
misses exactly the files that lie too deep, and says nothing about them. In the
last directories that it can open it does not know the filesystem either, so
that it enters those that it should prune.
-/
namespace DescriptorShortage
open RecordCodec SymbolData Machine Config Compression PathCache PathStrings TreeScan
open ScanSelection DescriptorTable DirHandles

section Depth

/-- The files that are reached with `k` descriptors below that of the stream. The last of them
leaves none for the table of mounts. -/
inductive ListedWithin (env : ScanEnv) : Nat → Bytes → Device → DirStream → Bytes → Bytes → Prop
  | file {k : Nat} {realPath : Bytes} {device : Device} {name : Bytes} {dType : UInt8}
      {opening : Opening} {below rest : DirStream} (regular : entryTypeOf dType = .regFile)
      (tracked : filenameHasAnyOfExtensions name trackingExtensions = true) :
      ListedWithin env k realPath device (.entry name dType opening below rest)
        (pathPlusSlash realPath) name
  | inside {k : Nat} {realPath : Bytes} {device : Device} {name : Bytes} {dType : UInt8}
      {opening : Opening} {below rest : DirStream} {dev : Device} {directory file : Bytes}
      (enters : Enters (envWithin env k) realPath device name dType opening dev)
      (notPath : joinPath realPath name ∉ env.conf.prunepaths)
      (listed : ListedWithin env k (joinPath realPath name) dev below directory file) :
      ListedWithin env (k + 1) realPath device (.entry name dType opening below rest)
        directory file
  | rest {k : Nat} {realPath : Bytes} {device : Device} {name : Bytes} {dType : UInt8}
      {opening : Opening} {below rest : DirStream} {directory file : Bytes}
      (listed : ListedWithin env k realPath device rest directory file) :
      ListedWithin env k realPath device (.entry name dType opening below rest) directory file

end Depth

section Hidden

/-- The type of an entry that is passed over. -/
def passedOver (dType : UInt8) : UInt8 := if entryTypeOf dType = .directory then 1 else dType

/-- An opening as it counts when its filesystem cannot be looked up. -/
def onDevice (device : Device) : Opening → Opening
  | .opened (some _) => .opened (some device)
  | opening => opening

def deviceOf (device : Device) : Opening → Device
  | .opened (some dev) => dev
  | _ => device

/-- Directories that need more than `k` descriptors are passed over. Those that take the last one
count as directories of the device above them. -/
def hide : Nat → Device → DirStream → DirStream
  | _, _, .done => .done
  | 0, device, .entry name dType _ below rest =>
    .entry name (passedOver dType) .failed below (hide 0 device rest)
  | 1, device, .entry name dType opening below rest =>
    .entry name dType (onDevice device opening) (hide 0 device below) (hide 1 device rest)
  | k + 2, device, .entry name dType opening below rest =>
    .entry name dType opening (hide (k + 1) (deviceOf device opening) below)
      (hide (k + 2) device rest)

variable {env : ScanEnv} {realPath name : Bytes} {device : Device} {dType : UInt8}
  {opening : Opening} {below rest : DirStream}

lemma names_hide (k : Nat) (device : Device) (entries : DirStream) :
    names (hide k device entries) = names entries := by
  induction entries generalizing k device with
  | done => cases k <;> rfl
  | entry name dType opening below rest ihBelow ihRest =>
    rcases k with _ | _ | k <;> rw [hide, names, names, ihRest]

lemma passedOver_type (dType : UInt8) :
    entryTypeOf (passedOver dType) ≠ .directory ∧
      (entryTypeOf dType ≠ .unknown → entryTypeOf (passedOver dType) ≠ .unknown) ∧
      (entryTypeOf (passedOver dType) = .regFile ↔ entryTypeOf dType = .regFile) := by
  rw [passedOver]
  by_cases hdirectory : entryTypeOf dType = .directory
  · rw [if_pos hdirectory, hdirectory]
    exact ⟨by decide, fun _ => by decide, by decide⟩
  · rw [if_neg hdirectory]
    exact ⟨hdirectory, id, Iff.rfl⟩

lemma hide_wellFormed (k : Nat) (device : Device) {entries : DirStream}
    (wf : WellFormed realPath entries) : WellFormed realPath (hide k device entries) := by
  induction entries generalizing k realPath device with
  | done => cases k <;> trivial
  | entry name dType opening below rest ihBelow ihRest =>
    obtain ⟨⟨hname, hslash, hnew⟩, hknown, hdir, hrest⟩ := wf
    rcases k with _ | _ | k
    · obtain ⟨hother, hknown', -⟩ := passedOver_type dType
      exact ⟨⟨hname, hslash, by rwa [names_hide]⟩, hknown' hknown,
        fun h => absurd h hother, ihRest 0 device hrest⟩
    · refine ⟨⟨hname, hslash, by rwa [names_hide]⟩, hknown, fun hdirectory hdots => ?_,
        ihRest 1 device hrest⟩
      obtain ⟨⟨dev, rfl⟩, hshort, hbelow⟩ := hdir hdirectory hdots
      exact ⟨⟨device, rfl⟩, hshort, ihBelow 0 device hbelow⟩
    · refine ⟨⟨hname, hslash, by rwa [names_hide]⟩, hknown, fun hdirectory hdots => ?_,
        ihRest (k + 2) device hrest⟩
      obtain ⟨hopens, hshort, hbelow⟩ := hdir hdirectory hdots
      exact ⟨hopens, hshort, ihBelow (k + 1) _ hbelow⟩

/-- A directory that cannot be opened is skipped like an entry that is passed over, on whatever
device. -/
lemma entryAction_passedOver (dType : UInt8) (dirPath : Bytes) (device device' : Option Device) :
    entryAction env dirPath device name (passedOver dType) .failed =
      entryAction env dirPath device' name dType .failed := by
  rw [passedOver]
  split
  · next hdirectory =>
    have hfifo : entryTypeOf 1 = .fifo := by decide
    rw [entryAction, entryAction, hdirectory, hfifo]
    simp
  · rfl

lemma entryAction_descend {dirPath : Bytes} {device : Option Device} {dev : Device}
    (descends : entryAction env dirPath device name dType opening = .descend dev) :
    entryTypeOf dType = .directory ∧ isDots name = false ∧ opening = .opened (some dev) := by
  rw [entryAction] at descends
  rcases opening with _ | _ | (_ | dev')
  · grind
  · grind
  · grind
  · cases device <;> grind

/-- Without the table of mounts a directory is entered like one of the same device. -/
lemma entryAction_onDevice (wf : WellFormed realPath (.entry name dType opening below rest))
    (dirPath : Bytes) :
    (∃ dev, entryAction { env with mounts := none } dirPath (some device) name dType opening =
        .descend dev ∧
      entryAction env dirPath (some device) name dType (onDevice device opening) =
        .descend device) ∨
    ((∀ dev, entryAction { env with mounts := none } dirPath (some device) name dType opening ≠
        .descend dev) ∧
      entryAction env dirPath (some device) name dType (onDevice device opening) =
        entryAction { env with mounts := none } dirPath (some device) name dType opening) := by
  obtain ⟨-, hknown, hdir, -⟩ := wf
  by_cases hdirectory : entryTypeOf dType = .directory ∧ isDots name = false
  · obtain ⟨⟨dev, rfl⟩, -, -⟩ := hdir hdirectory.1 hdirectory.2
    have hmounts : ∀ list path, filesystemIsExcluded none list path = false := fun _ _ => rfl
    rw [onDevice, entryAction, entryAction]
    grind
  · right
    rw [entryAction, entryAction]
    grind

lemma events_closed (entries : DirStream) (realPath : Bytes) (device device' : Option Device)
    (d : Device) :
    eventsWithin env 0 realPath device entries =
      events env realPath device' (hide 0 d entries) := by
  induction entries with
  | done => rfl
  | entry name dType opening below rest ihBelow ihRest =>
    rw [hide, eventsWithin, events, ihRest, actionWithin,
      entryAction_passedOver dType _ device' device]
    cases haction : entryAction env (getDirPath realPath) device name dType .failed with
    | descend dev => exact absurd haction (entryAction_not_descend dev)
    | _ => rfl

lemma events_hidden (k : Nat) {entries : DirStream} (wf : WellFormed realPath entries)
    (device : Device) :
    eventsWithin env (k + 1) realPath (some device) entries =
      events env realPath (some device) (hide (k + 1) device entries) := by
  induction entries generalizing k realPath device with
  | done => rfl
  | entry name dType opening below rest ihBelow ihRest =>
    have hrest := ihRest k wf.2.2.2 device
    cases k with
    | zero =>
      rw [hide, eventsWithin, events, hrest, actionWithin, envWithin]
      rcases @entryAction_onDevice env realPath name device dType opening below rest wf
        (getDirPath realPath) with ⟨dev, haction, haction'⟩ | ⟨hstays, haction'⟩
      · have hbelow := @events_closed env below (joinPath realPath name) (some dev) (some device)
          device
        cases pruneCheck env (getDirPath (joinPath realPath name)) <;>
          simp only [haction, haction', hbelow]
      · rw [haction']
        cases haction : entryAction { env with mounts := none } (getDirPath realPath)
          (some device) name dType opening with
        | descend dev => exact absurd haction (hstays dev)
        | _ => rfl
    | succ k =>
      obtain ⟨-, -, hdir, -⟩ := wf
      rw [hide, eventsWithin, events, hrest, actionWithin, envWithin]
      cases haction : entryAction env (getDirPath realPath) (some device) name dType opening with
      | skip => rfl
      | store => rfl
      | halt stop => rfl
      | descend dev =>
        obtain ⟨hdirectory, hdots, rfl⟩ := entryAction_descend haction
        obtain ⟨-, -, hbelow⟩ := hdir hdirectory hdots
        cases pruneCheck env (getDirPath (joinPath realPath name)) <;>
          simp only [Nat.add_sub_cancel, deviceOf, ihBelow k hbelow dev]

lemma listed_closed_iff (entries : DirStream) (device device' d : Device)
    (directory file : Bytes) :
    Listed env realPath device (hide 0 d entries) directory file ↔
      ListedWithin env 0 realPath device' entries directory file := by
  induction entries with
  | done => exact iff_of_false (by rintro ⟨⟩) (by rintro ⟨⟩)
  | entry name dType opening below rest ihBelow ihRest =>
    obtain ⟨hother, -, hfile⟩ := passedOver_type dType
    constructor
    · intro h
      rcases (listed_entry_iff _ _).mp h with ⟨hreg, htracked, rfl, rfl⟩ | ⟨_, enters, -⟩ | hrest
      · exact .file (hfile.mp hreg) htracked
      · exact absurd enters.directory hother
      · exact .rest (ihRest.mp hrest)
    · intro h
      cases h with
      | file regular tracked => exact .file (hfile.mpr regular) tracked
      | rest listed => exact .rest (ihRest.mpr listed)

/-- Which directories are entered as those of the device above them. -/
lemma enters_onDevice_iff (dev : Device) :
    Enters env realPath device name dType (onDevice device opening) dev ↔
      dev = device ∧ ∃ dev', Enters (envWithin env 0) realPath device name dType opening dev' := by
  constructor
  · rintro ⟨hdirectory, hdots, hnamed, hopens, -⟩
    rcases opening with _ | _ | (_ | dev')
    · cases hopens
    · cases hopens
    · cases hopens
    · cases hopens
      exact ⟨rfl, dev', hdirectory, hdots, hnamed, rfl, fun h => Bool.false_ne_true h.2⟩
  · rintro ⟨rfl, dev', hdirectory, hdots, hnamed, rfl, -⟩
    exact ⟨hdirectory, hdots, hnamed, rfl, fun h => h.1 rfl⟩

lemma listed_hidden_iff (k : Nat) (entries : DirStream) (directory file : Bytes) :
    Listed env realPath device (hide (k + 1) device entries) directory file ↔
      ListedWithin env (k + 1) realPath device entries directory file := by
  induction entries generalizing k realPath device with
  | done => exact iff_of_false (by rintro ⟨⟩) (by rintro ⟨⟩)
  | entry name dType opening below rest ihBelow ihRest =>
    cases k with
    | zero =>
      constructor
      · intro h
        rcases (listed_entry_iff _ _).mp h with
          ⟨hreg, htracked, rfl, rfl⟩ | ⟨dev, enters, hpath, hinside⟩ | hrest
        · exact .file hreg htracked
        · obtain ⟨rfl, dev', enters'⟩ := (enters_onDevice_iff dev).mp enters
          exact .inside enters' hpath ((listed_closed_iff below dev dev' dev _ _).mp hinside)
        · exact .rest ((ihRest 0).mp hrest)
      · intro h
        cases h with
        | file regular tracked => exact .file regular tracked
        | @inside _ _ _ _ _ _ _ _ dev' _ _ enters notPath listed =>
          exact .inside ((enters_onDevice_iff device).mpr ⟨rfl, dev', enters⟩) notPath
            ((listed_closed_iff below device dev' device _ _).mpr listed)
        | rest listed => exact .rest ((ihRest 0).mpr listed)
    | succ k =>
      constructor
      · intro h
        rcases (listed_entry_iff _ _).mp h with
          ⟨hreg, htracked, rfl, rfl⟩ | ⟨dev, enters, hpath, hinside⟩ | hrest
        · exact .file hreg htracked
        · obtain rfl := enters.opens
          exact .inside enters hpath ((ihBelow k).mp hinside)
        · exact .rest ((ihRest (k + 1)).mp hrest)
      · intro h
        cases h with
        | file regular tracked => exact .file regular tracked
        | inside enters notPath listed =>
          obtain rfl := enters.opens
          exact .inside enters notPath ((ihBelow k).mpr listed)
        | rest listed => exact .rest ((ihRest (k + 1)).mpr listed)

/-- For any number of descriptors. -/
lemma events_hide (k : Nat) {entries : DirStream} (wf : WellFormed realPath entries)
    (device : Device) :
    eventsWithin env k realPath (some device) entries =
        events env realPath (some device) (hide k device entries) ∧
      ∀ directory file, Listed env realPath device (hide k device entries) directory file ↔
        ListedWithin env k realPath device entries directory file := by
  cases k with
  | zero =>
    exact ⟨events_closed entries realPath (some device) (some device) device,
      listed_closed_iff entries device device device⟩
  | succ k => exact ⟨events_hidden k wf device, listed_hidden_iff k entries⟩

end Hidden

section Scan

/-- The scan returns true, and the found files are those that `k` descriptors below that of the
root reach. -/
structure FindsWithin (env : ScanEnv) (k : Nat) (root : Root) (device : Device)
    (result : ScanOutcome × ScanState) : Prop where
  returns : result.1 = .returned true (.text [])
  listed : ∀ path, path ∈ foundPaths result ↔ root.realPath ∉ env.conf.prunepaths ∧
    ∃ directory file, ListedWithin env k root.realPath device root.entries directory file ∧
      path = directory ++ file
  once : (foundPaths result).Nodup

variable {env : ScanEnv} {root : Root} {device : Device}

/-- A well-formed tree is scanned with success however few descriptors are free behind that of the
root; what lies too deep is missing, and what the last descriptors reach is not kept out for its
filesystem. -/
theorem shortage_misses_deep_files (env : ScanEnv) (root : Root) (device : Device)
    (wf : WellFormedRoot root device) (off : env.conf.pruneBindMounts = false)
    (dirs : List Bytes) (few : dirs.length ≤ 2 ^ 32) (k : Nat)
    (covers : ∀ directory file,
      ListedWithin env k root.realPath device root.entries directory file → directory ∈ dirs)
    (dictBuilder : Option DictionaryBuilder) (table : Table) (calls : List Call)
    (free : table.free.length = k + 1) :
    FindsWithin env k root device
      (found (scanHandles env (.ok root) ⟨.new dictBuilder, table, calls⟩)) := by
  obtain ⟨-, hfound⟩ := scanHandles_spec env (.ok root) ⟨.new dictBuilder, table, calls⟩
  obtain ⟨hevents, hlistedWithin⟩ := @events_hide env root.realPath k root.entries wf.entries device
  have wfHidden : WellFormedRoot { root with entries := hide k device root.entries } device :=
    ⟨wf.device, wf.short, hide_wellFormed k device wf.entries⟩
  have hhidden : found (scanHandles env (.ok root) ⟨.new dictBuilder, table, calls⟩) =
      scan env (.ok { root with entries := hide k device root.entries }) (.new dictBuilder) := by
    rw [hfound, free, scanWithin, wf.device, hevents]
    simp only [scan, scanFs, scanLoop_replay]
    cases pruneCheck env (getDirPath root.realPath) <;> rfl
  rw [hhidden]
  by_cases hroot : root.realPath ∈ env.conf.prunepaths
  · have hscan : scan env (.ok { root with entries := hide k device root.entries })
        (.new dictBuilder) = (.returned true (.text []), .new dictBuilder) := by
      rw [scan, scanFs, pruneCheck_off off, getDirPath_short wf.short, if_pos hroot]
    rw [hscan]
    exact ⟨rfl, fun path => iff_of_false List.not_mem_nil (fun h => h.1 hroot), List.nodup_nil⟩
  · obtain ⟨hfree, hlisted⟩ := walk_lists device off wfHidden.entries wf.short
    simp only [hlistedWithin] at hlisted
    have hpaths := replay_paths few
      (fun d f h => covers d f ((hlisted d f).mp h)) dictBuilder
    rw [scan_wellFormed wfHidden off hroot]
    refine ⟨?_, fun path => ?_, ?_⟩
    · rw [replay_outcome, outcomeOf_free hfree]
    · rw [hpaths, List.mem_map]
      constructor
      · rintro ⟨⟨directory, file⟩, hmem, rfl⟩
        exact ⟨hroot, directory, file, (hlisted _ _).mp hmem, rfl⟩
      · rintro ⟨-, directory, file, hfile, rfl⟩
        exact ⟨(directory, file), (hlisted _ _).mpr hfile, rfl⟩
    · rw [hpaths]
      exact walk_paths_nodup device off wfHidden.entries wf.short

/-- A network filesystem on `/lib` that is not to be searched. -/
def networkPruned : ScanEnv :=
  ⟨{ ConfigParser.new with prunefs := [text "NFS"] }, fun _ => false,
    some [(text "/lib", text "nfs")]⟩

def networkRoot : Root where
  realPath := text "/"
  device := some 1
  entries := .entry (text "lib") 4 (.opened (some 2))
    (.entry (text "libc.so.6") 8 .failed .done .done) .done

/-- Two descriptors are free: `/lib` is entered although it should be pruned. -/
theorem shortage_misses_deep_files_sample :
    FindsWithin networkPruned 1 networkRoot 1
        (found (scanHandles networkPruned (.ok networkRoot) ⟨.new none, ⟨5, [0, 1, 2]⟩, []⟩)) ∧
      foundPaths (found (scanHandles networkPruned (.ok networkRoot)
        ⟨.new none, ⟨5, [0, 1, 2]⟩, []⟩)) = [text "/lib/libc.so.6"] ∧
      foundPaths (scan networkPruned (.ok networkRoot) (.new none)) = [] := by
  refine ⟨?_, by decide +kernel, by decide +kernel⟩
  apply shortage_misses_deep_files networkPruned networkRoot 1 _ rfl [text "/lib/"] (by decide) 1 _
    none ⟨5, [0, 1, 2]⟩ [] (by decide)
  · refine ⟨rfl, by decide, ⟨by decide, by decide, fun _ _ => ⟨⟨2, rfl⟩, by decide, ?_⟩, trivial⟩⟩
    exact ⟨by decide, by decide, fun h => absurd h (by decide), trivial⟩
  · intro directory file listed
    cases listed with
    | file regular tracked => cases regular
    | inside enters notPath listed =>
      cases listed with
      | file regular tracked => decide
      | rest listed => cases listed
    | rest listed => cases listed

end Scan

end DescriptorShortage
