import SymFind.Filesystem.TreeScan

/-!
# Pruning compared with deleting

A pruned directory contributes nothing to the walk, except that a bind mount
fails the scan instead of being skipped. What lies behind it is then never
visited, so the scan differs from one of the tree without the directory.
-/
namespace PruneAsDelete
open RecordCodec SymbolData Machine Config PathCache PathStrings TreeScan

section Removal

/-- A place in a stream: its first entry, or a place inside or behind that entry. -/
inductive Position where
  | here
  | inside (p : Position)
  | next (p : Position)

/-- The stream without the entry at a position and everything below it. -/
def removeAt : DirStream → Position → DirStream
  | .done, _ => .done
  | .entry _ _ _ _ rest, .here => rest
  | .entry name dType opening below rest, .inside p =>
    .entry name dType opening (removeAt below p) rest
  | .entry name dType opening below rest, .next p =>
    .entry name dType opening below (removeAt rest p)

inductive PruneReason where
  | prunePath
  | pruneName
  | bindMount
  | filesystem
  | openFailed
  deriving DecidableEq

/-- Why the walk leaves out an entry that is, or may be, a directory. -/
def pruneReason (env : ScanEnv) (realPath : Bytes) (device : Option Device) (name : Bytes)
    (dType : UInt8) (opening : Opening) : Option PruneReason :=
  if isDots name ∨ name = [] ∨
      (entryTypeOf dType ≠ .unknown ∧ entryTypeOf dType ≠ .directory) then none
  else if env.conf.prunenames.contains name then some .pruneName
  else
    let excluded := filesystemIsExcluded env.mounts env.conf.prunefs
      (pathPlusSlash (getDirPath realPath) ++ name)
    match opening with
    | .failed => some .openFailed
    | .noStream => none
    | .opened none => if excluded then some .filesystem else none
    | .opened (some dev) =>
      match device with
      | none => none
      | some parentDev =>
        if dev ≠ parentDev ∧ excluded then some .filesystem
        else if entryTypeOf dType = .directory then
          match pruneCheck env (getDirPath (joinPath realPath name)) with
          | .prunePath => some .prunePath
          | .bindMount => some .bindMount
          | .clear => none
        else none

/-- Why the directory at a position is pruned; `none` if it is not, or if the walk never enters
the directory that it is in. -/
def prunedAt (env : ScanEnv) (realPath : Bytes) (device : Option Device) :
    DirStream → Position → Option PruneReason
  | .done, _ => none
  | .entry name dType opening _ _, .here => pruneReason env realPath device name dType opening
  | .entry name dType opening below _, .inside p =>
    match entryAction env (getDirPath realPath) device name dType opening with
    | .descend dev =>
      match pruneCheck env (getDirPath (joinPath realPath name)) with
      | .clear => prunedAt env (joinPath realPath name) (some dev) below p
      | _ => none
    | _ => none
  | .entry _ _ _ _ rest, .next p => prunedAt env realPath device rest p

/-- What the walk meets before it comes to a position. -/
def eventsBefore (env : ScanEnv) (realPath : Bytes) (device : Option Device) :
    DirStream → Position → List Event
  | .done, _ => []
  | .entry _ _ _ _ _, .here => []
  | .entry name dType opening below _, .inside p =>
    match entryAction env (getDirPath realPath) device name dType opening with
    | .descend dev =>
      .entered name ::
        (eventsBefore env (joinPath realPath name) (some dev) below p).map (Event.below name)
    | _ => []
  | .entry name dType opening below rest, .next p =>
    events env realPath device (.entry name dType opening below .done) ++
      eventsBefore env realPath device rest p

/-- What it meets behind a position. -/
def eventsAfter (env : ScanEnv) (realPath : Bytes) (device : Option Device) :
    DirStream → Position → List Event
  | .done, _ => []
  | .entry _ _ _ _ rest, .here => events env realPath device rest
  | .entry name dType opening below rest, .inside p =>
    match entryAction env (getDirPath realPath) device name dType opening with
    | .descend dev =>
      (eventsAfter env (joinPath realPath name) (some dev) below p).map (Event.below name) ++
        events env realPath device rest
    | _ => []
  | .entry _ _ _ _ rest, .next p => eventsAfter env realPath device rest p

/-- What a pruned directory adds to the walk: a sample for the dictionary at most, but a failure
if it is a bind mount. -/
inductive Leaves : PruneReason → List Event → Prop
  | nothing {reason : PruneReason} (skipped : reason ≠ .bindMount) : Leaves reason []
  | sample {reason : PruneReason} (skipped : reason ≠ .bindMount) (name : Bytes) :
      Leaves reason [.entered name]
  | failure (name : Bytes) (errMsg : ScanMessage) :
      Leaves .bindMount [.entered name, .stopped (.failed errMsg)]

variable {env : ScanEnv} {realPath : Bytes} {device : Option Device}

lemma Leaves.below {reason : PruneReason} {es : List Event} (leaves : Leaves reason es)
    (name : Bytes) : Leaves reason (es.map (Event.below name)) := by
  cases leaves with
  | nothing skipped => exact .nothing skipped
  | sample skipped n => exact .sample skipped n
  | failure n errMsg => exact .failure n (failedToScan name)

/-- A pruned entry is skipped, or it is entered and left again at once. -/
lemma pruned_action {name : Bytes} {dType : UInt8} {opening : Opening} {reason : PruneReason}
    (pruned : pruneReason env realPath device name dType opening = some reason) :
    (reason ≠ .bindMount ∧
      entryAction env (getDirPath realPath) device name dType opening = .skip) ∨
    (∃ dev, entryAction env (getDirPath realPath) device name dType opening = .descend dev ∧
      ((reason = .prunePath ∧
          pruneCheck env (getDirPath (joinPath realPath name)) = .prunePath) ∨
        (reason = .bindMount ∧
          pruneCheck env (getDirPath (joinPath realPath name)) = .bindMount))) := by
  rw [pruneReason] at pruned
  split at pruned
  · cases pruned
  next hdir =>
    obtain ⟨hdots, hname, htype⟩ : isDots name = false ∧ name ≠ [] ∧
        ¬ (entryTypeOf dType ≠ .unknown ∧ entryTypeOf dType ≠ .directory) := by
      simpa [not_or] using hdir
    have hreg : entryTypeOf dType ≠ .regFile := fun h => htype (by simp [h])
    simp only [entryAction, hdots, hname, hreg, htype, if_false, Bool.false_eq_true]
    split at pruned
    next hnames =>
      obtain rfl := Option.some.inj pruned
      exact .inl ⟨by decide, if_pos hnames⟩
    next hnames =>
      rw [if_neg hnames]
      cases opening with
      | failed =>
        obtain rfl := Option.some.inj pruned
        exact .inl ⟨by decide, rfl⟩
      | noStream => cases pruned
      | opened dev? =>
        cases dev? with
        | none =>
          simp only [Option.ite_none_right_eq_some] at pruned
          obtain ⟨hexcluded, hreason⟩ := pruned
          obtain rfl := Option.some.inj hreason
          exact .inl ⟨by decide, if_pos hexcluded⟩
        | some dev =>
          cases device with
          | none => cases pruned
          | some parentDev =>
            simp only at pruned ⊢
            split at pruned
            next hcrosses =>
              obtain rfl := Option.some.inj pruned
              exact .inl ⟨by decide, if_pos hcrosses⟩
            next hcrosses =>
              rw [if_neg hcrosses]
              split at pruned
              next hdirectory =>
                refine .inr ⟨dev, if_pos hdirectory, ?_⟩
                cases hcheck : pruneCheck env (getDirPath (joinPath realPath name)) with
                | prunePath =>
                  rw [hcheck] at pruned
                  exact .inl ⟨(Option.some.inj pruned).symm, rfl⟩
                | bindMount =>
                  rw [hcheck] at pruned
                  exact .inr ⟨(Option.some.inj pruned).symm, rfl⟩
                | clear => simp [hcheck] at pruned
              next => cases pruned

/-- The own events of a pruned entry. -/
lemma pruned_events {name : Bytes} {dType : UInt8} {opening : Opening} {reason : PruneReason}
    (pruned : pruneReason env realPath device name dType opening = some reason)
    (below : DirStream) :
    Leaves reason (events env realPath device (.entry name dType opening below .done)) := by
  rw [events]
  rcases pruned_action pruned with ⟨hreason, haction⟩ | ⟨dev, haction, hcheck⟩
  · rw [haction]
    exact .nothing hreason
  · rw [haction]
    rcases hcheck with ⟨rfl, hcheck⟩ | ⟨rfl, hcheck⟩
    · simp only [hcheck]
      exact .sample (by decide) name
    · simp only [hcheck]
      exact .failure name _

/-- Around a pruned directory the walk is the same with and without it. -/
theorem events_split {entries : DirStream} {pos : Position} {reason : PruneReason}
    (pruned : prunedAt env realPath device entries pos = some reason) :
    ∃ own, Leaves reason own ∧
      events env realPath device entries =
        eventsBefore env realPath device entries pos ++
          (own ++ eventsAfter env realPath device entries pos) ∧
      events env realPath device (removeAt entries pos) =
        eventsBefore env realPath device entries pos ++
          eventsAfter env realPath device entries pos := by
  induction entries generalizing realPath device pos with
  | done => cases pos <;> cases pruned
  | entry name dType opening below rest ihBelow ihRest =>
    cases pos with
    | here => exact ⟨_, pruned_events pruned below, events_entry _ _ _ _ _ _ _ _, rfl⟩
    | next p =>
      obtain ⟨own, leaves, hwith, hwithout⟩ := ihRest pruned
      refine ⟨own, leaves, ?_, ?_⟩
      · rw [events_entry, hwith, eventsBefore, eventsAfter, List.append_assoc]
      · rw [removeAt, events_entry, hwithout, eventsBefore, eventsAfter, List.append_assoc]
    | inside p =>
      rw [prunedAt] at pruned
      simp only [removeAt, events, eventsBefore, eventsAfter]
      cases haction : entryAction env (getDirPath realPath) device name dType opening with
      | descend dev =>
        rw [haction] at pruned
        cases hcheck : pruneCheck env (getDirPath (joinPath realPath name)) with
        | clear =>
          simp only [hcheck] at pruned ⊢
          obtain ⟨own, leaves, hwith, hwithout⟩ := ihBelow pruned
          refine ⟨own.map (Event.below name), leaves.below name, ?_, ?_⟩
          · simp [hwith]
          · simp [hwithout]
        | prunePath => simp [hcheck] at pruned
        | bindMount => simp [hcheck] at pruned
      | skip => simp [haction] at pruned
      | store => simp [haction] at pruned
      | halt stop => simp [haction] at pruned

end Removal

section Comparison

/-- The walk fails before it finds anything or ends in another way. -/
inductive FailsNext : List Event → Prop
  | failed (errMsg : ScanMessage) (es : List Event) : FailsNext (.stopped (.failed errMsg) :: es)
  | entered (name : Bytes) {es : List Event} (next : FailsNext es) :
      FailsNext (.entered name :: es)

/-- A walk fails next exactly if it finds nothing and its outcome is a failure. -/
lemma failsNext_iff (es : List Event) :
    FailsNext es ↔ (∃ errMsg, outcomeOf es = .returned false errMsg) ∧ foundOf es = [] := by
  constructor
  · intro fails
    induction fails with
    | failed errMsg es => exact ⟨⟨errMsg, rfl⟩, rfl⟩
    | entered name next ih => exact ih
  · rintro ⟨hfails, hfound⟩
    induction es with
    | nil => obtain ⟨errMsg, houtcome⟩ := hfails; cases houtcome
    | cons e rest ih =>
      cases e with
      | found directory name => cases hfound
      | entered name => exact .entered name (ih hfails hfound)
      | stopped stop =>
        obtain ⟨errMsg, houtcome⟩ := hfails
        cases stop with
        | failed message => exact .failed message rest
        | exited => cases houtcome
        | crashed fault => cases houtcome

/-- How a scan ends, without the message. -/
inductive Status where
  | returned (status : Bool)
  | exited
  | crashed (fault : Fault)
  deriving DecidableEq

def status : ScanOutcome → Status
  | .returned status _ => .returned status
  | .exited => .exited
  | .crashed fault => .crashed fault

/-- The same status, the same found files, and the same cache to name their paths. -/
def SameScan (a b : ScanOutcome × ScanState) : Prop :=
  status a.1 = status b.1 ∧ a.2.foundFiles = b.2.foundFiles ∧ a.2.cache = b.2.cache

/-- Why the scan from a root prunes the directory at a position. -/
def prunedInScan (env : ScanEnv) (root : Root) (pos : Position) : Option PruneReason :=
  match pruneCheck env (getDirPath root.realPath) with
  | .clear => prunedAt env root.realPath root.device root.entries pos
  | _ => none

/-- The tree without the directory at a position. -/
def deleteAt (root : Root) (pos : Position) : Root :=
  { root with entries := removeAt root.entries pos }

variable {env : ScanEnv} {root : Root}

/-- A scan of a root that is not pruned is a replay of the walk. -/
lemma scan_replay (clear : pruneCheck env (getDirPath root.realPath) = .clear) (st : ScanState) :
    SameScan (scan env (.ok root) st)
      (replay (events env root.realPath root.device root.entries) st) := by
  rw [scan_events clear]
  rcases replay (events env root.realPath root.device root.entries) st with
    ⟨⟨_ | _, errMsg⟩ | _ | fault, st'⟩ <;> exact ⟨rfl, rfl, rfl⟩

lemma sameScan_congr {a a' b b' : ScanOutcome × ScanState} (ha : SameScan a a')
    (hb : SameScan b b') : SameScan a b ↔ SameScan a' b' := by
  simp only [SameScan, ha.1, ha.2.1, ha.2.2, hb.1, hb.2.1, hb.2.2]

/-- Replays are the same if the walks find the same files and end with the same status, and their
numbers of found files tell them apart. -/
lemma sameScan_replay (es fs : List Event) (st : ScanState) :
    (status (outcomeOf es) = status (outcomeOf fs) → foundOf es = foundOf fs →
      SameScan (replay es st) (replay fs st)) ∧
    (SameScan (replay es st) (replay fs st) →
      status (outcomeOf es) = status (outcomeOf fs) ∧
        (foundOf es).length = (foundOf fs).length) := by
  have hes := replay_files es st
  have hfs := replay_files fs st
  simp only [SameScan, replay_outcome]
  constructor
  · intro hstatus hfound
    rw [hfound, ← hfs] at hes
    exact ⟨hstatus, congrArg Prod.fst hes, congrArg Prod.snd hes⟩
  · rintro ⟨hstatus, hfiles, -⟩
    have hlen : (storedFiles (foundOf es) (st.foundFiles, st.cache)).1.length =
        (storedFiles (foundOf fs) (st.foundFiles, st.cache)).1.length := by
      rw [← hes, ← hfs, hfiles]
    rw [storedFiles_length, storedFiles_length] at hlen
    exact ⟨hstatus, Nat.add_left_cancel hlen⟩

/-- The events of the walk before and behind a directory decide whether pruning it makes a
difference. -/
lemma pruned_same_iff {reason : PruneReason} {own : List Event} (leaves : Leaves reason own)
    (before after : List Event) (st : ScanState) :
    SameScan (replay (before ++ (own ++ after)) st) (replay (before ++ after) st) ↔
      (reason = .bindMount → Stops before ∨ FailsNext after) := by
  obtain ⟨hsame, hdiffer⟩ := sameScan_replay (before ++ (own ++ after)) (before ++ after) st
  by_cases hbefore : Stops before
  · refine iff_of_true (hsame ?_ ?_) (fun _ => .inl hbefore)
    · rw [(hidden_after_stop hbefore _).1, (hidden_after_stop hbefore _).1]
    · rw [(hidden_after_stop hbefore _).2, (hidden_after_stop hbefore _).2]
  · simp only [(continues_without_stop hbefore _).1, (continues_without_stop hbefore _).2]
      at hsame hdiffer
    cases leaves with
    | nothing skipped =>
      exact iff_of_true (hsame rfl rfl) (fun h => absurd h skipped)
    | sample skipped name =>
      exact iff_of_true (hsame rfl rfl) (fun h => absurd h skipped)
    | failure name errMsg =>
      have hown : foundOf ([Event.entered name, .stopped (.failed errMsg)] ++ after) = [] := rfl
      have hfailed : status (outcomeOf ([Event.entered name, .stopped (.failed errMsg)] ++ after)) =
          .returned false := rfl
      rw [hown, hfailed, List.append_nil] at hsame hdiffer
      simp only [hbefore, false_or, true_imp_iff, failsNext_iff]
      constructor
      · intro same
        obtain ⟨hstatus, hlen⟩ := hdiffer same
        refine ⟨?_, List.eq_nil_of_length_eq_zero ?_⟩
        · cases houtcome : outcomeOf after with
          | returned result message =>
            rw [houtcome] at hstatus
            cases hstatus
            exact ⟨message, rfl⟩
          | exited => rw [houtcome] at hstatus; cases hstatus
          | crashed fault => rw [houtcome] at hstatus; cases hstatus
        · rw [List.length_append] at hlen
          omega
      · rintro ⟨⟨message, houtcome⟩, hfound⟩
        exact hsame (by rw [houtcome]; rfl) (by rw [hfound, List.append_nil])

end Comparison

/-- Pruning a directory gives the scan of the tree without it, unless it is pruned as a bind mount,
the walk comes to it, and the walk behind it does not run into such a failure anyway before it
finds anything. -/
theorem prune_is_delete_iff (env : ScanEnv) (root : Root) (pos : Position) (reason : PruneReason)
    (pruned : prunedInScan env root pos = some reason) (st : ScanState) :
    SameScan (scan env (.ok root) st) (scan env (.ok (deleteAt root pos)) st) ↔
      (reason = .bindMount →
        Stops (eventsBefore env root.realPath root.device root.entries pos) ∨
          FailsNext (eventsAfter env root.realPath root.device root.entries pos)) := by
  have clear : pruneCheck env (getDirPath root.realPath) = .clear := by
    cases hcheck : pruneCheck env (getDirPath root.realPath) with
    | clear => rfl
    | prunePath => simp [prunedInScan, hcheck] at pruned
    | bindMount => simp [prunedInScan, hcheck] at pruned
  have hpruned : prunedAt env root.realPath root.device root.entries pos = some reason := by
    simpa only [prunedInScan, clear] using pruned
  obtain ⟨own, leaves, hwith, hwithout⟩ := events_split hpruned
  have hdeleted : pruneCheck env (getDirPath (deleteAt root pos).realPath) = .clear := clear
  have hscan := sameScan_congr (scan_replay clear st) (scan_replay hdeleted st)
  rw [hscan, hwith]
  simp only [deleteAt]
  rw [hwithout]
  exact pruned_same_iff leaves _ _ st

section Sample

/-- A root with a directory `mnt` and behind it a tracked file. -/
def mntRoot : Root where
  realPath := text "/"
  device := some 1
  entries := .entry (text "mnt") 4 (.opened (some 1)) .done
    (.entry (text "a.so") 8 .failed .done .done)

def mntIsNamed : ScanEnv where
  conf := { ConfigParser.new with prunenames := [text "mnt"] }
  isBindMount := fun _ => false
  mounts := some []

/-- The name `mnt` is pruned, and the scan is that of the root without it. -/
theorem prune_is_delete_sample :
    SameScan (scan mntIsNamed (.ok mntRoot) (.new none))
      (scan mntIsNamed (.ok (deleteAt mntRoot .here)) (.new none)) :=
  (prune_is_delete_iff mntIsNamed mntRoot .here .pruneName (by decide) (.new none)).mpr
    (by simp)

def mntIsBindMount : ScanEnv where
  conf := { ConfigParser.new with pruneBindMounts := true }
  isBindMount := fun path => path == text "/mnt"
  mounts := some []

/-- The bind mount `/mnt` fails the scan, and `/a.so` behind it is lost. -/
theorem bind_mount_fails_scan :
    prunedInScan mntIsBindMount mntRoot .here = some .bindMount ∧
    ¬ SameScan (scan mntIsBindMount (.ok mntRoot) (.new none))
      (scan mntIsBindMount (.ok (deleteAt mntRoot .here)) (.new none)) := by
  constructor
  · decide
  · rintro ⟨hstatus, -, -⟩
    revert hstatus
    decide

end Sample
end PruneAsDelete
