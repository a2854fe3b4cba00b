import SymFind.Filesystem.TreeScan
import SymFind.Lib.DescriptorTable

/-!
# The descriptors of a scan

While `scan_fs` is in a directory, its stream and those of all directories above
it are open. Each wrapper closes its stream when it goes out of scope, also when
the scan fails. A directory that is opened when no number is free counts as one
that cannot be opened, and the scan goes on without it. Looking up a filesystem
takes one number more, without which none counts as excluded. The list of bind
mounts is not read again while no mount changes.
-/
namespace DirHandles
open RecordCodec SymbolData Machine Config Compression PathCache PathStrings TreeScan
open DescriptorTable

section Model

/-- A scan with the descriptors of its process and the log of its calls. -/
structure HandleState where
  scan : ScanState
  table : Table
  calls : List Call

def HandleState.log (st : HandleState) (call : Call) : HandleState :=
  { st with calls := st.calls ++ [call] }

/-- `openat`: it fails on its own or because no number is free. -/
def HandleState.openat (st : HandleState) (via : Option Nat) (opening : Opening) :
    Option Nat × HandleState :=
  if opening = .failed then (none, st.log (.refused via))
  else
    match st.table.openNext with
    | none => (none, st.log (.refused via))
    | some (fd, table) => (some fd, { st.log (.opened via fd) with table := table })

def HandleState.close (st : HandleState) (fd : Nat) : HandleState :=
  { st.log (.closed fd) with table := st.table.close fd }

/-- Whether the filesystem of an opened entry is looked up in the table of mounts. -/
def asksMounts (device : Option Device) : Opening → Bool
  | .opened none => true
  | .opened (some dev) => device.any (· != dev)
  | _ => false

/-- What an entry is checked by: `setmntent` opens the table of mounts and `endmntent` closes it;
without a free number there is no table. -/
def HandleState.lookUp (st : HandleState) (env : ScanEnv) (device : Option Device)
    (opening : Opening) : ScanEnv × HandleState :=
  if asksMounts device opening then
    match st.openat none (if env.mounts.isNone then .failed else .opened none) with
    | (none, st) => ({ env with mounts := none }, st)
    | (some fd, st) => (env, (st.log (.read fd)).close fd)
  else (env, st)

/-- The entries that a pass of the loop opens: directories and entries of unknown type. -/
def reachesOpen (env : ScanEnv) (name : Bytes) (dType : UInt8) : Bool :=
  ! isDots name && name ≠ [] &&
    (entryTypeOf dType = .unknown || entryTypeOf dType = .directory) &&
    ! env.conf.prunenames.contains name

/-- `scan_fs` from its loop on, over the stream of the descriptor `fd`. -/
def handlesLoop (env : ScanEnv) (realPath : Bytes) (device : Option Device) (fd : Nat) :
    DirStream → HandleState → ScanOutcome × HandleState
  | .done, st => (.returned true (.text []), st.log (.read fd))
  | .entry name dType opening below rest, st =>
    let st := st.log (.read fd)
    if reachesOpen env name dType then
      match st.openat (some fd) opening with
      | (none, st) => handlesLoop env realPath device fd rest st
      | (some child, st) =>
        let (checks, st) := st.lookUp env device opening
        match entryAction checks (getDirPath realPath) device name dType opening with
        -- `get_dp_from_fd` closes a descriptor that gives no stream
        | .halt stop => (stop.outcome, if opening = .noStream then st.close child else st)
        | .descend dev =>
          let st := { st with scan := st.scan.addPathNameSample name }
          let (outcome, st) := match pruneCheck env (getDirPath (joinPath realPath name)) with
            | .prunePath => (ScanOutcome.returned true prunePathMessage, st)
            | .bindMount => (ScanOutcome.returned false bindMountMessage, st)
            | .clear => handlesLoop env (joinPath realPath name) (some dev) child below st
          match outcome with
          | .returned true _ => handlesLoop env realPath device fd rest (st.close child)
          | .returned false _ => (.returned false (failedToScan name), st.close child)
          | .exited => (.exited, st)
          | .crashed fault => (.crashed fault, st)
        | _ => handlesLoop env realPath device fd rest (st.close child)
    else if entryAction env (getDirPath realPath) device name dType opening = .store then
      handlesLoop env realPath device fd rest
        { st with scan := st.scan.storeFile (pathPlusSlash (getDirPath realPath)) name }
    else handlesLoop env realPath device fd rest st

def emfile : Nat := 24

/-- `scan` with its descriptors; the root is opened from the working directory. -/
def scanHandles (env : ScanEnv) (root : Except Nat Root) (st : HandleState) :
    ScanOutcome × HandleState :=
  match root with
  | .error errno => (.returned false (.system errno), st.log (.refused none))
  | .ok root =>
    match st.openat none (.opened root.device) with
    | (none, st) => (.returned false (.system emfile), st)
    | (some fd, st) =>
      let (outcome, st) := match pruneCheck env (getDirPath root.realPath) with
        | .prunePath => (ScanOutcome.returned true prunePathMessage, st)
        | .bindMount => (ScanOutcome.returned false bindMountMessage, st)
        | .clear => handlesLoop env root.realPath root.device fd root.entries st
      match outcome with
      | .returned true _ => (.returned true (.text []), st.close fd)
      | .returned false errMsg => (.returned false errMsg, st.close fd)
      | .exited => (.exited, st)
      | .crashed fault => (.crashed fault, st)

end Model

section Entries

variable {env : ScanEnv} {dirPath name : Bytes} {device : Option Device} {dType : UInt8}

/-- What cannot be opened is skipped. -/
lemma entryAction_failed (reaches : reachesOpen env name dType = true) :
    entryAction env dirPath device name dType .failed = .skip := by
  rw [reachesOpen] at reaches
  simp only [Bool.and_eq_true, Bool.not_eq_true', decide_eq_true_eq, Bool.or_eq_true] at reaches
  obtain ⟨⟨⟨hdots, hname⟩, htype⟩, hnamed⟩ := reaches
  have hreg : entryTypeOf dType ≠ .regFile := by
    rintro h
    rcases htype with h' | h' <;> rw [h] at h' <;> cases h'
  have hkind : ¬ (entryTypeOf dType ≠ .unknown ∧ entryTypeOf dType ≠ .directory) := by
    rintro ⟨h, h'⟩
    exact htype.elim h h'
  rw [entryAction, hdots, hnamed, if_neg Bool.false_ne_true, if_neg hname, if_neg hreg,
    if_neg hkind, if_neg Bool.false_ne_true]

lemma entryAction_not_descend (dev : Device) :
    entryAction env dirPath device name dType .failed ≠ .descend dev := by
  rw [entryAction]
  grind

/-- An entry that is opened is not stored. -/
lemma entryAction_ne_store (reaches : reachesOpen env name dType = true) (opening : Opening) :
    entryAction env dirPath device name dType opening ≠ .store := by
  rw [reachesOpen] at reaches
  simp only [Bool.and_eq_true, Bool.not_eq_true', decide_eq_true_eq, Bool.or_eq_true] at reaches
  obtain ⟨⟨⟨hdots, hname⟩, htype⟩, hnamed⟩ := reaches
  have hreg : entryTypeOf dType ≠ .regFile := by
    rintro h
    rcases htype with h' | h' <;> rw [h] at h' <;> cases h'
  rw [entryAction, hdots, if_neg Bool.false_ne_true, if_neg hname, if_neg hreg]
  grind

/-- An entry that is not opened is stored or skipped, whatever opening it would give. -/
lemma entryAction_unopened (stays : reachesOpen env name dType = false) (opening : Opening) :
    (entryAction env dirPath device name dType opening = .store ∨
      entryAction env dirPath device name dType opening = .skip) ∧
    entryAction env dirPath device name dType .failed =
      entryAction env dirPath device name dType opening := by
  rw [entryAction, entryAction]
  by_cases hdots : isDots name = true
  · rw [if_pos hdots, if_pos hdots]
    exact ⟨.inr rfl, rfl⟩
  rw [if_neg hdots, if_neg hdots]
  by_cases hname : name = []
  · rw [if_pos hname, if_pos hname]
    exact ⟨.inr rfl, rfl⟩
  rw [if_neg hname, if_neg hname]
  by_cases hreg : entryTypeOf dType = .regFile
  · rw [if_pos hreg, if_pos hreg]
    split
    · exact ⟨.inl rfl, rfl⟩
    · exact ⟨.inr rfl, rfl⟩
  rw [if_neg hreg, if_neg hreg]
  by_cases hkind : entryTypeOf dType ≠ .unknown ∧ entryTypeOf dType ≠ .directory
  · rw [if_pos hkind, if_pos hkind]
    exact ⟨.inr rfl, rfl⟩
  have hnamed : env.conf.prunenames.contains name = true := by
    rw [reachesOpen] at stays
    by_contra hnot
    rw [not_and_or, not_not, not_not] at hkind
    rw [Bool.not_eq_true] at hdots hnot
    rw [hnot, hdots, decide_eq_true hname, ← Bool.decide_or, decide_eq_true hkind] at stays
    cases stays
  rw [if_neg hkind, if_neg hkind, if_pos hnamed, if_pos hnamed]
  exact ⟨.inr rfl, rfl⟩

/-- Without a question the table of mounts has no part in the checks. -/
lemma entryAction_unasked {opening : Opening} (unasked : asksMounts device opening = false) :
    entryAction { env with mounts := none } dirPath device name dType opening =
      entryAction env dirPath device name dType opening := by
  rw [entryAction, entryAction]
  rcases opening with _ | _ | (_ | dev)
  · rfl
  · rfl
  · cases unasked
  · rcases device with _ | parentDev
    · rfl
    · obtain rfl : parentDev = dev := by simpa [asksMounts] using unasked
      simp

/-- The surroundings as they are seen with `k` free descriptors. -/
def envWithin (env : ScanEnv) : Nat → ScanEnv
  | 0 => { env with mounts := none }
  | _ + 1 => env

/-- One pass of the loop when `k` descriptors are free before it. -/
def actionWithin (env : ScanEnv) (k : Nat) (dirPath : Bytes) (device : Option Device) (name : Bytes)
    (dType : UInt8) (opening : Opening) : EntryAction :=
  match k with
  | 0 => entryAction env dirPath device name dType .failed
  | k + 1 => entryAction (envWithin env k) dirPath device name dType opening

lemma reachesOpen_within (k : Nat) :
    reachesOpen (envWithin env k) name dType = reachesOpen env name dType := by
  cases k <;> rfl

/-- What is not opened is stored or skipped, whatever opening it would give. -/
lemma actionWithin_unopened (stays : reachesOpen env name dType = false) (k : Nat)
    (opening : Opening) :
    (entryAction env dirPath device name dType opening = .store ∨
      entryAction env dirPath device name dType opening = .skip) ∧
    actionWithin env k dirPath device name dType opening =
      entryAction env dirPath device name dType opening := by
  obtain ⟨haction, hfailed⟩ := @entryAction_unopened env dirPath name device dType stays opening
  refine ⟨haction, ?_⟩
  cases k with
  | zero => exact hfailed
  | succ k =>
    have hstays : reachesOpen (envWithin env k) name dType = false := by
      rw [reachesOpen_within]
      exact stays
    obtain ⟨-, hwithin⟩ :=
      @entryAction_unopened (envWithin env k) dirPath name device dType hstays opening
    rw [actionWithin, ← hwithin, ← hfailed]
    cases k with
    | zero => exact entryAction_unasked rfl
    | succ k => rfl

/-- Without a free number, or when it would not open anyway, an entry is passed over. -/
lemma actionWithin_refused (reaches : reachesOpen env name dType = true) {k : Nat}
    {opening : Opening} (refused : opening = .failed ∨ k = 0) :
    actionWithin env k dirPath device name dType opening = .skip := by
  cases k with
  | zero =>
    rw [actionWithin]
    exact entryAction_failed reaches
  | succ k =>
    obtain rfl := refused.resolve_right (Nat.succ_ne_zero k)
    rw [actionWithin]
    exact entryAction_failed ((reachesOpen_within k).trans reaches)

end Entries

section Release

/-- From one state to the next: `more` is open in addition, and the calls are nested. -/
structure Leaves (held : List Nat) (st st' : HandleState) (more : List Nat) : Prop where
  table : st'.table = { st.table with inUse := more ++ st.table.inUse }
  calls : ∃ calls, st'.calls = st.calls ++ calls ∧ Nested held calls (more ++ held)

variable {held more more' : List Nat} {st st' st'' : HandleState}

lemma Leaves.refl (held : List Nat) (st : HandleState) : Leaves held st st [] :=
  ⟨rfl, [], (List.append_nil _).symm, .nil held⟩

lemma Leaves.trans (first : Leaves held st st' more)
    (second : Leaves (more ++ held) st' st'' more') : Leaves held st st'' (more' ++ more) := by
  obtain ⟨calls, hcalls, hnested⟩ := first.calls
  obtain ⟨calls', hcalls', hnested'⟩ := second.calls
  refine ⟨?_, calls ++ calls', ?_, ?_⟩
  · rw [second.table, first.table, List.append_assoc]
  · rw [hcalls', hcalls, List.append_assoc]
  · rw [List.append_assoc]
    exact hnested.append hnested'

lemma Leaves.log {call : Call} (h : follow held call = some held) :
    Leaves held st (st.log call) [] :=
  ⟨rfl, [call], rfl, .single h⟩

/-- The held descriptors stay in use. -/
lemma Leaves.known (leaves : Leaves held st st' more) (known : ∀ n ∈ held, n ∈ st.table.inUse) :
    ∀ n ∈ more ++ held, n ∈ st'.table.inUse := by
  intro n hn
  rw [leaves.table, List.mem_append]
  exact (List.mem_append.mp hn).imp_right (known n)

lemma Leaves.free (leaves : Leaves held st st' []) :
    st'.table.free.length = st.table.free.length := by
  rw [leaves.table]
  rfl

/-- Changing what the scan found opens and closes nothing. -/
lemma Leaves.withScan (leaves : Leaves held st st' more) (scan : ScanState) :
    Leaves held st { st' with scan := scan } more :=
  ⟨leaves.table, leaves.calls⟩

/-- Closing the last descriptor undoes its opening. -/
lemma Leaves.close {fd : Nat} (leaves : Leaves held st st' [fd]) :
    Leaves held st (st'.close fd) [] := by
  obtain ⟨calls, hcalls, hnested⟩ := leaves.calls
  refine ⟨?_, calls ++ [.closed fd], ?_, ?_⟩
  · change st'.table.close fd = _
    rw [leaves.table]
    exact st.table.close_cons fd
  · rw [HandleState.close, HandleState.log, hcalls, List.append_assoc]
  · exact hnested.append (.single (follow_closed fd held))

/-- The two results of opening. -/
lemma openat_cases (known : ∀ n ∈ held, n ∈ st.table.inUse) {via : Option Nat}
    (above : Above held via) (opening : Opening) :
    (∃ st', st.openat via opening = (none, st') ∧ Leaves held st st' [] ∧
      st'.scan = st.scan ∧ (opening = .failed ∨ st.table.free.length = 0)) ∨
    (∃ fd st', st.openat via opening = (some fd, st') ∧ Leaves held st st' [fd] ∧
      st'.scan = st.scan ∧ opening ≠ .failed ∧
      st'.table.free.length + 1 = st.table.free.length) := by
  rw [HandleState.openat]
  by_cases hfailed : opening = .failed
  · rw [if_pos hfailed]
    exact .inl ⟨_, rfl, .log (follow_refused above), rfl, .inl hfailed⟩
  rw [if_neg hfailed]
  cases hopen : st.table.openNext with
  | none =>
    exact .inl ⟨_, rfl, .log (follow_refused above), rfl, .inr (Table.openNext_eq_none.mp hopen)⟩
  | some opened =>
    obtain ⟨fd, table⟩ := opened
    obtain ⟨-, hfresh, htable, hfree⟩ := Table.openNext_spec hopen
    refine .inr ⟨fd, _, rfl, ⟨htable, _, rfl, .single ?_⟩, rfl, hfailed, hfree⟩
    exact follow_opened above (fun h => hfresh (known fd h))

/-- Looking up a filesystem leaves nothing open, and the entry is checked by what the free
descriptors allow. -/
lemma lookUp_spec (env : ScanEnv) (known : ∀ n ∈ held, n ∈ st.table.inUse)
    (device : Option Device) (opening : Opening) :
    ∃ checks st', st.lookUp env device opening = (checks, st') ∧ Leaves held st st' [] ∧
      st'.scan = st.scan ∧ ∀ dirPath name dType,
        entryAction checks dirPath device name dType opening =
          entryAction (envWithin env st.table.free.length) dirPath device name dType opening := by
  rw [HandleState.lookUp]
  cases hasks : asksMounts device opening with
  | false =>
    refine ⟨_, _, rfl, .refl held st, rfl, fun dirPath name dType => ?_⟩
    cases st.table.free.length with
    | zero => exact (entryAction_unasked hasks).symm
    | succ k => rfl
  | true =>
    rw [if_pos rfl]
    rcases @openat_cases held st known none (.inl rfl)
      (if env.mounts.isNone then .failed else .opened none) with
      ⟨st', hopen, hleaves, hscan, hrefused⟩ | ⟨fd, st', hopen, hleaves, hscan, -, hfree⟩
    · rw [hopen]
      refine ⟨_, _, rfl, hleaves, hscan, fun dirPath name dType => ?_⟩
      cases hk : st.table.free.length with
      | zero => rfl
      | succ k =>
        -- only a table that cannot be opened is refused then
        have hnone : env.mounts = none := by
          by_contra hmounts
          rcases hrefused with h | h
          · rw [if_neg (by simpa using hmounts)] at h
            cases h
          · omega
        rw [envWithin, ← hnone]
    · rw [hopen]
      refine ⟨_, _, rfl, ?_, hscan, fun dirPath name dType => ?_⟩
      · have hread : Leaves (fd :: held) st' (st'.log (.read fd)) [] := .log (follow_read fd held)
        exact (hleaves.trans hread).close
      · rw [← hfree]
        rfl

/-- A pass that opens its entry is refused, or checks it with one descriptor more. -/
lemma pass_cases (env : ScanEnv) {fd : Nat} (known : ∀ n ∈ fd :: held, n ∈ st.table.inUse)
    (device : Option Device) (opening : Opening) :
    (∃ st', st.openat (some fd) opening = (none, st') ∧ Leaves (fd :: held) st st' [] ∧
      st'.scan = st.scan ∧ (opening = .failed ∨ st.table.free.length = 0)) ∨
    (∃ child st' checks st'', st.openat (some fd) opening = (some child, st') ∧
      st'.lookUp env device opening = (checks, st'') ∧ Leaves (fd :: held) st st'' [child] ∧
      st''.scan = st.scan ∧ st.table.free.length = st''.table.free.length + 1 ∧
      ∀ dirPath name dType, entryAction checks dirPath device name dType opening =
        actionWithin env st.table.free.length dirPath device name dType opening) := by
  rcases openat_cases known (.inr rfl) opening with
    hrefused | ⟨child, st', hopen, hleaves, hscan, -, hfree⟩
  · exact .inl hrefused
  · obtain ⟨checks, st'', hlook, hlooked, hscan', hchecks⟩ :=
      lookUp_spec env (hleaves.known known) device opening
    have hk : st.table.free.length = st''.table.free.length + 1 := by
      rw [hlooked.free]
      exact hfree.symm
    refine .inr ⟨child, st', checks, st'', hopen, hlook, hleaves.trans hlooked,
      hscan'.trans hscan, hk, fun dirPath name dType => ?_⟩
    rw [hchecks, hk, actionWithin, hlooked.free]

end Release

section Loop

/-- The events of a walk that starts with `k` free descriptors. -/
def eventsWithin (env : ScanEnv) (k : Nat) (realPath : Bytes) (device : Option Device) :
    DirStream → List Event
  | .done => []
  | .entry name dType opening below rest =>
    match actionWithin env k (getDirPath realPath) device name dType opening with
    | .skip => eventsWithin env k realPath device rest
    | .store =>
      .found (pathPlusSlash (getDirPath realPath)) name :: eventsWithin env k realPath device rest
    | .halt stop => .stopped stop :: eventsWithin env k realPath device rest
    | .descend dev =>
      .entered name :: (match pruneCheck env (getDirPath (joinPath realPath name)) with
        | .prunePath => []
        | .bindMount => [Event.stopped (.failed bindMountMessage)]
        | .clear => eventsWithin env (k - 1) (joinPath realPath name) (some dev) below).map
            (Event.below name) ++
          eventsWithin env k realPath device rest

variable {env : ScanEnv}

/-- The checks of an entry end the process or nothing. -/
lemma entryAction_halt {dirPath name : Bytes} {device : Option Device} {dType : UInt8}
    {opening : Opening} {stop : Stop}
    (halts : entryAction env dirPath device name dType opening = .halt stop) (status : Bool)
    (errMsg : ScanMessage) : stop.outcome ≠ .returned status errMsg := by
  have hstop : stop = .exited ∨ stop = .crashed .nullPointer := by
    rw [entryAction] at halts
    grind
  rcases hstop with rfl | rfl <;> exact fun h => by cases h

/-- A result that returns has closed what it opened; one that ends the process leaves the
directories open in which it was. -/
def Settles (held : List Nat) (st : HandleState) (result : ScanOutcome × HandleState) : Prop :=
  ∃ more, Leaves held st result.2 more ∧
    ∀ status errMsg, result.1 = .returned status errMsg → more = []

variable {held : List Nat} {st st' : HandleState}

lemma Settles.after {result : ScanOutcome × HandleState} (first : Leaves held st st' [])
    (settles : Settles held st' result) : Settles held st result := by
  obtain ⟨more, leaves, closed⟩ := settles
  refine ⟨more, ?_, closed⟩
  have h := first.trans leaves
  rwa [List.append_nil] at h

lemma handlesLoop_settles (realPath : Bytes) (device : Option Device) (fd : Nat)
    (entries : DirStream) (held : List Nat) (st : HandleState)
    (known : ∀ n ∈ fd :: held, n ∈ st.table.inUse) :
    Settles (fd :: held) st (handlesLoop env realPath device fd entries st) := by
  induction entries generalizing realPath device fd held st with
  | done => exact ⟨[], .log (follow_read fd held), fun _ _ _ => rfl⟩
  | entry name dType opening below rest ihBelow ihRest =>
    have hread : Leaves (fd :: held) st (st.log (.read fd)) [] := .log (follow_read fd held)
    have goOn : ∀ st', Leaves (fd :: held) st st' [] →
        Settles (fd :: held) st (handlesLoop env realPath device fd rest st') :=
      fun st' leaves => .after leaves (ihRest realPath device fd held st' (leaves.known known))
    rw [handlesLoop]
    by_cases reaches : reachesOpen env name dType = true
    · rw [if_pos reaches]
      rcases pass_cases env (hread.known known) device opening with
        ⟨st', hopen, hleaves, -⟩ | ⟨child, _, checks, st', hopen, hlook, hleaves, -⟩
      · simp only [hopen]
        exact goOn st' (hread.trans hleaves)
      · simp only [hopen, hlook]
        have hopened : Leaves (fd :: held) st st' [child] := hread.trans hleaves
        cases haction : entryAction checks (getDirPath realPath) device name dType opening with
        | skip => exact goOn _ hopened.close
        | store => exact goOn _ hopened.close
        | halt stop =>
          have hends : ∀ more : List Nat, ∀ status errMsg,
              stop.outcome = .returned status errMsg → more = [] :=
            fun _ status errMsg h => absurd h (entryAction_halt haction status errMsg)
          by_cases hstream : opening = .noStream
          · simp only [if_pos hstream]
            exact ⟨[], hopened.close, hends []⟩
          · simp only [if_neg hstream]
            exact ⟨[child], hopened, hends [child]⟩
        | descend dev =>
          simp only
          cases pruneCheck env (getDirPath (joinPath realPath name)) with
          | prunePath => exact goOn _ (hopened.withScan _).close
          | bindMount => exact ⟨[], (hopened.withScan _).close, fun _ _ _ => rfl⟩
          | clear =>
            have hentered := hopened.withScan (st'.scan.addPathNameSample name)
            obtain ⟨more, hinside, hclosed⟩ := ihBelow (joinPath realPath name) (some dev) child
              (fd :: held) _ (hentered.known known)
            simp only
            revert hinside hclosed
            rcases handlesLoop env (joinPath realPath name) (some dev) child below
              { st' with scan := st'.scan.addPathNameSample name } with ⟨outcome, st''⟩
            intro hinside hclosed
            have hwhole := hentered.trans hinside
            rcases outcome with ⟨_ | _, errMsg⟩ | _ | fault
            · cases hclosed false errMsg rfl
              exact ⟨[], hwhole.close, fun _ _ _ => rfl⟩
            · cases hclosed true errMsg rfl
              exact goOn _ hwhole.close
            · exact ⟨_, hwhole, fun _ _ h => by cases h⟩
            · exact ⟨_, hwhole, fun _ _ h => by cases h⟩
    · rw [if_neg reaches]
      split
      · exact goOn _ (hread.withScan _)
      · exact goOn _ hread

/-- The outcome of a result with what its scan found. -/
def found (result : ScanOutcome × HandleState) : ScanOutcome × ScanState :=
  (result.1, result.2.scan)

/-- With its descriptors the loop carries out the events that they allow. -/
theorem handlesLoop_replay (realPath : Bytes) (device : Option Device) (fd : Nat)
    (entries : DirStream) (held : List Nat) (st : HandleState)
    (known : ∀ n ∈ fd :: held, n ∈ st.table.inUse) :
    found (handlesLoop env realPath device fd entries st) =
      replay (eventsWithin env st.table.free.length realPath device entries) st.scan := by
  induction entries generalizing realPath device fd held st with
  | done => rfl
  | entry name dType opening below rest ihBelow ihRest =>
    have hread : Leaves (fd :: held) st (st.log (.read fd)) [] := .log (follow_read fd held)
    have goOn : ∀ st', Leaves (fd :: held) st st' [] →
        found (handlesLoop env realPath device fd rest st') =
          replay (eventsWithin env st.table.free.length realPath device rest) st'.scan := by
      intro st' leaves
      rw [ihRest realPath device fd held st' (leaves.known known), leaves.free]
    rw [handlesLoop, eventsWithin]
    by_cases reaches : reachesOpen env name dType = true
    · rw [if_pos reaches]
      rcases pass_cases env (hread.known known) device opening with
        ⟨st', hopen, hleaves, hscan, hrefused⟩ |
        ⟨child, _, checks, st', hopen, hlook, hleaves, hscan, hk, hchecks⟩
      · simp only [hopen]
        have hsame : st'.scan = st.scan := hscan
        have hskip : actionWithin env st.table.free.length (getDirPath realPath) device name dType
            opening = .skip := actionWithin_refused reaches hrefused
        rw [goOn st' (hread.trans hleaves), hsame, hskip]
      · have hopened : Leaves (fd :: held) st st' [child] := hread.trans hleaves
        have hsame : st'.scan = st.scan := hscan
        have hdown : st.table.free.length = st'.table.free.length + 1 := hk
        have haction : entryAction checks (getDirPath realPath) device name dType opening =
            actionWithin env st.table.free.length (getDirPath realPath) device name dType
              opening := hchecks _ _ _
        simp only [hopen, hlook, haction]
        cases hcase : actionWithin env st.table.free.length (getDirPath realPath) device name dType
            opening with
        | skip =>
          rw [← hsame]
          exact goOn _ hopened.close
        | store =>
          rw [hdown, actionWithin] at hcase
          exact absurd hcase (entryAction_ne_store ((reachesOpen_within _).trans reaches) opening)
        | halt stop =>
          simp only [replay, ← hsame]
          split <;> rfl
        | descend dev =>
          simp only [List.cons_append, replay, replay_append, replay_below, ← hsame]
          cases pruneCheck env (getDirPath (joinPath realPath name)) with
          | prunePath => exact goOn _ (hopened.withScan _).close
          | bindMount => rfl
          | clear =>
            have hentered := hopened.withScan (st'.scan.addPathNameSample name)
            have hknown := hentered.known known
            obtain ⟨more, hinside, hclosed⟩ := @handlesLoop_settles env (joinPath realPath name)
              (some dev) child below (fd :: held) _ hknown
            have hbelow := ihBelow (joinPath realPath name) (some dev) child (fd :: held) _ hknown
            have hless : st.table.free.length - 1 = st'.table.free.length := by omega
            simp only [hless] at hbelow ⊢
            rw [← hbelow]
            revert hinside hclosed
            rcases handlesLoop env (joinPath realPath name) (some dev) child below
              { st' with scan := st'.scan.addPathNameSample name } with ⟨outcome, st''⟩
            intro hinside hclosed
            have hall := hentered.trans hinside
            rcases outcome with ⟨_ | _, errMsg⟩ | _ | fault
            · rfl
            · cases hclosed true errMsg rfl
              exact goOn _ hall.close
            · rfl
            · rfl
    · rw [if_neg reaches]
      obtain ⟨haction, hwithin⟩ := @actionWithin_unopened env (getDirPath realPath) name device
        dType (Bool.not_eq_true _ ▸ reaches) st.table.free.length opening
      rw [hwithin]
      rcases haction with h | h
      · rw [h, if_pos rfl]
        exact goOn _ (hread.withScan _)
      · rw [h, if_neg EntryAction.noConfusion]
        exact goOn _ hread

end Loop

section Scan

/-- The scan of a process with `n` free descriptors, by the events that they allow. -/
def scanWithin (env : ScanEnv) (n : Nat) (root : Except Nat Root) (st : ScanState) :
    ScanOutcome × ScanState :=
  match n, root with
  | _, .error errno => (.returned false (.system errno), st)
  | 0, .ok _ => (.returned false (.system emfile), st)
  | k + 1, .ok root =>
    match pruneCheck env (getDirPath root.realPath) with
    | .prunePath => (.returned true (.text []), st)
    | .bindMount => (.returned false bindMountMessage, st)
    | .clear =>
      match replay (eventsWithin env k root.realPath root.device root.entries) st with
      | (.returned true _, st) => (.returned true (.text []), st)
      | result => result

variable {env : ScanEnv} {st : HandleState}

lemma openat_root (st : HandleState) (device : Option Device) :
    (∃ st', st.openat none (.opened device) = (none, st') ∧ Leaves [] st st' [] ∧
      st'.scan = st.scan ∧ st.table.free.length = 0) ∨
    (∃ fd st', st.openat none (.opened device) = (some fd, st') ∧ Leaves [] st st' [fd] ∧
      st'.scan = st.scan ∧ st'.table.free.length + 1 = st.table.free.length) := by
  rcases @openat_cases [] st (fun n h => by cases h) none (.inl rfl) (.opened device) with
    ⟨st', hopen, hleaves, hscan, h⟩ | ⟨fd, st', hopen, hleaves, hscan, -, hfree⟩
  · exact .inl ⟨st', hopen, hleaves, hscan, h.resolve_left (fun h => by cases h)⟩
  · exact .inr ⟨fd, st', hopen, hleaves, hscan, hfree⟩

lemma scanHandles_spec (env : ScanEnv) (root : Except Nat Root) (st : HandleState) :
    Settles [] st (scanHandles env root st) ∧
      found (scanHandles env root st) = scanWithin env st.table.free.length root st.scan := by
  cases root with
  | error errno =>
    refine ⟨⟨[], .log (follow_refused (.inl rfl)), fun _ _ _ => rfl⟩, ?_⟩
    cases st.table.free.length <;> rfl
  | ok root =>
    rw [scanHandles]
    rcases openat_root st root.device with
      ⟨st', hopen, hleaves, hscan, hfree⟩ | ⟨fd, st', hopen, hleaves, hscan, hfree⟩
    · simp only [hopen]
      refine ⟨⟨[], hleaves, fun _ _ _ => rfl⟩, ?_⟩
      rw [hfree, found, hscan]
      rfl
    · simp only [hopen]
      rw [← hfree, scanWithin, ← hscan]
      cases pruneCheck env (getDirPath root.realPath) with
      | prunePath => exact ⟨⟨[], hleaves.close, fun _ _ _ => rfl⟩, rfl⟩
      | bindMount => exact ⟨⟨[], hleaves.close, fun _ _ _ => rfl⟩, rfl⟩
      | clear =>
        have hknown := hleaves.known (fun n h => by cases h)
        obtain ⟨more, hinside, hclosed⟩ := @handlesLoop_settles env root.realPath root.device fd
          root.entries [] _ hknown
        have hfound := @handlesLoop_replay env root.realPath root.device fd root.entries [] _
          hknown
        simp only at hfound ⊢
        rw [← hfound]
        revert hinside hclosed
        rcases handlesLoop env root.realPath root.device fd root.entries st' with ⟨outcome, st''⟩
        intro hinside hclosed
        have hwhole := hleaves.trans hinside
        rcases outcome with ⟨_ | _, errMsg⟩ | _ | fault
        · cases hclosed false errMsg rfl
          exact ⟨⟨[], hwhole.close, fun _ _ _ => rfl⟩, rfl⟩
        · cases hclosed true errMsg rfl
          exact ⟨⟨[], hwhole.close, fun _ _ _ => rfl⟩, rfl⟩
        · exact ⟨⟨_, hwhole, fun _ _ h => by cases h⟩, rfl⟩
        · exact ⟨⟨_, hwhole, fun _ _ h => by cases h⟩, rfl⟩

end Scan

end DirHandles
