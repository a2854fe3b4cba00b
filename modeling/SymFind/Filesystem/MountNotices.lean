import SymFind.Filesystem.BindMounts
import SymFind.Lib.EventRun

/-!
# Notices of changed mounts

The poll thread sets a flag whenever the table changes; the scanning thread takes the
flag down before it reads the table again. The steps of a query are events of their own,
and the flag may be set between any two of them.
-/
namespace MountNotices
open RecordCodec Machine Config MountInfo BindMounts EventRun

section Steps

inductive Event where
  /-- The poll thread sets `_mountinfo_updated`. -/
  | setUpdated
  /-- `is_bind_mount` is called and exchanges the flag for false. -/
  | exchange (path : Bytes)
  | startRebuild
  /-- The rebuild returns, having read this table. -/
  | finishRebuild (file : Stream)
  | resetIndex
  | search
  deriving DecidableEq

/-- Where the scanning thread is in a call about a path. -/
inductive Pc where
  | idle
  | mustRebuild (path : Bytes)
  | rebuilding (path : Bytes)
  | rebuilt (path : Bytes)
  | ready (path : Bytes)

structure State where
  bindMount : BindMount
  pc : Pc
  /-- The answers of the calls that are over. -/
  answers : List Bool

def next (conf : ConfigParser) (s : State) : Event → Option State
  | .setUpdated => some { s with bindMount := { s.bindMount with mountinfoUpdated := true } }
  | .exchange path =>
    match s.pc with
    | .idle => some
      { s with
        bindMount := { s.bindMount with mountinfoUpdated := false }
        pc := if s.bindMount.mountinfoUpdated then .mustRebuild path else .ready path }
    | _ => none
  | .startRebuild =>
    match s.pc with
    | .mustRebuild path => some { s with pc := .rebuilding path }
    | _ => none
  | .finishRebuild file =>
    match s.pc, rebuildBindMountPaths conf file s.bindMount with
    | .rebuilding path, .ok bindMount => some { s with bindMount, pc := .rebuilt path }
    | _, _ => none
  | .resetIndex =>
    match s.pc with
    | .rebuilt path =>
      some { s with bindMount := { s.bindMount with bindMountPathsIndex := 0 }, pc := .ready path }
    | _ => none
  | .search =>
    match s.pc with
    | .ready path =>
      let (answer, bindMount) := BindMounts.search s.bindMount path
      some { bindMount, pc := .idle, answers := s.answers ++ [answer] }
    | _ => none

/-- The state when the poll thread starts. -/
def State.start (bindMount : BindMount) : State := ⟨bindMount, .idle, []⟩

/-- The flag, and whether a call is about to rebuild. -/
def State.updated (s : State) : Bool := s.bindMount.mountinfoUpdated

def State.owesRebuild (s : State) : Bool :=
  match s.pc with
  | .mustRebuild _ => true
  | _ => false

end Steps

section Notices

variable {conf : ConfigParser} {events : List Event} {s s' : State}

lemma rebuild_flag {file : Stream} {bindMount after : BindMount}
    (h : rebuildBindMountPaths conf file bindMount = .ok after) :
    after.mountinfoUpdated = bindMount.mountinfoUpdated := by
  rw [rebuildBindMountPaths] at h
  split at h
  · cases h
  · cases h
    rfl
  · cases h
    rfl

lemma init_flag {file : Stream} {bindMount : BindMount}
    (h : initBindMount conf file = .ok bindMount) : bindMount.mountinfoUpdated = false := by
  rw [initBindMount] at h
  split at h
  · exact rebuild_flag h
  · cases h
    rfl

/-- What an event does to the flag and to the rebuild that a call owes. -/
inductive Moves (s s' : State) : Event → Prop where
  | setUpdated (flag : s'.updated = true) (owes : s'.owesRebuild = s.owesRebuild) :
      Moves s s' .setUpdated
  | exchange (path : Bytes) (paid : s.owesRebuild = false) (flag : s'.updated = false)
      (owes : s'.owesRebuild = s.updated) : Moves s s' (.exchange path)
  | startRebuild (owed : s.owesRebuild = true) (flag : s'.updated = s.updated)
      (paid : s'.owesRebuild = false) : Moves s s' .startRebuild
  | other {e : Event} (quiet : e ≠ .setUpdated ∧ e ≠ .startRebuild ∧ ∀ path, e ≠ .exchange path)
      (paid : s.owesRebuild = false) (flag : s'.updated = s.updated)
      (still : s'.owesRebuild = false) : Moves s s' e

lemma moves_of_next {e : Event} (h : next conf s e = some s') : Moves s s' e := by
  obtain ⟨bindMount, pc, answers⟩ := s
  cases e with
  | setUpdated =>
    cases h
    exact .setUpdated rfl rfl
  | exchange path =>
    cases pc with
    | idle =>
      cases h
      refine .exchange path rfl rfl ?_
      obtain ⟨updated, index, paths⟩ := bindMount
      cases updated <;> rfl
    | _ => cases h
  | startRebuild =>
    cases pc with
    | mustRebuild path =>
      cases h
      exact .startRebuild rfl rfl rfl
    | _ => cases h
  | finishRebuild file =>
    cases pc with
    | rebuilding path =>
      cases hrebuild : rebuildBindMountPaths conf file bindMount with
      | error fault =>
        simp only [next, hrebuild] at h
        cases h
      | ok after =>
        simp only [next, hrebuild] at h
        cases h
        exact .other (by simp) rfl (rebuild_flag hrebuild) rfl
    | _ => cases h
  | resetIndex =>
    cases pc with
    | rebuilt path =>
      cases h
      exact .other (by simp) rfl rfl rfl
    | _ => cases h
  | search =>
    cases pc with
    | ready path =>
      cases h
      exact .other (by simp) rfl rfl rfl
    | _ => cases h

def Exchanged (events : List Event) : Prop := ∃ path, .exchange path ∈ events

def rebuilds (events : List Event) : Nat := events.count .startRebuild

def settings (events : List Event) : Nat := events.count .setUpdated

/-- What a history says about the flag and the rebuilds. -/
structure Noticed (events : List Event) (s : State) : Prop where
  /-- A setting that an exchange has followed is followed by a rebuild, or a call owes it. -/
  taken : ∀ before after, events = before ++ .setUpdated :: after → Exchanged after →
    .startRebuild ∈ after ∨ s.owesRebuild = true
  /-- A setting that no exchange has followed is in the flag. -/
  kept : ∀ before after, events = before ++ .setUpdated :: after → ¬ Exchanged after →
    s.updated = true
  /-- Each rebuild, begun or still to come, is paid for by a setting. -/
  few : rebuilds events + s.owesRebuild.toNat + s.updated.toNat ≤ settings events

lemma exchanged_snoc {events : List Event} {e : Event} :
    Exchanged (events ++ [e]) ↔ Exchanged events ∨ ∃ path, e = .exchange path := by
  simp only [Exchanged, List.mem_append, List.mem_singleton, exists_or, eq_comm]

lemma noticed_start {bindMount : BindMount} (quiet : bindMount.mountinfoUpdated = false) :
    Noticed [] (State.start bindMount) where
  taken before after h := absurd h (by simp)
  kept before after h := absurd h (by simp)
  few := by rw [State.updated, State.start, quiet]; exact Nat.le_refl _

lemma taken_step {e : Event} (noticed : Noticed events s) (moves : Moves s s' e)
    (before after : List Event) (hsplit : events ++ [e] = before ++ .setUpdated :: after)
    (exchanged : Exchanged after) : .startRebuild ∈ after ∨ s'.owesRebuild = true := by
  rcases history_cases hsplit with ⟨rest, rfl, hevents⟩ | ⟨rfl, _⟩
  · -- the setting is in the history, and so is the rebuild unless it is owed
    have hrest : Exchanged rest → .startRebuild ∈ rest ++ [e] ∨ s.owesRebuild = true :=
      fun h => (noticed.taken before rest hevents h).imp_left (List.mem_append_left [e])
    rw [exchanged_snoc] at exchanged
    cases moves with
    | setUpdated flag owes =>
      rw [owes]
      exact hrest (exchanged.resolve_right nofun)
    | exchange path paid flag owes =>
      by_cases hbefore : Exchanged rest
      · exact Or.inl ((hrest hbefore).resolve_right (by simp [paid]))
      · exact Or.inr (owes.trans (noticed.kept before rest hevents hbefore))
    | startRebuild => exact Or.inl (List.mem_append_right rest List.mem_cons_self)
    | other quiet paid flag still =>
      have hbefore := exchanged.resolve_right (fun ⟨path, h⟩ => quiet.2.2 path h)
      exact Or.inl ((hrest hbefore).resolve_right (by simp [paid]))
  · obtain ⟨path, hmem⟩ := exchanged
    cases hmem

lemma kept_step {e : Event} (noticed : Noticed events s) (moves : Moves s s' e)
    (before after : List Event) (hsplit : events ++ [e] = before ++ .setUpdated :: after)
    (unexchanged : ¬ Exchanged after) : s'.updated = true := by
  rcases history_cases hsplit with ⟨rest, rfl, hevents⟩ | ⟨_, rfl⟩
  · rw [exchanged_snoc, not_or] at unexchanged
    have hkept := noticed.kept before rest hevents unexchanged.1
    cases moves with
    | setUpdated flag => exact flag
    | exchange path => exact absurd ⟨path, rfl⟩ unexchanged.2
    | startRebuild _ flag => exact flag.trans hkept
    | other _ _ flag => exact flag.trans hkept
  · cases moves with
    | setUpdated flag => exact flag
    | other quiet => exact absurd rfl quiet.1

lemma few_step {e : Event} (noticed : Noticed events s) (moves : Moves s s' e) :
    rebuilds (events ++ [e]) + s'.owesRebuild.toNat + s'.updated.toNat ≤
      settings (events ++ [e]) := by
  have hfew := noticed.few
  rw [rebuilds, settings] at hfew ⊢
  rw [List.count_append, List.count_append, List.count_singleton, List.count_singleton]
  cases moves with
  | setUpdated flag owes =>
    rw [flag, owes]
    simp
    omega
  | exchange path paid flag owes =>
    rw [flag, owes]
    simp
    omega
  | startRebuild owed flag paid =>
    rw [owed] at hfew
    rw [flag, paid]
    simp at hfew ⊢
    omega
  | other quiet paid flag still =>
    rw [paid] at hfew
    rw [flag, still, beq_false_of_ne quiet.1, beq_false_of_ne quiet.2.1]
    exact hfew

/-- One event, of either thread. -/
lemma noticed_step {e : Event} (noticed : Noticed events s) (h : next conf s e = some s') :
    Noticed (events ++ [e]) s' where
  taken := taken_step noticed (moves_of_next h)
  kept := kept_step noticed (moves_of_next h)
  few := few_step noticed (moves_of_next h)

lemma noticed_run {bindMount : BindMount} (quiet : bindMount.mountinfoUpdated = false)
    (ran : run (next conf) (State.start bindMount) events = some s) : Noticed events s :=
  run_induction (noticed_start quiet) (fun _ _ _ _ noticed h => noticed_step noticed h) ran

/-- In every interleaving: when a call gets to its search, a rebuild has begun behind each setting
before its exchange; a setting behind the last exchange is in the flag; and there are no more
rebuilds than settings. -/
theorem no_notice_lost (conf : ConfigParser) (file : Stream) (bindMount : BindMount)
    (opened : initBindMount conf file = .ok bindMount) (events : List Event) (s : State)
    (ran : run (next conf) (State.start bindMount) events = some s) :
    ((∃ path, s.pc = .ready path) → ∀ before after,
        events = before ++ .setUpdated :: after → Exchanged after → .startRebuild ∈ after) ∧
      (∀ before after, events = before ++ .setUpdated :: after → ¬ Exchanged after →
        s.bindMount.mountinfoUpdated = true) ∧
      rebuilds events ≤ settings events := by
  have noticed := noticed_run (init_flag opened) ran
  refine ⟨?_, noticed.kept, ?_⟩
  · rintro ⟨path, hready⟩ before after hsplit exchanged
    have hpaid : s.owesRebuild = false := by rw [State.owesRebuild, hready]
    exact (noticed.taken before after hsplit exchanged).resolve_right (by simp [hpaid])
  · have hfew := noticed.few
    omega

/-- A call with a setting before it and another one while it rebuilds. -/
def disturbedCall (file : Stream) : List Event :=
  [.setUpdated, .exchange [], .startRebuild, .setUpdated, .finishRebuild file, .resetIndex]

theorem no_notice_lost_disturbed :
    Event.startRebuild ∈ (disturbedCall (some boundTable)).tail ∧
      ∃ s, run (next ConfigParser.new) (State.start ⟨false, 0, []⟩)
          (disturbedCall (some boundTable)) = some s ∧ s.bindMount.mountinfoUpdated = true ∧
        rebuilds (disturbedCall (some boundTable)) ≤ 2 := by
  have hrun : run (next ConfigParser.new) (State.start ⟨false, 0, []⟩)
      (disturbedCall (some boundTable)) = some ⟨⟨true, 0, []⟩, .ready [], []⟩ := rfl
  obtain ⟨htaken, hkept, hfew⟩ := no_notice_lost ConfigParser.new (some boundTable) ⟨false, 0, []⟩
    rfl (disturbedCall (some boundTable)) _ hrun
  have hexchanged : Exchanged (disturbedCall (some boundTable)).tail := ⟨[], List.mem_cons_self⟩
  refine ⟨htaken ⟨[], rfl⟩ [] _ rfl hexchanged, _, hrun, ?_, hfew⟩
  refine hkept [.setUpdated, .exchange [], .startRebuild] [.finishRebuild (some boundTable),
    .resetIndex] rfl ?_
  rintro ⟨path, hmem⟩
  simp at hmem

end Notices
end MountNotices
