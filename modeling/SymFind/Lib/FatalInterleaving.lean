import SymFind.Lib.Interleaving

/-!
# Interleavings in which a party may end the whole

The parties share nothing but their process: one of them may fall, and then all
are gone. As long as nobody falls they run as parties that cannot. A party that
will fall keeps the whole from ever being finished.
-/
namespace FatalInterleaving
universe u v
variable {σ : Type u} {ε : Type v}

/-- One of the parties takes a step, or falls and takes the others with it. -/
inductive Step (next : σ → Option (Except ε σ)) : Except ε (List σ) → Except ε (List σ) → Prop
  | party {before after : List σ} {s s' : σ} (moves : next s = some (.ok s')) :
      Step next (.ok (before ++ s :: after)) (.ok (before ++ s' :: after))
  | fatal {before after : List σ} {s : σ} {e : ε} (falls : next s = some (.error e)) :
      Step next (.ok (before ++ s :: after)) (.error e)

abbrev Steps (next : σ → Option (Except ε σ)) : Except ε (List σ) → Except ε (List σ) → Prop :=
  Relation.ReflTransGen (Step next)

/-- Nobody can take a step, or nobody is there. -/
def Over (next : σ → Option (Except ε σ)) : Except ε (List σ) → Prop
  | .error _ => True
  | .ok ws => ∀ s ∈ ws, next s = none

/-- The steps of a party that does not fall. -/
def surviving (next : σ → Option (Except ε σ)) (s : σ) : Option σ :=
  match next s with
  | some (.ok s') => some s'
  | some (.error _) => none
  | none => none

variable {next : σ → Option (Except ε σ)}

lemma surviving_eq_some {s s' : σ} : surviving next s = some s' ↔ next s = some (.ok s') := by
  rw [surviving]
  rcases next s with _ | e | t
  · exact iff_of_false nofun nofun
  · exact iff_of_false nofun nofun
  · simp

/-- A run that is not over is a run of parties that cannot fall. -/
lemma Steps.survived {ws ws' : List σ} (steps : Steps next (.ok ws) (.ok ws')) :
    Interleaving.Steps (surviving next) ws ws' := by
  generalize hstate : (Except.ok ws' : Except ε (List σ)) = state at steps
  induction steps generalizing ws' with
  | refl =>
    cases hstate
    exact .refl
  | tail _ step ih =>
    cases step with
    | party moves =>
      cases hstate
      exact (ih rfl).tail (.party (surviving_eq_some.mpr moves))
    | fatal falls => cases hstate

lemma steps_of_survived {ws ws' : List σ} (steps : Interleaving.Steps (surviving next) ws ws') :
    Steps next (.ok ws) (.ok ws') := by
  induction steps with
  | refl => exact .refl
  | tail _ step ih =>
    obtain ⟨moves⟩ := step
    exact ih.tail (.party (surviving_eq_some.mp moves))

/-- Whoever fell was a party of a state that the run came to. -/
lemma Steps.fallen {ws : List σ} {e : ε} (steps : Steps next (.ok ws) (.error e)) :
    ∃ ws' s, Steps next (.ok ws) (.ok ws') ∧ s ∈ ws' ∧ next s = some (.error e) := by
  cases steps with
  | tail earlier step =>
    cases step with
    | @fatal before after s _ falls => exact ⟨_, s, earlier, by simp, falls⟩

section Invariants

variable {inv doomed : σ → Prop}

/-- What each party keeps, all parties of a state that is reached have. -/
lemma Steps.everyone (stays : ∀ s s', inv s → next s = some (.ok s') → inv s') {ws ws' : List σ}
    (steps : Steps next (.ok ws) (.ok ws')) (start : ∀ s ∈ ws, inv s) : ∀ s ∈ ws', inv s :=
  have keeps : Interleaving.Keeps (surviving next) inv (fun _ => ()) :=
    ⟨fun s s' hs moves => stays s s' hs (surviving_eq_some.mp moves), fun _ _ _ _ => rfl⟩
  (steps.survived.keeps keeps start).1

/-- What some party keeps, some party of a state that is reached has. -/
lemma Steps.someone (stays : ∀ s s', doomed s → next s = some (.ok s') → doomed s')
    {ws ws' : List σ} (steps : Steps next (.ok ws) (.ok ws')) (start : ∃ s ∈ ws, doomed s) :
    ∃ s ∈ ws', doomed s := by
  have hsteps := steps.survived
  clear steps
  induction hsteps with
  | refl => exact start
  | tail _ step ih =>
    obtain ⟨t, ht, hdoomed⟩ := ih
    cases step with
    | @party before after s s' moves =>
      rw [List.mem_append, List.mem_cons] at ht
      rcases ht with ht | rfl | ht
      · exact ⟨t, by simp [ht], hdoomed⟩
      · exact ⟨s', by simp, stays t s' hdoomed (surviving_eq_some.mp moves)⟩
      · exact ⟨t, by simp [ht], hdoomed⟩

end Invariants

/-- Every run can be continued until it is over. -/
theorem exists_over {measure : σ → Nat}
    (lowers : ∀ s s', next s = some (.ok s') → measure s' < measure s) (ws : List σ) :
    ∃ state, Steps next (.ok ws) state ∧ Over next state := by
  obtain ⟨ws', steps, stopped⟩ := Interleaving.exists_stopped
    (fun s s' moves => lowers s s' (surviving_eq_some.mp moves)) ws
  by_cases falls : ∃ s ∈ ws', ∃ e, next s = some (.error e)
  · obtain ⟨s, hs, e, hfalls⟩ := falls
    obtain ⟨before, after, rfl⟩ := List.append_of_mem hs
    exact ⟨.error e, (steps_of_survived steps).tail (.fatal hfalls), trivial⟩
  · refine ⟨.ok ws', steps_of_survived steps, ?_⟩
    intro s hs
    have hstopped := stopped s hs
    rw [surviving] at hstopped
    rcases hnext : next s with _ | e | s'
    · rfl
    · exact absurd ⟨s, hs, e, hnext⟩ falls
    · rw [hnext] at hstopped
      cases hstopped

end FatalInterleaving
