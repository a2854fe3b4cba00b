import Mathlib.Data.List.Induction
import Mathlib.Tactic.Lemma

/-!
# Runs with their history

A partial step takes a state and an event to the next state, if the event is possible
there. A run is the list of its events, the oldest first; what it says about its history
is shown by adding one event at the end.
-/
namespace EventRun
universe u v
variable {σ : Type u} {ε : Type v} {next : σ → ε → Option σ}

/-- The state behind the events; `none` when one of them was not possible. -/
def run (next : σ → ε → Option σ) (s : σ) (events : List ε) : Option σ := events.foldlM next s

@[simp] lemma run_nil (s : σ) : run next s [] = some s := rfl

@[simp] lemma run_cons (s : σ) (e : ε) (events : List ε) :
    run next s (e :: events) = (next s e).bind (run next · events) := List.foldlM_cons

lemma run_snoc {s s' : σ} {e : ε} {events : List ε} :
    run next s (events ++ [e]) = some s' ↔
      ∃ between, run next s events = some between ∧ next between e = some s' := by
  simp [run, List.foldlM_append, Option.bind_eq_some_iff]

/-- What each event keeps of a state and its history holds behind every run. -/
theorem run_induction {P : List ε → σ → Prop} {start : σ} (initial : P [] start)
    (step : ∀ events s e s', P events s → next s e = some s' → P (events ++ [e]) s')
    {events : List ε} {s : σ} (ran : run next start events = some s) : P events s := by
  induction events using List.reverseRecOn generalizing s with
  | nil =>
    cases ran
    exact initial
  | append_singleton events e ih =>
    obtain ⟨between, hbetween, hstep⟩ := run_snoc.mp ran
    exact step events between e s (ih hbetween) hstep

/-- An event of a longer history is one of the shorter one, or the new one. -/
lemma history_cases {events before after : List ε} {e x : ε}
    (h : events ++ [e] = before ++ x :: after) :
    (∃ rest, after = rest ++ [e] ∧ events = before ++ x :: rest) ∨ (after = [] ∧ x = e) := by
  rcases List.eq_nil_or_concat after with rfl | ⟨rest, last, rfl⟩
  · exact Or.inr ⟨rfl, (List.cons.inj (List.append_inj' h rfl).2).1.symm⟩
  · rw [List.concat_eq_append, ← List.cons_append, ← List.append_assoc] at h
    obtain ⟨hevents, hlast⟩ := List.append_inj' h rfl
    cases hlast
    exact Or.inl ⟨rest, List.concat_eq_append, hevents⟩

end EventRun
