import Mathlib.Algebra.BigOperators.Group.List.Basic
import Mathlib.Algebra.GroupWithZero.Nat
import Mathlib.Logic.Relation
import Mathlib.Tactic.Lemma

/-!
# Interleavings of parties that share nothing

Each party is a deterministic machine; in every step of the whole, one of them
takes a step. What each party will have computed when it stops does not depend
on the order of the steps, and every order can be continued until all have
stopped.
-/
namespace Interleaving
universe u v
variable {σ : Type u} {ρ : Type v} {next : σ → Option σ}

/-- One of the parties takes a step. -/
inductive Step (next : σ → Option σ) : List σ → List σ → Prop
  | party {before after : List σ} {s s' : σ} (moves : next s = some s') :
      Step next (before ++ s :: after) (before ++ s' :: after)

abbrev Steps (next : σ → Option σ) : List σ → List σ → Prop :=
  Relation.ReflTransGen (Step next)

/-- No party can take a step. -/
def Stopped (next : σ → Option σ) (ws : List σ) : Prop := ∀ s ∈ ws, next s = none

/-- An invariant of each party, and a value that its steps do not change. -/
structure Keeps (next : σ → Option σ) (inv : σ → Prop) (result : σ → ρ) : Prop where
  stays : ∀ s s', inv s → next s = some s' → inv s'
  same : ∀ s s', inv s → next s = some s' → result s' = result s

variable {inv : σ → Prop} {result : σ → ρ}

lemma Step.keeps (keeps : Keeps next inv result) {ws ws' : List σ} (step : Step next ws ws')
    (start : ∀ s ∈ ws, inv s) : (∀ s ∈ ws', inv s) ∧ ws'.map result = ws.map result := by
  obtain ⟨moves⟩ := step
  rename_i before after s s'
  have hs : inv s := start s (by simp)
  constructor
  · intro t ht
    rw [List.mem_append, List.mem_cons] at ht
    rcases ht with ht | rfl | ht
    · exact start t (List.mem_append_left _ ht)
    · exact keeps.stays s t hs moves
    · exact start t (List.mem_append_right _ (List.mem_cons_of_mem _ ht))
  · rw [List.map_append, List.map_append, List.map_cons, List.map_cons,
      keeps.same s s' hs moves]

/-- Whatever the order of the steps, the parties' results are those of the start. -/
theorem Steps.keeps (keeps : Keeps next inv result) {ws ws' : List σ} (steps : Steps next ws ws')
    (start : ∀ s ∈ ws, inv s) : (∀ s ∈ ws', inv s) ∧ ws'.map result = ws.map result := by
  induction steps with
  | refl => exact ⟨start, rfl⟩
  | tail _ step ih =>
    obtain ⟨hinv, hresult⟩ := step.keeps keeps ih.1
    exact ⟨hinv, hresult.trans ih.2⟩

/-- Every step uses up work, so no interleaving goes on for ever. -/
lemma Step.lowers {measure : σ → Nat} (lowers : ∀ s s', next s = some s' → measure s' < measure s)
    {ws ws' : List σ} (step : Step next ws ws') :
    (ws'.map measure).sum < (ws.map measure).sum := by
  obtain ⟨moves⟩ := step
  rename_i before after s s'
  have hlt := lowers s s' moves
  simp only [List.map_append, List.map_cons, List.sum_append, List.sum_cons]
  omega

/-- Any state can be continued until all parties have stopped. -/
theorem exists_stopped {measure : σ → Nat}
    (lowers : ∀ s s', next s = some s' → measure s' < measure s) (ws : List σ) :
    ∃ ws', Steps next ws ws' ∧ Stopped next ws' := by
  induction h : (ws.map measure).sum using Nat.strongRecOn generalizing ws with
  | ind work ih =>
    by_cases stopped : Stopped next ws
    · exact ⟨ws, .refl, stopped⟩
    · obtain ⟨s, hs, hmoves⟩ : ∃ s ∈ ws, next s ≠ none := by
        simpa [Stopped] using stopped
      obtain ⟨s', moves⟩ := Option.ne_none_iff_exists'.mp hmoves
      obtain ⟨before, after, rfl⟩ := List.append_of_mem hs
      have step : Step next (before ++ s :: after) (before ++ s' :: after) := .party moves
      obtain ⟨ws', steps, done⟩ := ih _ (h ▸ step.lowers lowers) _ rfl
      exact ⟨ws', .head step steps, done⟩

end Interleaving
