import SymFind.Lib.StepWalk

/-!
# Loops with explicit fuel

One pass of a loop either leaves with a result or goes on with a new state.
`none` only ever means that the fuel ran out, so a result under some fuel is
the result under any larger fuel.
-/
namespace BoundedLoop
open StepWalk
universe u v
variable {σ : Type u} {ρ : Type v}

def run (body : σ → ρ ⊕ σ) : Nat → σ → Option ρ
  | 0, _ => none
  | fuel + 1, s => match body s with
    | .inl r => some r
    | .inr s' => run body fuel s'

/-- A chain of continuing passes followed by a leaving one. -/
theorem run_of_chain (body : σ → ρ ⊕ σ) (chain : Nat → σ) (r : ρ) (d : Nat)
    (steps : ∀ e, e < d → body (chain e) = .inr (chain (e + 1)))
    (leaves : body (chain d) = .inl r) (fuel : Nat) (enough : d < fuel) :
    run body fuel (chain 0) = some r := by
  induction d generalizing chain fuel with
  | zero =>
    cases fuel with
    | zero => omega
    | succ fuel => simp [run, leaves]
  | succ d ih =>
    cases fuel with
    | zero => omega
    | succ fuel =>
      have first := steps 0 (by omega)
      simp only [run, first]
      exact ih (fun e => chain (e + 1)) (fun e he => steps (e + 1) (by omega)) leaves fuel
        (by omega)

/-- More fuel leaves a result as it is. -/
theorem run_mono {body : σ → ρ ⊕ σ} {fuel : Nat} {s : σ} {r : ρ} (h : run body fuel s = some r)
    {more : Nat} (hle : fuel ≤ more) : run body more s = some r := by
  induction fuel generalizing s more with
  | zero => cases h
  | succ fuel ih =>
    obtain ⟨more, rfl⟩ : ∃ n, more = n + 1 := ⟨more - 1, by omega⟩
    simp only [run] at h ⊢
    cases hpass : body s with
    | inl r' => simpa [hpass] using h
    | inr s' =>
      rw [hpass] at h
      exact ih h (by omega)

/-- The result does not depend on the fuel. -/
lemma run_unique {body : σ → ρ ⊕ σ} {fuel fuel' : Nat} {s : σ} {r r' : ρ}
    (h : run body fuel s = some r) (h' : run body fuel' s = some r') : r = r' := by
  have hmax := run_mono h (Nat.le_max_left fuel fuel')
  rw [run_mono h' (Nat.le_max_right fuel fuel')] at hmax
  exact (Option.some.inj hmax).symm

/-- A loop that goes on wherever it comes does not end. -/
theorem run_none {body : σ → ρ ⊕ σ} (inv : σ → Prop)
    (goes_on : ∀ s, inv s → ∃ s', body s = .inr s' ∧ inv s') {fuel : Nat} {s : σ} (start : inv s) :
    run body fuel s = none := by
  induction fuel generalizing s with
  | zero => rfl
  | succ fuel ih =>
    obtain ⟨s', hpass, hinv⟩ := goes_on s start
    simp only [run, hpass]
    exact ih hinv

/-- The passes that do not leave, as steps of a walk. -/
def goesOn (body : σ → ρ ⊕ σ) (s : σ) : Option σ :=
  match body s with
  | .inl _ => none
  | .inr s' => some s'

lemma goesOn_of_inl {body : σ → ρ ⊕ σ} {s : σ} {r : ρ} (h : body s = .inl r) :
    goesOn body s = none := by
  simp [goesOn, h]

lemma goesOn_of_inr {body : σ → ρ ⊕ σ} {s s' : σ} (h : body s = .inr s') :
    goesOn body s = some s' := by
  simp [goesOn, h]

/-- A result under some fuel is what the pass returns at which the walk stops. -/
theorem run_eq_some_iff (body : σ → ρ ⊕ σ) (fuel : Nat) (s : σ) (r : ρ) :
    run body fuel s = some r ↔
      ∃ d, d < fuel ∧ ∃ t, walk (goesOn body) d s = some t ∧ body t = .inl r := by
  induction fuel generalizing s with
  | zero => simp [run]
  | succ fuel ih =>
    cases hbody : body s with
    | inl r' =>
      constructor
      · intro hrun
        have hr : r' = r := by simpa [run, hbody] using hrun
        exact ⟨0, Nat.succ_pos fuel, s, rfl, hr ▸ hbody⟩
      · rintro ⟨d, _, t, hwalk, ht⟩
        cases d with
        | zero =>
          obtain rfl : s = t := Option.some.inj hwalk
          simp [run, ht]
        | succ d => simp [walk, goesOn_of_inl hbody] at hwalk
    | inr s' =>
      have hfirst : run body (fuel + 1) s = run body fuel s' := by simp [run, hbody]
      rw [hfirst, ih s']
      constructor
      · rintro ⟨d, hd, t, hwalk, ht⟩
        refine ⟨d + 1, Nat.succ_lt_succ hd, t, ?_, ht⟩
        simpa [walk, goesOn_of_inr hbody] using hwalk
      · rintro ⟨d, hd, t, hwalk, ht⟩
        cases d with
        | zero =>
          obtain rfl : s = t := Option.some.inj hwalk
          rw [hbody] at ht
          cases ht
        | succ d =>
          refine ⟨d, Nat.lt_of_succ_lt_succ hd, t, ?_, ht⟩
          simpa [walk, goesOn_of_inr hbody] using hwalk

end BoundedLoop
