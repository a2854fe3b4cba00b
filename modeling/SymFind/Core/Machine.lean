import SymFind.Lib.BoundedLoop
import Mathlib.Tactic.Lemma
import Mathlib.Tactic.Ring

/-!
# What C++ leaves open

A computation may end in a fault: an access outside a buffer, or a loop that
does not end. Iteration over an unordered map may visit the entries in any
order, so a model of such a loop takes the order as a parameter.
-/
namespace Machine

inductive Fault where
  | outOfBounds
  | diverged
  | nullPointer
  deriving DecidableEq

/-- A loop whose passes may fault; running out of fuel is divergence. -/
def runLoop {σ ρ : Type} (body : σ → Except Fault ρ ⊕ σ) (fuel : Nat) (s : σ) : Except Fault ρ :=
  match BoundedLoop.run body fuel s with
  | some r => r
  | none => .error .diverged

lemma runLoop_of_chain {σ ρ : Type} (body : σ → Except Fault ρ ⊕ σ) (chain : Nat → σ)
    (r : Except Fault ρ) (d : Nat) (steps : ∀ e, e < d → body (chain e) = .inr (chain (e + 1)))
    (leaves : body (chain d) = .inl r) (fuel : Nat) (enough : d < fuel) :
    runLoop body fuel (chain 0) = r := by
  rw [runLoop, BoundedLoop.run_of_chain body chain r d steps leaves fuel enough]

/-- One way to iterate over an unordered container. -/
structure IterationOrder (α : Type) where
  arrange : List α → List α
  perm : ∀ l, (arrange l).Perm l

/-- The order in which the entries were inserted. -/
def IterationOrder.insertion (α : Type) : IterationOrder α := ⟨id, fun _ => List.Perm.refl _⟩

/-- `std::countr_zero` at a given width. -/
def countrZero : Nat → Nat → Nat
  | 0, _ => 0
  | w + 1, n => if n % 2 = 1 then 0 else countrZero w (n / 2) + 1

lemma countrZero_two_pow {w k : Nat} (h : k < w) : countrZero w (2 ^ k) = k := by
  induction k generalizing w with
  | zero =>
    cases w with
    | zero => omega
    | succ w => simp [countrZero]
  | succ k ih =>
    cases w with
    | zero => omega
    | succ w =>
      have heven : 2 ^ (k + 1) % 2 ≠ 1 := by rw [Nat.pow_succ]; omega
      have hhalf : 2 ^ (k + 1) / 2 = 2 ^ k := by rw [Nat.pow_succ]; omega
      rw [countrZero, if_neg heven, hhalf, ih (by omega)]

end Machine
