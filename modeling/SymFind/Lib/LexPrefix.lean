import Mathlib.Data.List.Lex
import Mathlib.Order.Lattice
import Mathlib.Tactic.Lemma

/-!
# Prefixes in the lexicographic order

What lies between two extensions of a list extends it as well, and lists with a
common front are compared behind it.
-/
namespace LexPrefix
universe u
variable {α : Type u} [LinearOrder α]

lemma cons_le_cons {x y : α} {p q : List α} :
    x :: p ≤ y :: q ↔ x < y ∨ x = y ∧ p ≤ q := by
  rw [← not_lt, List.cons_lt_cons_iff, not_or, not_lt, not_and, not_lt, le_iff_lt_or_eq]
  constructor
  · rintro ⟨hlt | heq, hrest⟩
    · exact .inl hlt
    · exact .inr ⟨heq, hrest heq.symm⟩
  · rintro (hlt | ⟨heq, hrest⟩)
    · exact ⟨.inl hlt, fun h => absurd h (ne_of_gt hlt)⟩
    · exact ⟨.inr heq, fun _ => hrest⟩

/-- The extensions of a list have no gap. -/
theorem prefix_between {d p q r : List α} (hp : d <+: p) (hr : d <+: r) (hpq : p ≤ q)
    (hqr : q ≤ r) : d <+: q := by
  induction d generalizing p q r with
  | nil => exact List.nil_prefix
  | cons x d ih =>
    obtain ⟨p, rfl⟩ := hp
    obtain ⟨r, rfl⟩ := hr
    cases q with
    | nil => exact absurd hpq (not_le.mpr (List.nil_lt_cons x (d ++ p)))
    | cons y q =>
      rcases cons_le_cons.mp hpq with hlt | ⟨rfl, hlow⟩
      · rcases cons_le_cons.mp hqr with hgt | ⟨rfl, -⟩
        · exact absurd hlt (lt_asymm hgt)
        · exact absurd hlt (lt_irrefl _)
      · rcases cons_le_cons.mp hqr with hgt | ⟨-, hhigh⟩
        · exact absurd hgt (lt_irrefl _)
        · exact List.cons_prefix_cons.mpr
            ⟨rfl, ih (List.prefix_append d p) (List.prefix_append d r) hlow hhigh⟩

/-- Behind a common front the rest decides. -/
lemma append_le_append_iff (d : List α) {p q : List α} : d ++ p ≤ d ++ q ↔ p ≤ q := by
  induction d with
  | nil => exact Iff.rfl
  | cons x d ih => simp [cons_le_cons, ih]

end LexPrefix
