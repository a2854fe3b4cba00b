import Mathlib.Data.List.Basic
import Mathlib.Logic.Function.Basic
import Mathlib.Tactic.Lemma

/-!
# Streams with a limit for each kind

Items of several kinds go by, and of each kind only so many pass. What passes is
in the order of the stream, and of each kind it is the first ones.
-/
namespace CappedStream
universe u v
variable {κ : Type u} {α : Type v} [DecidableEq κ] (limit : κ → Nat)

/-- What passes behind `seen` items of each kind. -/
def passed : (κ → Nat) → List (κ × α) → List (κ × α)
  | _, [] => []
  | seen, (kind, item) :: rest =>
    let later := passed (Function.update seen kind (seen kind + 1)) rest
    if seen kind < limit kind then (kind, item) :: later else later

/-- The items of one kind. -/
def ofKind (kind : κ) (items : List (κ × α)) : List (κ × α) :=
  items.filter (fun item => item.1 = kind)

lemma passed_sublist (seen : κ → Nat) (items : List (κ × α)) :
    (passed limit seen items).Sublist items := by
  induction items generalizing seen with
  | nil => exact List.Sublist.refl []
  | cons item rest ih =>
    rw [passed]
    split
    · exact (ih _).cons_cons item
    · exact (ih _).cons item

lemma ofKind_cons_same (kind : κ) (item : α) (rest : List (κ × α)) :
    ofKind kind ((kind, item) :: rest) = (kind, item) :: ofKind kind rest := by
  simp [ofKind]

lemma ofKind_cons_other {kind other : κ} (h : other ≠ kind) (item : α) (rest : List (κ × α)) :
    ofKind kind ((other, item) :: rest) = ofKind kind rest := by
  simp [ofKind, h]

/-- Of each kind the first items pass, as many as are left of its limit. -/
theorem passed_ofKind (seen : κ → Nat) (items : List (κ × α)) (kind : κ) :
    ofKind kind (passed limit seen items) =
      (ofKind kind items).take (limit kind - seen kind) := by
  induction items generalizing seen with
  | nil => simp [passed, ofKind]
  | cons item rest ih =>
    obtain ⟨own, item⟩ := item
    have hrest := ih (Function.update seen own (seen own + 1))
    by_cases hkind : own = kind
    · subst hkind
      rw [Function.update_self] at hrest
      rw [ofKind_cons_same]
      by_cases hroom : seen own < limit own
      · obtain ⟨left, hleft⟩ : ∃ left, limit own - seen own = left + 1 :=
          ⟨limit own - seen own - 1, by omega⟩
        have hnext : limit own - (seen own + 1) = left := by omega
        rw [hnext] at hrest
        simp only [passed, if_pos hroom, ofKind_cons_same, hrest, hleft, List.take_succ_cons]
      · have hnone : limit own - seen own = 0 := by omega
        have hnext : limit own - (seen own + 1) = 0 := by omega
        rw [hnext] at hrest
        simp only [passed, if_neg hroom, hrest, hnone, List.take_zero]
    · rw [Function.update_of_ne (fun h => hkind h.symm)] at hrest
      rw [ofKind_cons_other hkind, ← hrest]
      simp only [passed]
      split
      · exact ofKind_cons_other hkind _ _
      · rfl

end CappedStream
