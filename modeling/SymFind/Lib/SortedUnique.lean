import Mathlib.Data.List.Sort
import Mathlib.Tactic.Lemma

/-!
# Sorting a list and erasing its repetitions

The idiom of sorting and then erasing equal neighbours turns a list into the
strictly increasing list of its elements. A strictly increasing list is left
as it is.
-/
namespace SortedUnique
universe u
variable {α : Type u}

section Definitions
variable [LE α] [DecidableLE α] [DecidableEq α]

def sort (l : List α) : List α := l.insertionSort (· ≤ ·)

/-- Keep the first of every group of equal neighbours. -/
def unique : List α → List α
  | [] => []
  | [a] => [a]
  | a :: b :: rest => if a = b then unique (b :: rest) else a :: unique (b :: rest)

def sortUnique (l : List α) : List α := unique (sort l)

omit [LE α] [DecidableLE α] in
@[simp] lemma mem_unique (l : List α) (x : α) : x ∈ unique l ↔ x ∈ l := by
  induction l using unique.induct with
  | case1 => rfl
  | case2 a => rfl
  | case3 b rest ih => simpa [unique] using ih
  | case4 a b rest h ih =>
    rw [unique, if_neg h]
    simp [ih]

omit [DecidableEq α] in
@[simp] lemma mem_sort (l : List α) (x : α) : x ∈ sort l ↔ x ∈ l :=
  (List.perm_insertionSort (· ≤ ·) l).mem_iff

@[simp] theorem mem_sortUnique (l : List α) (x : α) : x ∈ sortUnique l ↔ x ∈ l := by
  rw [sortUnique, mem_unique, mem_sort]

end Definitions

section Strict
variable [LE α] [LT α] [Std.IsLinearOrder α] [Std.LawfulOrderLT α]

omit [Std.IsLinearOrder α] in
lemma strict_nodup {l : List α} (h : l.Pairwise (· < ·)) : l.Nodup :=
  h.imp (fun {a b} (hlt : a < b) (heq : a = b) => Std.lt_irrefl (heq ▸ hlt : b < b))

/-- A strictly increasing list is determined by its members. -/
theorem strict_ext {l m : List α} (hl : l.Pairwise (· < ·)) (hm : m.Pairwise (· < ·))
    (h : ∀ x, x ∈ l ↔ x ∈ m) : l = m := by
  have hperm : l.Perm m := (List.perm_ext_iff_of_nodup (strict_nodup hl) (strict_nodup hm)).mpr h
  refine hperm.eq_of_pairwise ?_ hl hm
  intro a b _ _ hab hba
  exact absurd (Std.lt_trans hab hba) Std.lt_irrefl

lemma unique_strict [DecidableEq α] {l : List α} (h : l.Pairwise (· ≤ ·)) :
    (unique l).Pairwise (· < ·) := by
  induction l using unique.induct with
  | case1 => exact List.Pairwise.nil
  | case2 a => exact List.pairwise_singleton _ a
  | case3 b rest ih =>
    rw [unique, if_pos rfl]
    exact ih (List.pairwise_cons.mp h).2
  | case4 a b rest hne ih =>
    obtain ⟨hle, htail⟩ := List.pairwise_cons.mp h
    rw [unique, if_neg hne]
    refine List.pairwise_cons.mpr ⟨?_, ih htail⟩
    intro x hx
    have hb : a < b := Std.lt_of_le_of_ne (hle b List.mem_cons_self) hne
    rcases List.mem_cons.mp ((mem_unique _ x).mp hx) with rfl | hrest
    · exact hb
    · exact Std.lt_of_lt_of_le hb ((List.pairwise_cons.mp htail).1 x hrest)

variable [DecidableLE α] [DecidableEq α]

theorem sortUnique_strict (l : List α) : (sortUnique l).Pairwise (· < ·) :=
  unique_strict (List.pairwise_insertionSort _ l)

lemma sortUnique_nodup (l : List α) : (sortUnique l).Nodup := strict_nodup (sortUnique_strict l)

theorem sortUnique_of_strict {l : List α} (h : l.Pairwise (· < ·)) : sortUnique l = l :=
  strict_ext (sortUnique_strict l) h (mem_sortUnique l)

end Strict
end SortedUnique
