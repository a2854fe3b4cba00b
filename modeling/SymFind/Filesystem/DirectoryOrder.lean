import SymFind.Filesystem.PathCursor
import SymFind.Lib.LexPrefix

/-!
# The order of directory paths

Paths are compared like the lists of the ranks of their bytes. As the slash has
the least rank, the paths in a directory stand together, right behind the
directory.
-/
namespace DirectoryOrder
open RecordCodec SymbolData PathStrings PathCursor LexPrefix

lemma rank_injective : Function.Injective rank := by
  intro a b h
  rw [rank, rank] at h
  split at h <;> split at h
  next ha hb => rw [ha, hb]
  next => omega
  next => omega
  next => exact UInt8.toNat_inj.mp (Nat.succ.inj h)

lemma dirPathCmp_le_iff (a b : Bytes) : dirPathCmp a b ≤ 0 ↔ a.map rank ≤ b.map rank := by
  constructor
  · intro h
    rcases Int.lt_or_eq_of_le h with hlt | heq
    · exact le_of_lt ((dirPathCmp_neg_iff a b).mp hlt)
    · rw [(dirPathCmp_eq_zero_iff a b).mp heq]
  · intro h
    rcases le_iff_lt_or_eq.mp h with hlt | heq
    · exact Int.le_of_lt ((dirPathCmp_neg_iff a b).mpr hlt)
    · have hsame : a = b := List.map_injective_iff.mpr rank_injective heq
      exact Int.le_of_eq ((dirPathCmp_eq_zero_iff a b).mpr hsame)

/-- The sign changes when the paths change places. -/
lemma dirPathCmp_pos_iff (a b : Bytes) : 0 < dirPathCmp a b ↔ dirPathCmp b a < 0 := by
  rw [dirPathCmp_neg_iff, ← not_le, dirPathCmp_le_iff, not_le]

lemma dirPathCmp_sign (a b : Bytes) : (dirPathCmp a b).sign = -(dirPathCmp b a).sign := by
  rcases Int.lt_trichotomy (dirPathCmp a b) 0 with hlt | heq | hgt
  · rw [Int.sign_eq_neg_one_of_neg hlt,
      Int.sign_eq_one_of_pos ((dirPathCmp_pos_iff b a).mpr hlt)]
  · have hsame := (dirPathCmp_eq_zero_iff a b).mp heq
    rw [hsame, (dirPathCmp_eq_zero_iff b b).mpr rfl]
    rfl
  · rw [Int.sign_eq_one_of_pos hgt, Int.sign_eq_neg_one_of_neg ((dirPathCmp_pos_iff a b).mp hgt)]
    rfl

lemma dirPathCmp_trans {a b c : Bytes} (hab : dirPathCmp a b ≤ 0) (hbc : dirPathCmp b c ≤ 0) :
    dirPathCmp a c ≤ 0 := by
  rw [dirPathCmp_le_iff] at *
  exact le_trans hab hbc

/-- The directory itself, or a path that goes on behind it with a slash. -/
def InSubtree (d path : Bytes) : Prop := path = d ∨ d ++ [slash] <+: path

variable {d p q r : Bytes}

lemma InSubtree.ranks (h : InSubtree d p) : d.map rank <+: p.map rank := by
  rcases h with rfl | h
  · exact List.prefix_refl _
  · exact ((List.prefix_append d [slash]).trans h).map rank

/-- No byte but the slash has the least rank. -/
lemma eq_slash_of_rank {c : UInt8} (h : rank c ≤ rank slash) : c = slash :=
  rank_injective (Nat.le_zero.mp h)

lemma prefix_of_ranks (h : d.map rank <+: q.map rank) : d <+: q := by
  have htake := List.prefix_iff_eq_take.mp h
  rw [List.length_map, ← List.map_take] at htake
  exact List.prefix_iff_eq_take.mpr (List.map_injective_iff.mpr rank_injective htake)

/-- A subtree has no gap. -/
lemma subtree_between (hp : InSubtree d p) (hr : InSubtree d r) (hpq : dirPathCmp p q ≤ 0)
    (hqr : dirPathCmp q r ≤ 0) : InSubtree d q := by
  rw [dirPathCmp_le_iff] at hpq hqr
  obtain ⟨rest, rfl⟩ := prefix_of_ranks (prefix_between hp.ranks hr.ranks hpq hqr)
  cases rest with
  | nil => exact .inl (List.append_nil d)
  | cons c rest =>
    -- what goes on behind the directory comes after it, so the last path goes on with a slash
    rcases hr with rfl | ⟨more, rfl⟩
    · have hend : r.map rank ++ (c :: rest).map rank ≤ r.map rank ++ [] := by
        simpa using hqr
      exact absurd ((append_le_append_iff _).mp hend) (not_le.mpr (List.nil_lt_cons _ _))
    · rw [List.append_assoc, List.map_append, List.map_append, append_le_append_iff] at hqr
      have hfirst : rank c ≤ rank slash := by
        rcases cons_le_cons.mp hqr with hlt | ⟨heq, -⟩
        · exact Nat.le_of_lt hlt
        · exact Nat.le_of_eq heq
      rw [eq_slash_of_rank hfirst]
      exact .inr ⟨rest, by rw [List.append_assoc]; rfl⟩

/-- What is in a directory comes before what goes on behind its name in another way. -/
lemma slash_first (d x y : Bytes) {c : UInt8} (other : c ≠ slash) :
    dirPathCmp (d ++ slash :: x) (d ++ c :: y) < 0 := by
  rw [dirPathCmp_neg_iff, ← not_le, List.map_append, List.map_append, append_le_append_iff]
  intro h
  rcases cons_le_cons.mp h with hlt | ⟨heq, -⟩
  · exact other (eq_slash_of_rank (Nat.le_of_lt hlt))
  · exact other (rank_injective heq)

/-- `dir_path_cmp` is a total order, the sort of it is a sorted permutation, the subtree of every
directory is contiguous, and the contents of a directory come before its siblings that begin
with its name. -/
theorem directory_order :
    ((∀ a b, dirPathCmp a b = 0 ↔ a = b) ∧
      (∀ a b, (dirPathCmp a b).sign = -(dirPathCmp b a).sign) ∧
      ∀ a b c, dirPathCmp a b ≤ 0 → dirPathCmp b c ≤ 0 → dirPathCmp a c ≤ 0) ∧
    (∀ list, (stringListDirPathSort list).Perm list ∧
      (stringListDirPathSort list).Pairwise (fun a b => dirPathCmp a b ≤ 0)) ∧
    (∀ d p q r, dirPathCmp p q ≤ 0 → dirPathCmp q r ≤ 0 → InSubtree d p → InSubtree d r →
      InSubtree d q) ∧
    ∀ d x y c, c ≠ slash → dirPathCmp (d ++ slash :: x) (d ++ c :: y) < 0 := by
  refine ⟨⟨dirPathCmp_eq_zero_iff, dirPathCmp_sign, fun _ _ _ => dirPathCmp_trans⟩, ?_, ?_, ?_⟩
  · intro list
    refine ⟨List.mergeSort_perm _ _, (sort_sorted list).imp ?_⟩
    intro a b hnot
    rw [dirPathCmp_le_iff, ← not_lt, ← dirPathCmp_neg_iff]
    exact hnot
  · exact fun d p q r hpq hqr hp hr => subtree_between hp hr hpq hqr
  · exact fun d x y c other => slash_first d x y other

/-- The subtree of `/a` comes before `/a-b`, although `-` is a smaller byte than the slash. -/
example : dirPathCmp (text "/a/b") (text "/a-b") < 0 ∧
    dirPathCmp (text "/a") (text "/a/b") < 0 := by decide

end DirectoryOrder
