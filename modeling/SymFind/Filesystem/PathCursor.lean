import SymFind.Filesystem.PathStrings
import Mathlib.Data.List.Forall2

/-!
# Searching a sorted path list in turn

The order of paths is the lexicographic order in which `/` is the least byte, so
a hit leaves every larger path ahead of the cursor. A miss leaves nothing ahead.
-/
namespace PathCursor
open RecordCodec SymbolData PathStrings

section Order

/-- `/` before every other byte. -/
def rank (c : UInt8) : Nat := if c = slash then 0 else c.toNat + 1

/-- `dir_path_cmp` puts first what is lexicographically smaller in the ranks. -/
theorem dirPathCmp_neg_iff (a b : Bytes) : dirPathCmp a b < 0 ↔ a.map rank < b.map rank := by
  induction a generalizing b with
  | nil => cases b <;> simp [dirPathCmp]
  | cons x xs ih =>
    cases b with
    | nil => simp [dirPathCmp]
    | cons y ys =>
      rw [dirPathCmp, List.map_cons, List.map_cons, List.cons_lt_cons_iff]
      by_cases hxy : x = y
      · simp [hxy, ih]
      · have hne : x.toNat ≠ y.toNat := fun h => hxy (UInt8.toNat_inj.mp h)
        by_cases hx : x = slash
        · have hy : y ≠ slash := fun h => hxy (hx.trans h.symm)
          simp [rank, hx, hy, Ne.symm hy]
        · by_cases hy : y = slash
          · simp [rank, hx, hy]
          · simp only [rank, if_neg hxy, if_neg hx, if_neg hy]
            omega

lemma dirPathCmp_irrefl (a : Bytes) : ¬ dirPathCmp a a < 0 :=
  fun h => List.lt_irrefl _ ((dirPathCmp_neg_iff a a).mp h)

/-- The sort leaves no entry before a smaller one. -/
lemma sort_sorted (paths : List Bytes) :
    (stringListDirPathSort paths).Pairwise (fun a b => ¬ dirPathCmp b a < 0) := by
  have hsorted : (stringListDirPathSort paths).Pairwise
      (fun a b => decide (¬ dirPathCmp b a < 0) = true) := by
    apply List.pairwise_mergeSort
    · intro a b c hab hbc
      simp only [decide_eq_true_eq, dirPathCmp_neg_iff, List.not_lt] at hab hbc ⊢
      exact List.le_trans hab hbc
    · intro a b
      simp only [Bool.or_eq_true, decide_eq_true_eq, dirPathCmp_neg_iff, List.not_lt]
      exact List.le_total _ _
  exact hsorted.imp of_decide_eq_true

end Order

section Cursor

/-- The answers to searches that pass the same index from call to call. -/
def searchInTurn (list : List Bytes) : Nat → List Bytes → List Bool
  | _, [] => []
  | idx, path :: rest =>
    let (found, idx) := stringListContainsDirPath list idx path
    found :: searchInTurn list idx rest

/-- Each answer says whether its path is in the list. -/
def AnswersExact (list : List Bytes) (idx : Nat) (queries : List Bytes) : Prop :=
  List.Forall₂ (fun path answer => answer = true ↔ path ∈ list) queries
    (searchInTurn list idx queries)

/-- A hit puts the cursor behind the first entry that is the path. -/
lemma scanFrom_hit {path : Bytes} {list : List Bytes} {idx : Nat}
    (hit : (scanFrom path list idx).1 = true) :
    ∃ before after, list = before ++ path :: after ∧
      (scanFrom path list idx).2 = idx + (before.length + 1) := by
  induction list generalizing idx with
  | nil => cases hit
  | cons entry rest ih =>
    rw [scanFrom] at hit ⊢
    by_cases h : dirPathCmp entry path ≠ 0
    · rw [if_pos h] at hit ⊢
      obtain ⟨before, after, rfl, hcursor⟩ := ih hit
      refine ⟨entry :: before, after, rfl, ?_⟩
      rw [hcursor, List.length_cons]
      omega
    · rw [if_neg h]
      have heq := (dirPathCmp_eq_zero_iff entry path).mp (not_not.mp h)
      exact ⟨[], rest, by rw [heq, List.nil_append], rfl⟩

/-- After a hit what is larger than the path is still ahead. -/
lemma ahead_after_hit {list : List Bytes} {idx : Nat} {path : Bytes}
    (sorted : list.Pairwise (fun a b => ¬ dirPathCmp b a < 0))
    (hit : (stringListContainsDirPath list idx path).1 = true) {later : Bytes}
    (larger : dirPathCmp path later < 0) (ahead : later ∈ list.drop idx) :
    later ∈ list.drop (stringListContainsDirPath list idx path).2 := by
  obtain ⟨before, after, hlist, hcursor⟩ := scanFrom_hit hit
  have hdrop : list.drop (stringListContainsDirPath list idx path).2 = after := by
    rw [stringListContainsDirPath, hcursor, ← List.drop_drop, hlist]
    simp
  have hsorted := sorted.sublist (List.drop_sublist idx list)
  rw [hlist, List.pairwise_append] at hsorted
  rw [hdrop]
  rw [hlist, List.mem_append, List.mem_cons] at ahead
  rcases ahead with hbefore | rfl | hafter
  · exact absurd larger (hsorted.2.2 later hbefore path List.mem_cons_self)
  · exact absurd larger (dirPathCmp_irrefl later)
  · exact hafter

/-- With the cursor at the end every answer is no. -/
lemma searchInTurn_end {list : List Bytes} {idx : Nat} (atEnd : list.drop idx = [])
    (queries : List Bytes) : searchInTurn list idx queries = queries.map (fun _ => false) := by
  induction queries with
  | nil => rfl
  | cons path rest ih =>
    rw [searchInTurn, stringListContainsDirPath, atEnd, scanFrom]
    simp only [ih, List.map_cons]

/-- While every query in the list is ahead of the cursor, the answers are exact if no miss comes
before a query in the list. -/
lemma answersExact_iff {list : List Bytes}
    (sorted : list.Pairwise (fun a b => ¬ dirPathCmp b a < 0)) {queries : List Bytes}
    (increasing : queries.Pairwise (fun a b => dirPathCmp a b < 0)) {idx : Nat}
    (ahead : ∀ path ∈ queries, path ∈ list → path ∈ list.drop idx) :
    AnswersExact list idx queries ↔
      queries.Pairwise (fun earlier later => later ∈ list → earlier ∈ list) := by
  induction queries generalizing idx with
  | nil => simp [AnswersExact, searchInTurn]
  | cons path rest ih =>
    obtain ⟨hlarger, hrest⟩ := List.pairwise_cons.mp increasing
    have hfound : (stringListContainsDirPath list idx path).1 = true ↔ path ∈ list :=
      (scanFrom_iff path _ idx).trans
        ⟨List.mem_of_mem_drop, ahead path List.mem_cons_self⟩
    have hsplit : AnswersExact list idx (path :: rest) ↔
        AnswersExact list (stringListContainsDirPath list idx path).2 rest := by
      rw [AnswersExact, searchInTurn, List.forall₂_cons, and_iff_right hfound, AnswersExact]
    rw [hsplit, List.pairwise_cons]
    by_cases hmem : path ∈ list
    · have hahead : ∀ later ∈ rest, later ∈ list →
          later ∈ list.drop (stringListContainsDirPath list idx path).2 := fun later hlater hin =>
        ahead_after_hit sorted (hfound.mpr hmem) (hlarger later hlater)
          (ahead later (List.mem_cons_of_mem _ hlater) hin)
      rw [ih hrest hahead, and_iff_right (fun _ _ _ => hmem)]
    · have hmiss : (stringListContainsDirPath list idx path).1 = false :=
        Bool.eq_false_iff.mpr (fun h => hmem (hfound.mp h))
      rw [AnswersExact, searchInTurn_end (end_after_miss hmiss), List.forall₂_map_right_iff,
        List.forall₂_same]
      simp only [Bool.false_eq_true, false_iff, hmem, imp_false]
      constructor
      · intro hnone
        exact ⟨hnone, List.Pairwise.imp_of_mem
          (fun {_ later} _ hlater _ hin => absurd hin (hnone later hlater)) hrest⟩
      · exact And.left

/-- For a sorted list and increasing queries each answer is exact if and only if no query in the
list comes after one that is not. -/
theorem answers_exact_iff (paths : List Bytes) {queries : List Bytes}
    (increasing : queries.Pairwise (fun a b => dirPathCmp a b < 0)) :
    AnswersExact (stringListDirPathSort paths) 0 queries ↔
      queries.Pairwise (fun earlier later =>
        later ∈ stringListDirPathSort paths → earlier ∈ stringListDirPathSort paths) :=
  answersExact_iff (sort_sorted paths) increasing (fun _ _ hin => hin)

/-- The facts asked for hold of these queries. -/
theorem answers_exact_iff_sample :
    AnswersExact (stringListDirPathSort [text "/b", text "/a"]) 0
        [text "/a", text "/b", text "/c"] ↔
      [text "/a", text "/b", text "/c"].Pairwise (fun earlier later =>
        later ∈ stringListDirPathSort [text "/b", text "/a"] →
          earlier ∈ stringListDirPathSort [text "/b", text "/a"]) :=
  answers_exact_iff _ (by decide)

/-- The search for `/a` moves the cursor past `/b`. -/
theorem found_path_missed :
    [text "/a", text "/b"].Pairwise (fun a b => dirPathCmp a b < 0) ∧
      ¬ AnswersExact (stringListDirPathSort [text "/b"]) 0 [text "/a", text "/b"] := by
  have hsort : stringListDirPathSort [text "/b"] = [text "/b"] := List.mergeSort_singleton _
  rw [hsort, AnswersExact]
  decide

end Cursor
end PathCursor
