import Mathlib.Data.List.Basic
import Mathlib.Tactic.Lemma

/-!
# Words of a text

The words of a list are the runs between separators, without the empty ones. A
scanner that carries a partly read word goes through the list from the left; what
it finds are the words of the carried part and the rest together.
-/
namespace WordSplit
universe u
variable {α : Type u} {isSep : α → Bool}

/-- The longest runs without a separator, in order. -/
def words (isSep : α → Bool) (l : List α) : List (List α) :=
  (l.splitOnP isSep).filter (fun word => word ≠ [])

/-- Words do not go over a separator. -/
lemma words_append_cons (a b : List α) {sep : α} (hsep : isSep sep = true) :
    words isSep (a ++ sep :: b) = words isSep a ++ words isSep b := by
  rw [words, List.splitOnP_append_cons a b hsep, List.filter_append]
  rfl

/-- What has no separator is one word, if it is anything. -/
lemma words_of_no_sep {l : List α} (h : ∀ x ∈ l, isSep x = false) :
    words isSep l = if l = [] then [] else [l] := by
  rw [words, List.splitOnP_eq_singleton h]
  by_cases hl : l = [] <;> simp [hl]

lemma flatten_splitOnP (l : List α) :
    (l.splitOnP isSep).flatten = l.filter (fun x => !isSep x) := by
  induction l with
  | nil => simp
  | cons x rest ih =>
    rw [List.splitOnP_cons_eq_if_modifyHead]
    cases hx : isSep x with
    | true => simp [hx, ih]
    | false =>
      obtain ⟨first, more, hsplit⟩ :=
        List.exists_cons_of_ne_nil (List.splitOnP_ne_nil isSep rest)
      rw [hsplit, List.flatten_cons] at ih
      simp [hx, hsplit, ← ih]

/-- The words together are the list without its separators. -/
lemma flatten_words (l : List α) : (words isSep l).flatten = l.filter (fun x => !isSep x) := by
  have hempty : ∀ parts : List (List α),
      (parts.filter (fun word => word ≠ [])).flatten = parts.flatten := by
    intro parts
    induction parts with
    | nil => rfl
    | cons part rest ih => by_cases hpart : part = [] <;> simp_all
  rw [words, hempty, flatten_splitOnP]

/-- A word has elements of the list only, and is not empty. -/
lemma word_sublist {word l : List α} (h : word ∈ words isSep l) : word ≠ [] ∧ word.Sublist l := by
  refine ⟨by simpa using (List.mem_filter.mp h).2, ?_⟩
  have hsub : word.Sublist (words isSep l).flatten := List.sublist_flatten_of_mem h
  rw [flatten_words] at hsub
  exact hsub.trans List.filter_sublist

lemma splitOnP_join {front : List α} (inWord : ∀ x ∈ front, isSep x = false) {l first : List α}
    {more : List (List α)} (split : l.splitOnP isSep = first :: more) :
    (front ++ l).splitOnP isSep = (front ++ first) :: more := by
  induction front with
  | nil => exact split
  | cons x front ih =>
    have hrest := ih (fun y hy => inWord y (List.mem_cons_of_mem _ hy))
    simp [List.splitOnP_cons_eq_if_modifyHead, inWord x List.mem_cons_self, hrest]

/-- What has no separator joins the first word of a list that begins with one. -/
lemma words_join {front : List α} (inWord : ∀ x ∈ front, isSep x = false) {x : α}
    (hx : isSep x = false) (rest : List α) :
    ∃ word more, words isSep (x :: rest) = (x :: word) :: more ∧
      words isSep (front ++ x :: rest) = (front ++ x :: word) :: more := by
  obtain ⟨first, more, hsplit⟩ := List.exists_cons_of_ne_nil (List.splitOnP_ne_nil isSep rest)
  have hown : (x :: rest).splitOnP isSep = (x :: first) :: more :=
    splitOnP_join (fun y hy => by rwa [List.mem_singleton.mp hy]) hsplit
  refine ⟨first, more.filter (fun word => word ≠ []), ?_, ?_⟩
  · simp [words, hown]
  · simp [words, splitOnP_join inWord hown]

/-- A scanner carries the word it is in; at a separator and at the end it delivers the word, if
it has one. -/
def scanWords (isSep : α → Bool) : List (List α) → List α → List α → List (List α)
  | found, carried, [] => if carried = [] then found else found ++ [carried]
  | found, carried, x :: rest =>
    if isSep x then
      if carried = [] then scanWords isSep found carried rest
      else scanWords isSep (found ++ [carried]) [] rest
    else scanWords isSep found (carried ++ [x]) rest

/-- The scanner finds the words of what it carries and what is left. -/
theorem scanWords_eq (found : List (List α)) {carried : List α}
    (inWord : ∀ x ∈ carried, isSep x = false) (l : List α) :
    scanWords isSep found carried l = found ++ words isSep (carried ++ l) := by
  induction l generalizing found carried with
  | nil =>
    rw [scanWords, List.append_nil, words_of_no_sep inWord]
    by_cases hcarried : carried = [] <;> simp [hcarried]
  | cons x rest ih =>
    rw [scanWords]
    cases hx : isSep x with
    | true =>
      rw [if_pos rfl, words_append_cons carried rest hx, words_of_no_sep inWord]
      by_cases hcarried : carried = []
      · subst hcarried
        rw [if_pos rfl, if_pos rfl, ih found inWord, List.nil_append, List.nil_append]
      · rw [if_neg hcarried, if_neg hcarried, ih (found ++ [carried]) (by simp)]
        simp
    | false =>
      have hmore : ∀ y ∈ carried ++ [x], isSep y = false := by
        intro y hy
        rcases List.mem_append.mp hy with hy | hy
        · exact inWord y hy
        · rwa [List.mem_singleton.mp hy]
      rw [if_neg Bool.false_ne_true, ih found hmore, List.append_assoc, List.singleton_append]

end WordSplit
