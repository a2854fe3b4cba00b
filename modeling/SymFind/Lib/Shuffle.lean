import Mathlib.Data.List.Perm.Basic
import Mathlib.Tactic.Lemma

/-!
# Merging streams in any order

Several writers append to one output, one item at a time. The output has the
items of each stream in their order, and between any two of them items of other
streams may come.
-/
namespace Shuffle
universe u
variable {α : Type u}

/-- The output may be what the streams give when they are taken from one at a time. -/
inductive Shuffles : List (List α) → List α → Prop
  | done {streams : List (List α)} (empty : ∀ s ∈ streams, s = []) : Shuffles streams []
  | take {before after : List (List α)} {a : α} {rest out : List α}
      (later : Shuffles (before ++ rest :: after) out) :
      Shuffles (before ++ (a :: rest) :: after) (a :: out)

lemma flatten_eq_nil_of_empty {streams : List (List α)} (empty : ∀ s ∈ streams, s = []) :
    streams.flatten = [] :=
  List.flatten_eq_nil_iff.mpr empty

/-- Nothing is lost or added. -/
theorem Shuffles.perm {streams : List (List α)} {out : List α} (shuffles : Shuffles streams out) :
    out.Perm streams.flatten := by
  induction shuffles with
  | done empty => rw [flatten_eq_nil_of_empty empty]
  | @take before after a rest out later ih =>
    have hmiddle : (before ++ (a :: rest) :: after).flatten.Perm
        (a :: (before ++ rest :: after).flatten) := by
      rw [List.flatten_append, List.flatten_append, List.flatten_cons, List.flatten_cons]
      exact List.perm_middle
    exact (ih.cons a).trans hmiddle.symm

/-- Each stream keeps its order. -/
theorem Shuffles.sublist {streams : List (List α)} {out : List α}
    (shuffles : Shuffles streams out) : ∀ s ∈ streams, s.Sublist out := by
  induction shuffles with
  | done empty =>
    intro s hs
    rw [empty s hs]
  | @take before after a rest out later ih =>
    intro s hs
    rw [List.mem_append, List.mem_cons] at hs
    rcases hs with hs | rfl | hs
    · exact (ih s (List.mem_append_left _ hs)).cons a
    · exact (ih rest (by simp)).cons_cons a
    · exact (ih s (List.mem_append_right _ (List.mem_cons_of_mem _ hs))).cons a

/-- One writer may go on for a while. -/
lemma Shuffles.advance {before after : List (List α)} {rest out : List α} (s : List α)
    (later : Shuffles (before ++ rest :: after) out) :
    Shuffles (before ++ (s ++ rest) :: after) (s ++ out) := by
  induction s with
  | nil => exact later
  | cons a s ih => exact .take ih

/-- One writer may go on until it has nothing left. -/
lemma Shuffles.drain {before after : List (List α)} {out : List α} (s : List α)
    (later : Shuffles (before ++ [] :: after) out) :
    Shuffles (before ++ s :: after) (s ++ out) := by
  have hall := later.advance s
  rwa [List.append_nil] at hall

/-- All of one stream may come in the middle of another. -/
lemma shuffles_within (front rest s : List α) :
    Shuffles [front ++ rest, s] (front ++ (s ++ rest)) := by
  have hempty : Shuffles ([] ++ [] :: [[]]) ([] : List α) := .done (by simp)
  have hrest : Shuffles ([rest] ++ [] :: []) rest := by
    have hdrained := hempty.drain rest
    rwa [List.append_nil] at hdrained
  exact @Shuffles.advance α [] [s] rest (s ++ rest) front (hrest.drain s)

/-- The writers may come one after the other. -/
theorem shuffles_flatten (streams : List (List α)) : Shuffles streams streams.flatten := by
  have hfrom : ∀ before : List (List α), (∀ s ∈ before, s = []) →
      Shuffles (before ++ streams) streams.flatten := by
    induction streams with
    | nil => exact fun before empty => .done (by simpa using empty)
    | cons s rest ih =>
      intro before empty
      have hrest := ih (before ++ [[]]) (by
        intro t ht
        rcases List.mem_append.mp ht with ht | ht
        · exact empty t ht
        · exact List.mem_singleton.mp ht)
      rw [List.append_assoc] at hrest
      exact .drain s hrest
  exact hfrom [] (fun s hs => by cases hs)

lemma all_empty_of_filter {streams : List (List α)} (h : streams.filter (· ≠ []) = []) :
    ∀ s ∈ streams, s = [] := by
  intro s hs
  have hnot := List.filter_eq_nil_iff.mp h s hs
  simpa using hnot

/-- When at most one stream has items, the output has their order. -/
theorem Shuffles.of_single {streams : List (List α)} {out : List α}
    (shuffles : Shuffles streams out) (single : (streams.filter (· ≠ [])).length ≤ 1) :
    out = streams.flatten := by
  by_cases hempty : ∀ s ∈ streams, s = []
  · have hperm := shuffles.perm
    rw [flatten_eq_nil_of_empty hempty] at hperm ⊢
    exact hperm.eq_nil
  · obtain ⟨s, hs, hne⟩ : ∃ s ∈ streams, s ≠ [] := by simpa using hempty
    obtain ⟨before, after, rfl⟩ := List.append_of_mem hs
    rw [List.filter_append, List.filter_cons_of_pos (by simpa using hne), List.length_append,
      List.length_cons] at single
    have hbefore := all_empty_of_filter (List.length_eq_zero_iff.mp
      (by omega : (before.filter (· ≠ [])).length = 0))
    have hafter := all_empty_of_filter (List.length_eq_zero_iff.mp
      (by omega : (after.filter (· ≠ [])).length = 0))
    have hflat : (before ++ s :: after).flatten = s := by
      rw [List.flatten_append, List.flatten_cons, flatten_eq_nil_of_empty hbefore,
        flatten_eq_nil_of_empty hafter, List.append_nil, List.nil_append]
    have hlen := shuffles.perm.length_eq
    rw [hflat] at hlen ⊢
    exact ((shuffles.sublist s hs).eq_of_length hlen.symm).symm

end Shuffle
