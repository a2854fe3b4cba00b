import Mathlib.Data.Finset.Card
import Mathlib.Tactic.Lemma

/-!
# Deterministic walks

A walk repeats a partial step until there is none. It either stops or comes
back to a state it has been in, so over finitely many states that can go on it
stops within as many steps as there are states, or never.
-/
namespace StepWalk
universe u
variable {σ : Type u} (next : σ → Option σ)

/-- The state after `d` steps; `none` when the walk stopped before. -/
def walk : Nat → σ → Option σ
  | 0, s => some s
  | d + 1, s => (next s).bind (walk d)

@[simp] lemma walk_zero (s : σ) : walk next 0 s = some s := rfl

lemma walk_add (m n : Nat) (s : σ) :
    walk next (m + n) s = (walk next m s).bind (walk next n) := by
  induction m generalizing s with
  | zero => simp
  | succ m ih =>
    rw [Nat.succ_add, walk, walk, Option.bind_assoc]
    exact congrArg _ (funext ih)

/-- The last step taken apart instead of the first. -/
lemma walk_succ (d : Nat) (s : σ) : walk next (d + 1) s = (walk next d s).bind next := by
  rw [walk_add]
  congr 1
  funext t
  simp [walk]

variable {next}

lemma walk_none_of_le {m n : Nat} {s : σ} (h : walk next m s = none) (hle : m ≤ n) :
    walk next n s = none := by
  obtain ⟨k, rfl⟩ := Nat.exists_eq_add_of_le hle
  rw [walk_add, h, Option.bind_none]

lemma walk_some_of_le {m n : Nat} {s t : σ} (h : walk next n s = some t) (hle : m ≤ n) :
    ∃ t', walk next m s = some t' := by
  cases hm : walk next m s with
  | some t' => exact ⟨t', rfl⟩
  | none =>
    rw [walk_none_of_le hm hle] at h
    cases h

/-- A walk that comes back to its start never stops. -/
lemma walk_of_return {m : Nat} {s : σ} (pos : 0 < m) (back : walk next m s = some s) (d : Nat) :
    walk next d s ≠ none := by
  have rounds : ∀ k, walk next (k * m) s = some s := by
    intro k
    induction k with
    | zero => simp
    | succ k ih => rw [Nat.succ_mul, walk_add, ih, Option.bind_some, back]
  intro hstop
  have hlate := walk_none_of_le hstop (Nat.le_mul_of_pos_right d pos)
  rw [rounds d] at hlate
  cases hlate

/-- A walk longer than there are states that can go on comes back to one of them. -/
lemma walk_repeats {states : List σ} (inside : ∀ s t, next s = some t → s ∈ states) {s last : σ}
    (long : walk next (states.length + 1) s = some last) :
    ∃ m t k, walk next m s = some t ∧ 0 < k ∧ walk next k t = some t := by
  obtain ⟨visited, hvisited⟩ : ∃ visited : Nat → σ, ∀ i, i ≤ states.length →
      walk next i s = some (visited i) ∧ visited i ∈ states := by
    refine ⟨fun i => (walk next i s).getD s, ?_⟩
    intro i hi
    obtain ⟨t, ht⟩ := walk_some_of_le long (Nat.le_succ_of_le hi)
    obtain ⟨t', ht'⟩ := walk_some_of_le long (Nat.succ_le_succ hi)
    rw [walk_succ, ht, Option.bind_some] at ht'
    have hvalue : (walk next i s).getD s = t := by rw [ht, Option.getD_some]
    simp only [hvalue]
    exact ⟨ht, inside t t' ht'⟩
  -- more states visited than there are, so one is visited twice
  have hrepeat : ∃ i j, i < j ∧ j ≤ states.length ∧ visited i = visited j := by
    classical
    have hcard : states.toFinset.card < (Finset.range (states.length + 1)).card := by
      rw [Finset.card_range]
      exact Nat.lt_succ_of_le (List.toFinset_card_le states)
    have hinto : ∀ i ∈ Finset.range (states.length + 1), visited i ∈ states.toFinset :=
      fun i hi => List.mem_toFinset.mpr (hvisited i (Finset.mem_range_succ_iff.mp hi)).2
    obtain ⟨i, hi, j, hj, hne, heq⟩ := Finset.exists_ne_map_eq_of_card_lt_of_maps_to hcard hinto
    rcases Nat.lt_or_gt_of_ne hne with hlt | hgt
    · exact ⟨i, j, hlt, Finset.mem_range_succ_iff.mp hj, heq⟩
    · exact ⟨j, i, hgt, Finset.mem_range_succ_iff.mp hi, heq.symm⟩
  obtain ⟨i, j, hij, hj, heq⟩ := hrepeat
  have hi : i ≤ states.length := Nat.le_of_lt (Nat.lt_of_lt_of_le hij hj)
  have hfrom : walk next (j - i) (visited i) = some (visited i) := by
    have hsplit := walk_add next i (j - i) s
    rw [Nat.add_sub_cancel' (Nat.le_of_lt hij), (hvisited j hj).1, (hvisited i hi).1,
      Option.bind_some, ← heq] at hsplit
    exact hsplit.symm
  exact ⟨i, visited i, j - i, (hvisited i hi).1, Nat.sub_pos_of_lt hij, hfrom⟩

/-- No state the walk comes through is met again. -/
def Acyclic (next : σ → Option σ) (s : σ) : Prop :=
  ∀ m t, walk next m s = some t → ∀ k, 0 < k → walk next k t ≠ some t

lemma acyclic_of_stops {d : Nat} {s : σ} (stops : walk next d s = none) : Acyclic next s := by
  intro m t ht k hk back
  apply walk_of_return hk back d
  have hlate := walk_none_of_le stops (Nat.le_add_left d m)
  rw [walk_add, ht] at hlate
  exact hlate

lemma stops_of_acyclic {states : List σ} (inside : ∀ s t, next s = some t → s ∈ states) {s : σ}
    (acyclic : Acyclic next s) : walk next (states.length + 1) s = none := by
  by_contra hlong
  obtain ⟨last, hlast⟩ := Option.ne_none_iff_exists'.mp hlong
  obtain ⟨m, t, k, ht, hk, back⟩ := walk_repeats inside hlast
  exact acyclic m t ht k hk back

/-- A walk that stops takes at most one step from each state that can go on. -/
theorem walk_stops_within {states : List σ} (inside : ∀ s t, next s = some t → s ∈ states)
    {d : Nat} {s : σ} (stops : walk next d s = none) :
    walk next (states.length + 1) s = none :=
  stops_of_acyclic inside (acyclic_of_stops stops)

end StepWalk
