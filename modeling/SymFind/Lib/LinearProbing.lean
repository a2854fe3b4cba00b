import Mathlib.Data.List.Basic
import Mathlib.Data.List.Nodup
import Mathlib.Data.Nat.Find
import Mathlib.Tactic.Lemma

/-!
# Open addressing with linear probing

A table is a list of slots; a slot may hold a key. A key is placed at the first
free slot of the cyclic walk from its home. The invariant `Probed` says that
every key lies on the walk from its home with no free slot before it, and that
no key lies in two slots. It is kept by insertion, and it makes the walk that
stops at the key or at a free slot a correct search.
-/
namespace LinearProbing
universe u v
variable {S : Type u} {K : Type v}

/-- The key in a slot, if the slot is there and holds one. -/
def keyAt (key? : S → Option K) (slots : List S) (j : Nat) : Option K := slots[j]?.bind key?

/-- The slot reached from `h` in `d` cyclic steps. -/
def stepIndex (slots : List S) (h d : Nat) : Nat := (h + d) % slots.length

lemma stepIndex_lt {slots : List S} (pos : 0 < slots.length) (h d : Nat) :
    stepIndex slots h d < slots.length := Nat.mod_lt _ pos

lemma stepIndex_zero {slots : List S} {h : Nat} (inside : h < slots.length) :
    stepIndex slots h 0 = h := by
  rw [stepIndex, Nat.add_zero, Nat.mod_eq_of_lt inside]

lemma stepIndex_succ (slots : List S) (h d : Nat) :
    stepIndex slots h (d + 1) = (stepIndex slots h d + 1) % slots.length := by
  simp [stepIndex, Nat.add_assoc]

lemma stepIndex_surj {slots : List S} {j : Nat} (hj : j < slots.length) (h : Nat) :
    ∃ d, d < slots.length ∧ stepIndex slots h d = j := by
  have pos : 0 < slots.length := by omega
  have hmod := Nat.mod_lt h pos
  by_cases hle : h % slots.length ≤ j
  · refine ⟨j - h % slots.length, by omega, ?_⟩
    rw [stepIndex, ← Nat.mod_add_mod, Nat.add_sub_cancel' hle, Nat.mod_eq_of_lt hj]
  · refine ⟨j + slots.length - h % slots.length, by omega, ?_⟩
    have hsum : h % slots.length + (j + slots.length - h % slots.length) = j + slots.length := by
      omega
    rw [stepIndex, ← Nat.mod_add_mod, hsum, Nat.add_mod_right, Nat.mod_eq_of_lt hj]

/-- From any home the walk meets a slot with a given property, if there is one. -/
lemma exists_first {slots : List S} (P : Nat → Prop) [DecidablePred P]
    (some_slot : ∃ j, j < slots.length ∧ P j) (h : Nat) :
    ∃ d, d < slots.length ∧ P (stepIndex slots h d) ∧
      ∀ e, e < d → ¬ P (stepIndex slots h e) := by
  obtain ⟨j, hj, hP⟩ := some_slot
  obtain ⟨d, hd, hjd⟩ := stepIndex_surj hj h
  have meets : ∃ d, P (stepIndex slots h d) := ⟨d, hjd ▸ hP⟩
  have hle : Nat.find meets ≤ d := Nat.find_min' meets (hjd ▸ hP)
  exact ⟨Nat.find meets, by omega, Nat.find_spec meets, fun e he => Nat.find_min meets he⟩

structure Probed (key? : S → Option K) (home : K → Nat) (slots : List S) : Prop where
  reach : ∀ j k, keyAt key? slots j = some k → ∃ d, d < slots.length ∧
    j = stepIndex slots (home k) d ∧
    ∀ e, e < d → (keyAt key? slots (stepIndex slots (home k) e)).isSome
  distinct : ∀ i j k, keyAt key? slots i = some k → keyAt key? slots j = some k → i = j

variable {key? : S → Option K} {home : K → Nat} {slots : List S}

lemma keyAt_mem {j : Nat} {k : K} (h : keyAt key? slots j = some k) :
    k ∈ slots.filterMap key? := by
  simp only [keyAt, Option.bind_eq_some_iff] at h
  obtain ⟨s, hs, hk⟩ := h
  exact List.mem_filterMap.mpr ⟨s, List.mem_of_getElem? hs, hk⟩

lemma keyAt_set {i j : Nat} (s : S) (hi : i < slots.length) :
    keyAt key? (slots.set i s) j = if j = i then key? s else keyAt key? slots j := by
  by_cases h : j = i
  · subst h
    simp [keyAt, hi]
  · simp [keyAt, h, List.getElem?_set_ne (fun he => h he.symm)]

@[simp] lemma stepIndex_set (i : Nat) (s : S) (h d : Nat) :
    stepIndex (slots.set i s) h d = stepIndex slots h d := by simp [stepIndex]

/-- Fewer keys than slots leave a slot free. -/
lemma exists_free (room : (slots.filterMap key?).length < slots.length) :
    ∃ j, j < slots.length ∧ keyAt key? slots j = none := by
  by_contra hfull
  push Not at hfull
  have all : ∀ s ∈ slots, (key? s).isSome := by
    intro s hs
    obtain ⟨j, hj, rfl⟩ := List.mem_iff_getElem.mp hs
    have := hfull j hj
    simpa [keyAt, hj, Option.isSome_iff_ne_none] using this
  have : (slots.filterMap key?).length = slots.length := by
    clear room hfull
    induction slots with
    | nil => rfl
    | cons s rest ih =>
      obtain ⟨k, hk⟩ := Option.isSome_iff_exists.mp (all s List.mem_cons_self)
      simp [hk, ih (fun t ht => all t (List.mem_cons_of_mem s ht))]
  omega

/-- The walk from any home reaches a free slot, over occupied ones only. -/
theorem walk_to_free (room : (slots.filterMap key?).length < slots.length) (h : Nat) :
    ∃ d, d < slots.length ∧ keyAt key? slots (stepIndex slots h d) = none ∧
      ∀ e, e < d → (keyAt key? slots (stepIndex slots h e)).isSome := by
  classical
  obtain ⟨d, hd, hfree, hocc⟩ :=
    exists_first (fun j => keyAt key? slots j = none) (exists_free room) h
  exact ⟨d, hd, hfree, fun e he => Option.isSome_iff_ne_none.mpr (hocc e he)⟩

/-- Filling the slot that the walk reached over occupied ones keeps the invariant. -/
theorem probed_set (probed : Probed key? home slots) {s : S} {k : K} (hk : key? s = some k)
    (fresh : k ∉ slots.filterMap key?) {d : Nat} (hd : d < slots.length)
    (hocc : ∀ e, e < d → (keyAt key? slots (stepIndex slots (home k) e)).isSome) :
    Probed key? home (slots.set (stepIndex slots (home k) d) s) := by
  have hi : stepIndex slots (home k) d < slots.length := stepIndex_lt (by omega) _ _
  -- slots that held a key still hold it
  have stays : ∀ j, (keyAt key? slots j).isSome →
      (keyAt key? (slots.set (stepIndex slots (home k) d) s) j).isSome := by
    intro j hj
    rw [keyAt_set s hi]
    split
    · simp [hk]
    · exact hj
  constructor
  · intro j k' hj
    simp only [stepIndex_set, List.length_set]
    rw [keyAt_set s hi] at hj
    split at hj
    · rename_i heq
      have hsame : k = k' := Option.some.inj (hk.symm.trans hj)
      subst hsame
      exact ⟨d, hd, heq, fun e he => stays _ (hocc e he)⟩
    · obtain ⟨d', hd', heq, hocc'⟩ := probed.reach j k' hj
      exact ⟨d', hd', heq, fun e he => stays _ (hocc' e he)⟩
  · intro i j k' hki hkj
    rw [keyAt_set s hi] at hki hkj
    have old : ∀ j', keyAt key? slots j' = some k' → k ≠ k' := by
      intro j' hj' heq
      exact fresh (heq ▸ keyAt_mem hj')
    split at hki
    · rename_i hieq
      split at hkj
      · rename_i hjeq
        exact hieq.trans hjeq.symm
      · exact absurd (Option.some.inj (hk.symm.trans hki)) (old j hkj)
    · split at hkj
      · exact absurd (Option.some.inj (hk.symm.trans hkj)) (old i hki)
      · exact probed.distinct i j k' hki hkj

lemma filterMap_set {i : Nat} {s : S} {k : K} (hk : key? s = some k) (hi : i < slots.length)
    (hfree : keyAt key? slots i = none) :
    ((slots.set i s).filterMap key?).Perm (k :: slots.filterMap key?) := by
  have hold : key? slots[i] = none := by simpa [keyAt, hi] using hfree
  have hsplit : slots = slots.take i ++ slots[i] :: slots.drop (i + 1) := by
    rw [← List.drop_eq_getElem_cons hi, List.take_append_drop]
  have hnew : (slots.set i s).filterMap key? =
      (slots.take i).filterMap key? ++ k :: (slots.drop (i + 1)).filterMap key? := by
    rw [List.set_eq_take_append_cons_drop, if_pos hi, List.filterMap_append,
      List.filterMap_cons_some hk]
  have hprev : slots.filterMap key? =
      (slots.take i).filterMap key? ++ (slots.drop (i + 1)).filterMap key? := by
    conv_lhs => rw [hsplit]
    rw [List.filterMap_append, List.filterMap_cons_none hold]
  rw [hnew, hprev]
  exact List.perm_middle

/-- A present key is reached over slots that hold other keys. -/
theorem walk_to_key (probed : Probed key? home slots) {j : Nat} {k : K}
    (h : keyAt key? slots j = some k) :
    ∃ d, d < slots.length ∧ j = stepIndex slots (home k) d ∧
      ∀ e, e < d → ∃ k', keyAt key? slots (stepIndex slots (home k) e) = some k' ∧ k' ≠ k := by
  classical
  obtain ⟨d₀, hd₀, hj, hocc⟩ := probed.reach j k h
  -- the first step at which the walk stands on `j` has only other keys before it
  have meets : ∃ d, stepIndex slots (home k) d = j := ⟨d₀, hj.symm⟩
  have hle : Nat.find meets ≤ d₀ := Nat.find_min' meets hj.symm
  refine ⟨Nat.find meets, by omega, (Nat.find_spec meets).symm, fun e he => ?_⟩
  obtain ⟨k', hk'⟩ := Option.isSome_iff_exists.mp (hocc e (by omega))
  refine ⟨k', hk', fun heq => ?_⟩
  exact Nat.find_min meets he (probed.distinct _ _ k (heq ▸ hk') h)

/-- An absent key's walk ends at a free slot, over slots that hold other keys. -/
theorem walk_past_keys (room : (slots.filterMap key?).length < slots.length) {k : K}
    (absent : k ∉ slots.filterMap key?) (h : Nat) :
    ∃ d, d < slots.length ∧ keyAt key? slots (stepIndex slots h d) = none ∧
      ∀ e, e < d → ∃ k', keyAt key? slots (stepIndex slots h e) = some k' ∧ k' ≠ k := by
  obtain ⟨d, hd, hfree, hocc⟩ := walk_to_free room h
  refine ⟨d, hd, hfree, fun e he => ?_⟩
  obtain ⟨k', hk'⟩ := Option.isSome_iff_exists.mp (hocc e he)
  exact ⟨k', hk', fun heq => absent (heq ▸ keyAt_mem hk')⟩

/-- A table without keys satisfies the invariant. -/
lemma probed_free (free : ∀ s ∈ slots, key? s = none) : Probed key? home slots := by
  have none_at : ∀ j, keyAt key? slots j = none := by
    intro j
    cases hs : slots[j]? with
    | none => simp [keyAt, hs]
    | some s => simp [keyAt, hs, free s (List.mem_of_getElem? hs)]
  constructor
  · intro j k h
    rw [none_at] at h
    cases h
  · intro i j k h
    rw [none_at] at h
    cases h

end LinearProbing
