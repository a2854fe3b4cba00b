import SymFind.Core.TrigramWindows

/-!
# The trigrams at the ends of a word

The padding of a word stands in the windows at its ends only. A word without
NULs that emits all codes of another one therefore begins and ends with the same
two letters as that one, in either case.
-/
namespace TrigramEnds
open RecordCodec TrigramCodes TrigramWindows

section Codes

lemma encodeTrigram_inj {a b c a' b' c' : UInt8}
    (h : encodeTrigram a b c = encodeTrigram a' b' c') : a = a' ∧ b = b' ∧ c = c' := by
  have hnat := congrArg UInt32.toNat h
  rw [encodeTrigram_toNat, encodeTrigram_toNat] at hnat
  have hb := b.toNat_lt
  have hc := c.toNat_lt
  have hb' := b'.toNat_lt
  have hc' := c'.toNat_lt
  exact ⟨UInt8.toNat_inj.mp (by omega), UInt8.toNat_inj.mp (by omega),
    UInt8.toNat_inj.mp (by omega)⟩

lemma mem_forEachTrigram_iff {word : Bytes} (nonempty : word ≠ []) (code : TrigramCode) :
    code ∈ forEachTrigram word ↔
      ∃ i, i < word.length + 2 ∧ windowCode (padded word) i = code := by
  rw [forEachTrigram_windows nonempty]
  simp only [List.mem_map, List.mem_range]

/-- A word that emits all codes of a non-empty one is not empty. -/
lemma nonempty_of_emits {query name : Bytes} (nonempty : query ≠ [])
    (emits : ∀ code ∈ forEachTrigram query, code ∈ forEachTrigram name) : name ≠ [] := by
  rintro rfl
  obtain ⟨code, hcode⟩ := List.exists_mem_of_ne_nil _ (forEachTrigram_ne_nil nonempty)
  cases emits code hcode

end Codes

section Padding

/-- Two NULs on each side. -/
def framed (l : Bytes) : Bytes := [0, 0] ++ l ++ [0, 0]

lemma framed_front (l : Bytes) : (framed l).getD 0 0 = 0 ∧ (framed l).getD 1 0 = 0 := ⟨rfl, rfl⟩

lemma framed_inside (l : Bytes) (i : Nat) : (framed l).getD (i + 2) 0 = l.getD i 0 := by
  change (l ++ [0, 0]).getD i 0 = l.getD i 0
  by_cases h : i < l.length
  · rw [List.getD_append _ _ _ _ h]
  · rw [List.getD_append_right _ _ _ _ (Nat.le_of_not_lt h), zeros_getD,
      List.getD_eq_default _ _ (Nat.le_of_not_lt h)]

/-- The frame looks the same from behind. -/
lemma framed_back (l : Bytes) {i j : Nat} (h : i + j = l.length + 3) :
    (framed l).getD i 0 = (framed l.reverse).getD j 0 := by
  have hreverse : framed l.reverse = (framed l).reverse := by simp [framed]
  have hlength : (framed l).length = l.length + 4 := by
    simp only [framed, List.length_append, List.length_cons, List.length_nil]
    omega
  rw [hreverse, List.getD_eq_getElem?_getD, List.getD_eq_getElem?_getD,
    List.getElem?_reverse (by omega)]
  congr 2
  omega

lemma getD_ne_zero {l : Bytes} (free : (0 : UInt8) ∉ l) {i : Nat} (h : i < l.length) :
    l.getD i 0 ≠ 0 := by
  rw [List.getD_eq_getElem _ _ h]
  exact fun hzero => free (hzero ▸ List.getElem_mem h)

lemma lt_of_getD_ne_zero {l : Bytes} {i : Nat} (h : l.getD i 0 ≠ 0) : i < l.length := by
  by_contra hge
  exact h (List.getD_eq_default _ _ (Nat.le_of_not_lt hge))

lemma take_two_eq {l l' : Bytes} (free : (0 : UInt8) ∉ l) (free' : (0 : UInt8) ∉ l')
    (first : l.getD 0 0 = l'.getD 0 0) (second : l.getD 1 0 = l'.getD 1 0) :
    l.take 2 = l'.take 2 := by
  rcases l with _ | ⟨a, _ | ⟨b, l⟩⟩ <;> rcases l' with _ | ⟨a', _ | ⟨b', l'⟩⟩ <;>
    simp_all [eq_comm]

lemma toLower_ne_zero {c : UInt8} (h : c ≠ 0) : toLower c ≠ 0 := by
  rw [toLower]
  split
  · rename_i hupper
    have hlow := UInt8.le_iff_toNat_le.mp hupper.1
    have hhigh := UInt8.le_iff_toNat_le.mp hupper.2
    intro hzero
    have hnat := congrArg UInt8.toNat hzero
    rw [UInt8.toNat_add, UInt8.toNat_sub] at hnat
    simp only [UInt8.reduceToNat] at hlow hhigh hnat
    omega
  · exact h

lemma lower_free {word : Bytes} (free : (0 : UInt8) ∉ word) : (0 : UInt8) ∉ word.map toLower := by
  rw [List.mem_map]
  rintro ⟨c, hc, hzero⟩
  exact toLower_ne_zero (fun h => free (h ▸ hc)) hzero

end Padding

section Ends

variable {l l' : Bytes}

/-- A window that begins with a NUL and goes on without one stands at the front. -/
lemma front_of_window (free : (0 : UInt8) ∉ l) {i : Nat} (gap : (framed l).getD i 0 = 0)
    (letter : (framed l).getD (i + 1) 0 ≠ 0) : i = 1 := by
  rcases i with _ | _ | i
  · exact absurd (framed_front l).2 letter
  · rfl
  · rw [framed_inside] at gap
    rw [Nat.add_right_comm, framed_inside] at letter
    have hlt := lt_of_getD_ne_zero letter
    exact absurd gap (getD_ne_zero free (by omega))

/-- A window whose last byte alone is a NUL stands at the end. -/
lemma back_of_window (free : (0 : UInt8) ∉ l) {i : Nat}
    (letter : (framed l).getD (i + 1) 0 ≠ 0) (gap : (framed l).getD (i + 2) 0 = 0) :
    i = l.length := by
  rw [framed_inside] at gap
  have hge : l.length ≤ i := by
    by_contra hlt
    exact getD_ne_zero free (Nat.lt_of_not_le hlt) gap
  rcases i with _ | i
  · exact absurd (framed_front l).2 letter
  · rw [Nat.add_assoc, framed_inside] at letter
    have hlt := lt_of_getD_ne_zero letter
    omega

/-- In lower case a name begins and ends with the same two letters as the query. -/
def SameEnds (query name : Bytes) : Prop :=
  (name.map toLower).take 2 = (query.map toLower).take 2 ∧
    (name.map toLower).reverse.take 2 = (query.map toLower).reverse.take 2

/-- A word without NULs that emits all codes of another one has its ends. -/
theorem ends_of_emits {query name : Bytes} (nonempty : query ≠ [])
    (plain : (0 : UInt8) ∉ query) (plain' : (0 : UInt8) ∉ name)
    (emits : ∀ code ∈ forEachTrigram query, code ∈ forEachTrigram name) :
    SameEnds query name := by
  obtain ⟨l, hl⟩ : ∃ l, l = query.map toLower := ⟨_, rfl⟩
  obtain ⟨l', hl'⟩ : ∃ l', l' = name.map toLower := ⟨_, rfl⟩
  have free : (0 : UInt8) ∉ l := hl ▸ lower_free plain
  have free' : (0 : UInt8) ∉ l' := hl' ▸ lower_free plain'
  have hlength : query.length = l.length := by rw [hl, List.length_map]
  have hsome : 0 < l.length := by
    rw [← hlength]
    exact List.length_pos_iff.mpr nonempty
  -- every window of the query is a window of the name
  have windows : ∀ i, i < l.length + 2 → ∃ j,
      (framed l').getD j 0 = (framed l).getD i 0 ∧
      (framed l').getD (j + 1) 0 = (framed l).getD (i + 1) 0 ∧
      (framed l').getD (j + 2) 0 = (framed l).getD (i + 2) 0 := by
    intro i hi
    have hcode := emits _ ((mem_forEachTrigram_iff nonempty _).mpr ⟨i, by omega, rfl⟩)
    obtain ⟨j, -, hj⟩ := (mem_forEachTrigram_iff (nonempty_of_emits nonempty emits) _).mp hcode
    rw [hl, hl']
    exact ⟨j, encodeTrigram_inj hj⟩
  rw [SameEnds, ← hl, ← hl']
  constructor
  · obtain ⟨j, hgap, hfirst, hsecond⟩ := windows 1 (by omega)
    have hletter : (framed l).getD 2 0 ≠ 0 := by
      rw [framed_inside l 0]
      exact getD_ne_zero free hsome
    obtain rfl := front_of_window free' (hgap.trans (framed_front l).2) (hfirst.trans_ne hletter)
    exact take_two_eq free' free
      ((framed_inside l' 0).symm.trans (hfirst.trans (framed_inside l 0)))
      ((framed_inside l' 1).symm.trans (hsecond.trans (framed_inside l 1)))
  · obtain ⟨j, hsecond, hfirst, hgap⟩ := windows l.length (by omega)
    have hletter : (framed l).getD (l.length + 1) 0 ≠ 0 := by
      rw [framed_back l (by omega : l.length + 1 + 2 = l.length + 3), framed_inside l.reverse 0]
      exact getD_ne_zero (by simpa using free) (by simpa using hsome)
    have hend : (framed l).getD (l.length + 2) 0 = 0 := by
      rw [framed_inside, List.getD_eq_default _ _ (Nat.le_refl _)]
    obtain rfl := back_of_window free' (hfirst.trans_ne hletter) (hgap.trans hend)
    -- seen from behind, the two letters come first
    rw [framed_back l' (by omega : l'.length + 1 + 2 = l'.length + 3),
      framed_back l (by omega : l.length + 1 + 2 = l.length + 3), framed_inside l'.reverse 0,
      framed_inside l.reverse 0] at hfirst
    rw [framed_back l' (by omega : l'.length + 3 = l'.length + 3),
      framed_back l (by omega : l.length + 3 = l.length + 3), framed_inside l'.reverse 1,
      framed_inside l.reverse 1] at hsecond
    exact take_two_eq (by simpa using free') (by simpa using free) hfirst hsecond

end Ends

end TrigramEnds
