import SymFind.Core.TrigramCodes
import Mathlib.Data.List.GetD

/-!
# The codes of a word determine it

The codes are those of the windows of the padded word. A code keeps the last byte
of its window, so the codes together keep every byte of the lower-cased word,
also where it is a NUL like the padding.
-/
namespace TrigramWindows
open RecordCodec TrigramCodes

def trigramCountForLength (n : UInt64) : UInt64 := if n = 0 then 0 else n + 2

/-- The lower-cased word between two NULs on each side. -/
def padded (word : Bytes) : Bytes := [0, 0] ++ word.map toLower ++ [0, 0]

/-- The code of the window of a text that begins at a position. -/
def windowCode (s : Bytes) (i : Nat) : TrigramCode :=
  encodeTrigram (s.getD i 0) (s.getD (i + 1) 0) (s.getD (i + 2) 0)

variable {word : Bytes}

lemma zeros_getD (i : Nat) : ([0, 0] : Bytes).getD i 0 = 0 := by
  rcases i with _ | _ | i <;> rfl

lemma paddedAt_nat (word : Bytes) (i : Nat) :
    paddedAt word (i : Int) = (word.map toLower ++ [0, 0]).getD i 0 := by
  rw [paddedAt]
  by_cases h : i < word.length
  · have hinside : ¬ ((i : Int) < 0 ∨ (word.length : Int) ≤ i) := by omega
    rw [if_neg hinside, List.getD_append _ _ _ _ (by simpa using h)]
    simp [h]
  · have houtside : (i : Int) < 0 ∨ (word.length : Int) ≤ i := by omega
    rw [if_pos houtside, List.getD_append_right _ _ _ _ (by simpa using h), zeros_getD]

/-- Position `i` of the loop is position `i + 2` of the padded word. -/
lemma paddedAt_padded (word : Bytes) (i : Nat) :
    paddedAt word ((i : Int) - 2) = (padded word).getD i 0 := by
  rcases i with _ | _ | i
  · rfl
  · rfl
  · have hshift : ((i + 1 + 1 : Nat) : Int) - 2 = i := by omega
    rw [hshift, paddedAt_nat]
    rfl

lemma forEachTrigram_windows (h : word ≠ []) :
    forEachTrigram word = (List.range (word.length + 2)).map (windowCode (padded word)) := by
  have hlength : word.length ≠ 0 := fun hzero => h (List.length_eq_zero_iff.mp hzero)
  rw [forEachTrigram, if_neg hlength]
  simp only [List.bind_eq_flatMap, List.pure_def, ← List.map_eq_flatMap, List.map_map]
  apply List.map_congr_left
  intro i _
  have hnext : (i : Int) - 2 + 1 = ((i + 1 : Nat) : Int) - 2 := by omega
  have hlast : (i : Int) - 2 + 2 = ((i + 2 : Nat) : Int) - 2 := by omega
  simp only [Function.comp_apply, windowCode, hnext, hlast, paddedAt_padded]

lemma forEachTrigram_length (word : Bytes) :
    (forEachTrigram word).length = if word = [] then 0 else word.length + 2 := by
  by_cases h : word = []
  · simp [h]
  · simp [forEachTrigram_windows h, h]

/-- A code keeps the last byte of its window. -/
lemma encodeTrigram_last (a b c : UInt8) : (encodeTrigram a b c).toUInt8 = c := by
  apply UInt8.toNat_inj.mp
  have hc := c.toNat_lt
  rw [UInt32.toNat_toUInt8, encodeTrigram_toNat]
  omega

/-- The last bytes of the windows are the lower-cased word and the padding behind it. -/
lemma forEachTrigram_lasts (h : word ≠ []) :
    (forEachTrigram word).map UInt32.toUInt8 = word.map toLower ++ [0, 0] := by
  rw [forEachTrigram_windows h, List.map_map]
  apply List.ext_getElem
  · simp
  · intro i hi hi'
    rw [List.getElem_map, List.getElem_range]
    have hwindow : (windowCode (padded word) i).toUInt8 = (padded word).getD (i + 2) 0 :=
      encodeTrigram_last _ _ _
    rw [Function.comp_apply, hwindow, ← List.getD_eq_getElem _ 0 hi']
    rfl

/-- Equal codes come from words that differ in case only. -/
lemma forEachTrigram_eq_iff (v w : Bytes) :
    forEachTrigram v = forEachTrigram w ↔ v.map toLower = w.map toLower := by
  constructor
  · intro hcodes
    have hlength := congrArg List.length hcodes
    rw [forEachTrigram_length, forEachTrigram_length] at hlength
    by_cases hv : v = []
    · by_cases hw : w = []
      · rw [hv, hw]
      · rw [if_pos hv, if_neg hw] at hlength
        omega
    · by_cases hw : w = []
      · rw [if_neg hv, if_pos hw] at hlength
        omega
      · have hlasts := congrArg (List.map UInt32.toUInt8) hcodes
        rw [forEachTrigram_lasts hv, forEachTrigram_lasts hw] at hlasts
        exact List.append_cancel_right hlasts
  · intro hlower
    have hlength : v.length = w.length := by simpa using congrArg List.length hlower
    by_cases hv : v = []
    · rw [hv, List.length_nil] at hlength
      rw [hv, List.length_eq_zero_iff.mp hlength.symm]
    · have hw : w ≠ [] := by
        rintro rfl
        exact hv (List.length_eq_zero_iff.mp hlength)
      rw [forEachTrigram_windows hv, forEachTrigram_windows hw, padded, padded, hlower, hlength]

/-- A word of a 64-bit length emits as many codes as `trigram_count_for_length` says; they are those
of the windows of the padded word in their order, and two words emit the same codes exactly if they
are the same in lower case. -/
theorem trigram_extraction :
    (∀ (word : Bytes) (n : UInt64), word.length + 2 < 2 ^ 64 → n.toNat = word.length →
      (forEachTrigram word).length = (trigramCountForLength n).toNat) ∧
    (∀ word, word ≠ [] → (forEachTrigram word).length = word.length + 2 ∧
      ∀ i, i < word.length + 2 →
        (forEachTrigram word)[i]? = some (windowCode (padded word) i)) ∧
    ∀ v w, forEachTrigram v = forEachTrigram w ↔ v.map toLower = w.map toLower := by
  refine ⟨?_, ?_, forEachTrigram_eq_iff⟩
  · intro word n fits hn
    rw [forEachTrigram_length, trigramCountForLength]
    by_cases h : word = []
    · have hzero : n = 0 := UInt64.toNat_inj.mp (by rw [hn, h]; rfl)
      rw [if_pos h, if_pos hzero]
      rfl
    · have hne : n ≠ 0 := by
        rintro rfl
        exact h (List.length_eq_zero_iff.mp hn.symm)
      rw [if_neg h, if_neg hne, UInt64.toNat_add, hn]
      exact (Nat.mod_eq_of_lt fits).symm
  · intro word h
    have hlength : (forEachTrigram word).length = word.length + 2 := by
      rw [forEachTrigram_length, if_neg h]
    refine ⟨hlength, ?_⟩
    intro i hi
    rw [forEachTrigram_windows h, List.getElem?_map, List.getElem?_range hi]
    rfl

/-- A NUL of the word is told from the padding. -/
example : forEachTrigram [0x41, 0] ≠ forEachTrigram [0x41] ∧
    forEachTrigram [0x41, 0] = forEachTrigram [0x61, 0] := by decide

end TrigramWindows
