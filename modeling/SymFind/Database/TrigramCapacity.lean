import SymFind.Database.TrigramTable
import Mathlib.Data.Nat.Find
import Mathlib.Order.Bounds.Basic

/-!
# The capacity of the trigram table

The capacity is doubled from 16 until the entries fit. The doubling is one of 64
bits, so after the largest power of two comes zero, and the loop goes on for ever.
The count is compared as a `double`: a count of more than 53 bits may be rounded
down onto the bound of a capacity that is too small for it.
-/
namespace TrigramCapacity
open NearestEven Machine TrigramTable

section Passes

lemma toNat_two_pow {k : Nat} (hk : k < 64) : (UInt64.ofNat (2 ^ k)).toNat = 2 ^ k := by
  rw [UInt64.toNat_ofNat']
  exact Nat.mod_eq_of_lt (Nat.pow_lt_pow_right (by omega) hk)

lemma double_two_pow {k : Nat} (hk : k + 1 < 64) :
    UInt64.ofNat (2 ^ k) <<< 1 = UInt64.ofNat (2 ^ (k + 1)) := by
  apply UInt64.toNat_inj.mp
  have hlt : 2 ^ (k + 1) < 2 ^ 64 := Nat.pow_lt_pow_right (by omega) hk
  rw [UInt64.toNat_shiftLeft, toNat_two_pow (by omega), toNat_two_pow hk, Nat.shiftLeft_eq]
  simp only [UInt64.reduceToNat, Nat.reduceMod, pow_one]
  rw [Nat.pow_succ] at hlt ⊢
  exact Nat.mod_eq_of_lt hlt

lemma toDouble_small {count : UInt64} (h : count.toNat < 2 ^ doubleDigits) :
    toDouble count = count.toNat := roundTo_small h

/-- A power of two is a `double`. -/
lemma toDouble_two_pow {k : Nat} (hk : k < 64) : toDouble (UInt64.ofNat (2 ^ k)) = 2 ^ k := by
  rw [toDouble, toNat_two_pow hk]
  exact roundTo_two_pow (by decide) k

/-- The entries fit into a table of the size under the load factor. -/
def Fits (count : Nat) (maxLoadFactor : LoadFactor) (size : Nat) : Prop :=
  2 ^ maxLoadFactor.exponent * count ≤ maxLoadFactor.significand * size

instance (count : Nat) (maxLoadFactor : LoadFactor) (size : Nat) :
    Decidable (Fits count maxLoadFactor size) := Nat.decLe _ _

variable {count : UInt64} {maxLoadFactor : LoadFactor}

lemma Fits.mono {items size larger : Nat} (fits : Fits items maxLoadFactor size)
    (h : size ≤ larger) : Fits items maxLoadFactor larger :=
  fits.trans (Nat.mul_le_mul_left _ h)

/-- Rounding takes no count beyond the bound of a power of two. -/
lemma Fits.rounded {k : Nat} (fits : Fits count.toNat maxLoadFactor (2 ^ k)) :
    Fits (toDouble count) maxLoadFactor (2 ^ k) := by
  rw [Fits, Nat.mul_comm (2 ^ maxLoadFactor.exponent)] at fits ⊢
  exact roundTo_mul_le maxLoadFactor.narrow fits

lemma capacityPass_grow {k : Nat} (hk : k < 64)
    (h : ¬ Fits (toDouble count) maxLoadFactor (2 ^ k)) :
    capacityPass count maxLoadFactor (UInt64.ofNat (2 ^ k)) =
      .inr (UInt64.ofNat (2 ^ k) <<< 1) := by
  rw [capacityPass, if_pos]
  exact Or.inr (by rw [toDouble_two_pow hk]; exact Nat.not_le.mp h)

lemma capacityPass_leave {k : Nat} (hk : k < 64)
    (h : Fits (toDouble count) maxLoadFactor (2 ^ k)) :
    capacityPass count maxLoadFactor (UInt64.ofNat (2 ^ k)) =
      .inl (.ok (UInt64.ofNat (2 ^ k))) := by
  rw [capacityPass, if_neg]
  have hpos : 0 < 2 ^ k := Nat.two_pow_pos k
  rintro (hzero | hmore)
  · have := congrArg UInt64.toNat hzero
    rw [toNat_two_pow hk] at this
    simp at this
  · rw [toDouble_two_pow hk] at hmore
    exact absurd h (Nat.not_le.mpr hmore)

/-- Zero is doubled to zero. -/
lemma capacityPass_zero : capacityPass count maxLoadFactor 0 = .inr 0 := by
  rw [capacityPass, if_pos (Or.inl rfl)]
  rfl

lemma capacityPass_last (h : ¬ Fits (toDouble count) maxLoadFactor (2 ^ 63)) :
    capacityPass count maxLoadFactor (UInt64.ofNat (2 ^ 63)) = .inr 0 := by
  rw [capacityPass_grow (by omega) h]
  rfl

end Passes

section Loop

variable {count : UInt64} {maxLoadFactor : LoadFactor}

/-- The loop ends with the capacity. -/
def Returns (count : UInt64) (maxLoadFactor : LoadFactor) (capacity : UInt64) : Prop :=
  ∃ fuel, BoundedLoop.run (capacityPass count maxLoadFactor) fuel 16 = some (.ok capacity)

/-- The first power of two that is large enough is found before the fuel is used up. -/
lemma run_first {d : Nat} (hd : 4 + d < 64)
    (fits : Fits (toDouble count) maxLoadFactor (2 ^ (4 + d)))
    (first : ∀ e, e < d → ¬ Fits (toDouble count) maxLoadFactor (2 ^ (4 + e))) {fuel : Nat}
    (enough : d < fuel) :
    BoundedLoop.run (capacityPass count maxLoadFactor) fuel 16 =
      some (.ok (UInt64.ofNat (2 ^ (4 + d)))) := by
  have steps : ∀ e, e < d → capacityPass count maxLoadFactor (UInt64.ofNat (2 ^ (4 + e))) =
      .inr (UInt64.ofNat (2 ^ (4 + (e + 1)))) := by
    intro e he
    rw [capacityPass_grow (by omega) (first e he), double_two_pow (by omega), Nat.add_assoc]
  exact BoundedLoop.run_of_chain _ (fun e => UInt64.ofNat (2 ^ (4 + e))) _ d steps
    (capacityPass_leave hd fits) fuel enough

/-- If no power of two of 64 bits is large enough, the loop does not end. -/
lemma run_never (h : ¬ Fits (toDouble count) maxLoadFactor (2 ^ 63)) (fuel : Nat) :
    BoundedLoop.run (capacityPass count maxLoadFactor) fuel 16 = none := by
  apply BoundedLoop.run_none (fun capacity => capacity = 0 ∨
    ∃ k, 4 ≤ k ∧ k < 64 ∧ capacity = UInt64.ofNat (2 ^ k))
  · rintro capacity (rfl | ⟨k, hlow, hhigh, rfl⟩)
    · exact ⟨0, capacityPass_zero, .inl rfl⟩
    · by_cases hlast : k = 63
      · subst hlast
        exact ⟨0, capacityPass_last h, .inl rfl⟩
      · have hsmall : ¬ Fits (toDouble count) maxLoadFactor (2 ^ k) :=
          fun fits => h (fits.mono (Nat.pow_le_pow_right (by omega) (by omega)))
        refine ⟨UInt64.ofNat (2 ^ (k + 1)), ?_, .inr ⟨k + 1, by omega, by omega, rfl⟩⟩
        rw [capacityPass_grow hhigh hsmall, double_two_pow (by omega)]
  · exact .inr ⟨4, by omega, by omega, rfl⟩

/-- The sizes of tables into which the entries fit. -/
def capacities (count : Nat) (maxLoadFactor : LoadFactor) : Set Nat :=
  { size | (∃ k, size = 2 ^ k) ∧ 16 ≤ size ∧ Fits count maxLoadFactor size }

/-- The loop ends with the least size for the rounded count if there is one of 64 bits. -/
lemma returns_least (h : Fits (toDouble count) maxLoadFactor (2 ^ 63)) :
    ∃ d, 4 + d < 64 ∧ IsLeast (capacities (toDouble count) maxLoadFactor) (2 ^ (4 + d)) ∧
      ∀ fuel, d < fuel → BoundedLoop.run (capacityPass count maxLoadFactor) fuel 16 =
        some (.ok (UInt64.ofNat (2 ^ (4 + d)))) := by
  have some_fits : ∃ d, Fits (toDouble count) maxLoadFactor (2 ^ (4 + d)) := ⟨59, h⟩
  have hd : Nat.find some_fits ≤ 59 := Nat.find_min' some_fits h
  have fits := Nat.find_spec some_fits
  refine ⟨Nat.find some_fits, by omega, ⟨⟨⟨_, rfl⟩, ?_, fits⟩, ?_⟩, ?_⟩
  · exact (by decide : 16 ≤ 2 ^ 4).trans (Nat.pow_le_pow_right (by omega) (by omega))
  · rintro size ⟨⟨k, rfl⟩, hlow, hfits⟩
    have hk : 4 ≤ k := (Nat.pow_le_pow_iff_right (by omega : 1 < 2)).mp hlow
    have hfound : Nat.find some_fits ≤ k - 4 :=
      Nat.find_min' some_fits (by rwa [Nat.add_sub_cancel' hk])
    exact Nat.pow_le_pow_right (by omega) (by omega)
  · exact fun fuel enough =>
      run_first (by omega) fits (fun e he => Nat.find_min some_fits he) enough

/-- A loop that ends has found the least size for the rounded count. -/
lemma least_of_returns {capacity : UInt64} (returns : Returns count maxLoadFactor capacity) :
    IsLeast (capacities (toDouble count) maxLoadFactor) capacity.toNat := by
  obtain ⟨fuel, hrun⟩ := returns
  by_cases h : Fits (toDouble count) maxLoadFactor (2 ^ 63)
  · obtain ⟨d, hd, hleast, hends⟩ := returns_least h
    have hsame := BoundedLoop.run_unique hrun (hends (d + 1) (Nat.lt_succ_self d))
    rwa [Except.ok.inj hsame, toNat_two_pow hd]
  · rw [run_never h] at hrun
    cases hrun

/-- The loop ends with the least capacity exactly if the entries fit into the largest power of two
of 64 bits and no power of two into which they do not fit takes the count as it is rounded. -/
theorem capacity_least_iff (count : UInt64) (maxLoadFactor : LoadFactor) :
    (∃ capacity, Returns count maxLoadFactor capacity ∧
      IsLeast (capacities count.toNat maxLoadFactor) capacity.toNat) ↔
    Fits count.toNat maxLoadFactor (2 ^ 63) ∧ ∀ k, 4 ≤ k → k < 63 →
      Fits (toDouble count) maxLoadFactor (2 ^ k) → Fits count.toNat maxLoadFactor (2 ^ k) := by
  constructor
  · rintro ⟨capacity, hreturns, ⟨-, -, hfits⟩, -⟩
    obtain ⟨⟨⟨k, hpower⟩, -, -⟩, hlow⟩ := least_of_returns hreturns
    constructor
    · have hlt := capacity.toNat_lt
      rw [hpower] at hlt hfits
      have hk : k < 64 := (Nat.pow_lt_pow_iff_right (by omega)).mp hlt
      exact hfits.mono (Nat.pow_le_pow_right (by omega) (by omega))
    · intro j hj _ hrounded
      have hsixteen : 16 ≤ 2 ^ j := Nat.pow_le_pow_right (by omega : 0 < 2) hj
      exact hfits.mono (hlow ⟨⟨j, rfl⟩, hsixteen, hrounded⟩)
  · rintro ⟨h, hexact⟩
    obtain ⟨d, hd, ⟨⟨-, hlow, hrounded⟩, hmin⟩, hrun⟩ := returns_least h.rounded
    refine ⟨UInt64.ofNat (2 ^ (4 + d)), ⟨d + 1, hrun (d + 1) (Nat.lt_succ_self d)⟩, ?_⟩
    rw [toNat_two_pow hd]
    refine ⟨⟨⟨_, rfl⟩, hlow, ?_⟩, ?_⟩
    · by_cases hlast : 4 + d = 63
      · rwa [hlast]
      · exact hexact _ (by omega) (by omega) hrounded
    · rintro size ⟨⟨k, rfl⟩, hsixteen, hfits⟩
      exact hmin ⟨⟨k, rfl⟩, hsixteen, hfits.rounded⟩

/-- For the largest count the loop does not end with the default load factor. -/
theorem capacity_diverges :
    (∀ fuel, BoundedLoop.run (capacityPass 0xFFFFFFFFFFFFFFFF LoadFactor.default) fuel 16 = none) ∧
    ¬ ∃ capacity, Returns 0xFFFFFFFFFFFFFFFF LoadFactor.default capacity ∧
      IsLeast (capacities (0xFFFFFFFFFFFFFFFF : UInt64).toNat LoadFactor.default)
        capacity.toNat := by
  have never := @run_never 0xFFFFFFFFFFFFFFFF LoadFactor.default (by decide +kernel)
  refine ⟨never, ?_⟩
  rintro ⟨capacity, ⟨fuel, hrun⟩, -⟩
  rw [never] at hrun
  cases hrun

/-- The load factor 1. -/
def fullLoad : LoadFactor := ⟨1, 0, by decide, by decide, by decide, by decide⟩

/-- A count of 54 bits is rounded down to the capacity that the loop returns. -/
example : BoundedLoop.run (capacityPass (2 ^ 53 + 1) fullLoad) 50 16 = some (.ok (2 ^ 53)) ∧
    ¬ Fits (2 ^ 53 + 1 : UInt64).toNat fullLoad (2 ^ 53) := by decide +kernel

end Loop
end TrigramCapacity
