import SymFind.Build.WorkDistribution

/-!
# The number of threads for a list of files

A list gets as many threads as the hardware runs at once when each of them has
20 files to read, and one thread for every 20 files otherwise. The files for a
thread are counted in 32 bits and the threads in 16. The count is right unless
the hardware is unknown or a quotient loses its upper bits.
-/
namespace ThreadCount
open Threading WorkDistribution

/-- `std::thread::hardware_concurrency` counts in 32 bits, and 0 is "not known". -/
def getHardwareConcurrency (hardwareConcurrency : UInt32) : UInt16 := hardwareConcurrency.toUInt16

def minimumFilesPerThread : UInt32 := 20

/-- `none` is a division by zero. -/
def getProperThreadCountToProcessList (hardwareConcurrency : UInt32) (listSize : UInt64) :
    Option UInt16 :=
  let threadsCount := getHardwareConcurrency hardwareConcurrency
  if threadsCount = 0 then none
  else
    let currentFilesPerThread := (listSize / threadsCount.toUInt64).toUInt32
    if currentFilesPerThread ≥ minimumFilesPerThread then some threadsCount
    else some (max 1 (listSize / minimumFilesPerThread.toUInt64).toUInt16)

section Division

/-- The sizes of the chunks in the passes from thread `i` on. -/
def chunkSizesFrom (base remainder i threads : Nat) : List Nat :=
  (List.range' i threads).map (chunkSize base remainder)

/-- The sizes into which `n` files are divided for `t` threads, whatever their ids. -/
def chunkSizes (n t : Nat) : List Nat := chunkSizesFrom (n / t) (n % t) 0 t

/-- The last thread gets no more than the quotient, and no thread gets less. -/
lemma le_chunkSizes_iff {base remainder t least : Nat} (rest : remainder < t) :
    (∀ size ∈ chunkSizesFrom base remainder 0 t, least ≤ size) ↔ least ≤ base := by
  simp only [chunkSizesFrom, List.forall_mem_map, List.mem_range'_1]
  constructor
  · intro h
    have hlast := h (t - 1) (by omega)
    rw [chunkSize, if_neg (by omega)] at hlast
    exact hlast
  · intro h i _
    exact h.trans (chunkSize_bounds base remainder i).1

end Division

/-- A count of threads that the hardware can run, each of them with files enough. -/
structure Usable (hardware : UInt16) (listSize : UInt64) (threads : UInt16) : Prop where
  some_thread : 1 ≤ threads.toNat
  hardware_runs : threads.toNat ≤ max 1 hardware.toNat
  sizes : 1 < threads.toNat → ∀ size ∈ chunkSizes listSize.toNat threads.toNat, 20 ≤ size
  chunks : 1 < threads.toNat → listSize.toNat < 2 ^ 32 →
    ∀ fileIds ∈ computeFileIdChunks listSize.toNat threads.toNat, 20 ≤ fileIds.length

/-- The hardware is known, and either the files for a thread fit in 32 bits, or what is left of
them is not too few, or the list exceeds a multiple of 20 times 65536 by little. -/
def QuotientsFit (hardware : UInt16) (listSize : UInt64) : Prop :=
  hardware ≠ 0 ∧
    (listSize.toNat / hardware.toNat < 2 ^ 32 ∨
      20 ≤ listSize.toNat / hardware.toNat % 2 ^ 32 ∨
      listSize.toNat % (20 * 2 ^ 16) < 20 * (hardware.toNat + 1))

lemma usable_of_files {hardware threads : UInt16} {listSize : UInt64}
    (some_thread : 1 ≤ threads.toNat) (runs : threads.toNat ≤ hardware.toNat)
    (files : 1 < threads.toNat → 20 ≤ listSize.toNat / threads.toNat) :
    Usable hardware listSize threads := by
  have sizes : 1 < threads.toNat →
      ∀ size ∈ chunkSizes listSize.toNat threads.toNat, 20 ≤ size :=
    fun hmany => (le_chunkSizes_iff (Nat.mod_lt _ some_thread)).mpr (files hmany)
  refine ⟨some_thread, runs.trans (Nat.le_max_right _ _), sizes, ?_⟩
  intro hmany small fileIds hids
  have hsizes := computeFileIdChunks_sizes small some_thread
  apply sizes hmany
  rw [chunkSizes, chunkSizesFrom, ← hsizes]
  exact List.mem_map_of_mem hids

section Count
variable {hardwareConcurrency : UInt32} {listSize : UInt64} {hardware : UInt16}

lemma count_unknown (h : getHardwareConcurrency hardwareConcurrency = 0) :
    getProperThreadCountToProcessList hardwareConcurrency listSize = none := by
  rw [getProperThreadCountToProcessList, if_pos h]

lemma count_known (h : getHardwareConcurrency hardwareConcurrency = hardware)
    (known : hardware ≠ 0) :
    getProperThreadCountToProcessList hardwareConcurrency listSize =
      some (if 20 ≤ listSize.toNat / hardware.toNat % 2 ^ 32 then hardware
        else max 1 (listSize / 20).toUInt16) := by
  have hfiles : (listSize / hardware.toUInt64).toUInt32 ≥ minimumFilesPerThread ↔
      20 ≤ listSize.toNat / hardware.toNat % 2 ^ 32 := by
    rw [ge_iff_le, UInt32.le_iff_toNat_le, UInt64.toNat_toUInt32, UInt64.toNat_div,
      UInt16.toNat_toUInt64]
    rfl
  rw [getProperThreadCountToProcessList, h, if_neg known]
  simp only [hfiles]
  split
  · rfl
  · rfl

lemma fallback_toNat (listSize : UInt64) :
    (max 1 (listSize / 20).toUInt16).toNat = max 1 (listSize.toNat / 20 % 2 ^ 16) := by
  have hcast : (listSize / 20).toUInt16.toNat = listSize.toNat / 20 % 2 ^ 16 := by
    rw [UInt64.toNat_toUInt16, UInt64.toNat_div]
    rfl
  rw [← hcast]
  change (if 1 ≤ (listSize / 20).toUInt16 then (listSize / 20).toUInt16 else 1).toNat = _
  simp only [UInt16.le_iff_toNat_le, UInt16.toNat_one]
  split
  · rename_i h
    exact (Nat.max_eq_right h).symm
  · rename_i h
    exact (Nat.max_eq_left (Nat.le_of_not_le h)).symm

end Count

/-- With fewer files a thread than 20 the second quotient is not cut off. -/
lemma fallback_whole {n hardware : Nat} (few : n / hardware < 20) (known : 1 ≤ hardware)
    (width : hardware < 2 ^ 16) : n / 20 % 2 ^ 16 = n / 20 ∧ n / 20 < hardware := by
  have hn : n < 20 * hardware := (Nat.div_lt_iff_lt_mul known).mp few
  have hdiv : n / 20 < hardware := Nat.div_lt_of_lt_mul hn
  exact ⟨Nat.mod_eq_of_lt (hdiv.trans width), hdiv⟩

/-- One thread for every 20 files leaves 20 files to each, if there is more than one. -/
lemma fallback_files {n : Nat} (many : 1 < max 1 (n / 20)) : 20 ≤ n / max 1 (n / 20) := by
  have hmax : max 1 (n / 20) = n / 20 := by omega
  rw [hmax] at many ⊢
  rw [Nat.le_div_iff_mul_le (by omega), Nat.mul_comm]
  exact Nat.div_mul_le_self n 20

lemma le_hardware_iff (n : Nat) {hardware : Nat} (known : 1 ≤ hardware) :
    max 1 (n / 20 % 2 ^ 16) ≤ hardware ↔ n % (20 * 2 ^ 16) < 20 * (hardware + 1) := by
  have hmod : n % (20 * 2 ^ 16) / 20 = n / 20 % 2 ^ 16 := Nat.mod_mul_right_div_self n 20 (2 ^ 16)
  rw [← hmod]
  omega

lemma fallback_usable {hardware : UInt16} {listSize : UInt64}
    (runs : max 1 (listSize.toNat / 20 % 2 ^ 16) ≤ hardware.toNat)
    (files : 1 < max 1 (listSize.toNat / 20 % 2 ^ 16) →
      20 ≤ listSize.toNat / max 1 (listSize.toNat / 20 % 2 ^ 16)) :
    Usable hardware listSize (max 1 (listSize / 20).toUInt16) := by
  rw [← fallback_toNat] at runs files
  apply usable_of_files _ runs files
  rw [fallback_toNat]
  exact Nat.le_max_left _ _

lemma fallback_usable_iff {hardware : UInt16} (known : 1 ≤ hardware.toNat) {listSize : UInt64}
    (few : listSize.toNat / hardware.toNat % 2 ^ 32 < 20) :
    Usable hardware listSize (max 1 (listSize / 20).toUInt16) ↔
      listSize.toNat / hardware.toNat < 2 ^ 32 ∨
        listSize.toNat % (20 * 2 ^ 16) < 20 * (hardware.toNat + 1) := by
  constructor
  · intro usable
    have hruns := usable.hardware_runs
    rw [fallback_toNat, Nat.max_eq_right known] at hruns
    exact Or.inr ((le_hardware_iff _ known).mp hruns)
  · intro fits
    by_cases whole : listSize.toNat / hardware.toNat < 2 ^ 32
    · rw [Nat.mod_eq_of_lt whole] at few
      obtain ⟨huncut, hfewer⟩ := fallback_whole few known hardware.toNat_lt
      apply fallback_usable
      · rw [huncut]
        exact Nat.max_le.mpr ⟨known, hfewer.le⟩
      · rw [huncut]
        exact fallback_files
    · -- the quotient is large and only its lower bits are few, so fewer threads get more each
      have hruns := (le_hardware_iff _ known).mpr (fits.resolve_left whole)
      have hmore := Nat.div_le_div_left hruns (Nat.le_max_left _ _) (a := listSize.toNat)
      apply fallback_usable hruns
      intro _
      omega

/-- The count is usable exactly where the quotients keep what the comparison needs. -/
theorem threadCount_usable_iff (hardwareConcurrency : UInt32) (listSize : UInt64) :
    (∃ threads, getProperThreadCountToProcessList hardwareConcurrency listSize = some threads ∧
        Usable (getHardwareConcurrency hardwareConcurrency) listSize threads) ↔
      QuotientsFit (getHardwareConcurrency hardwareConcurrency) listSize := by
  obtain ⟨hardware, hhardware⟩ :
      ∃ hardware, getHardwareConcurrency hardwareConcurrency = hardware := ⟨_, rfl⟩
  rw [hhardware]
  by_cases known : hardware = 0
  · subst known
    rw [count_unknown hhardware]
    simp [QuotientsFit]
  have hpos := one_le_toNat_iff.mpr known
  rw [count_known hhardware known]
  by_cases enough : 20 ≤ listSize.toNat / hardware.toNat % 2 ^ 32
  · -- every thread that the hardware runs
    rw [if_pos enough]
    refine iff_of_true ⟨hardware, rfl, ?_⟩ ⟨known, Or.inr (Or.inl enough)⟩
    exact usable_of_files hpos le_rfl (fun _ => enough.trans (Nat.mod_le _ _))
  · -- one thread for every 20 files
    rw [if_neg enough]
    have hfallback := fallback_usable_iff hpos (Nat.lt_of_not_le enough)
    simp only [Option.some.injEq, exists_eq_left', hfallback, QuotientsFit, ne_eq, known,
      not_false_eq_true, true_and, enough, false_or]

/-- Where the hardware is unknown there is no count; for 16 threads and 16 times 2^32 files,
the count is 52428. -/
theorem threadCount_unusable :
    ¬ (∃ threads, getProperThreadCountToProcessList 0 100 = some threads ∧
        Usable (getHardwareConcurrency 0) 100 threads) ∧
      getProperThreadCountToProcessList 16 0x1000000000 = some 52428 ∧
      ¬ (∃ threads, getProperThreadCountToProcessList 16 0x1000000000 = some threads ∧
        Usable (getHardwareConcurrency 16) 0x1000000000 threads) := by
  have hunknown : getProperThreadCountToProcessList 0 100 = none := by decide
  have hcut : getProperThreadCountToProcessList 16 0x1000000000 = some 52428 := by decide
  refine ⟨?_, hcut, ?_⟩
  · rintro ⟨threads, hthreads, _⟩
    rw [hunknown] at hthreads
    cases hthreads
  · rintro ⟨threads, hthreads, usable⟩
    rw [hcut] at hthreads
    cases hthreads
    exact absurd usable.hardware_runs (by decide)

end ThreadCount
