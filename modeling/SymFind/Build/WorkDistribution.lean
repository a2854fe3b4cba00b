import SymFind.Build.ParallelBuild

/-!
# The distribution of the files and its two copies

`compute_file_id_chunks` and `DatabaseBuilder::launch_threads` cut the files into
chunks by the same loop; the second adds in 64 bits and cuts the sum, and starts
a thread for each chunk.
-/
namespace WorkDistribution
open Threading

section Sizes

/-- The size of the chunk of a thread. -/
def chunkSize (base remainder i : Nat) : Nat := base + if i < remainder then 1 else 0

lemma chunkSize_antitone (base remainder : Nat) {i j : Nat} (h : i ≤ j) :
    chunkSize base remainder j ≤ chunkSize base remainder i := by
  rw [chunkSize, chunkSize]
  split <;> split <;> omega

lemma chunkSize_bounds (base remainder i : Nat) :
    base ≤ chunkSize base remainder i ∧ chunkSize base remainder i ≤ base + 1 := by
  rw [chunkSize]
  split <;> omega

/-- While the bounds fit into 32 bits, each chunk has its size. -/
lemma chunksFrom_sizes (base remainder i threads start : Nat)
    (small : start + filesFrom base remainder i threads < 2 ^ 32) :
    (chunksFrom base remainder i threads (UInt32.ofNat start)).map List.length =
      (List.range' i threads).map (chunkSize base remainder) := by
  induction threads generalizing i start with
  | zero => rfl
  | succ threads ih =>
    rw [filesFrom_succ, ← chunkSize] at small
    have hlength : (fileIdsBetween (UInt32.ofNat start)
        (UInt32.ofNat (start + chunkSize base remainder i))).length =
        chunkSize base remainder i := by
      rw [length_fileIdsBetween, Nat.mod_eq_of_lt (by omega), Nat.mod_eq_of_lt (by omega),
        Nat.add_sub_cancel_left]
    rw [chunksFrom_succ (rfl : chunkSize base remainder i = _), List.map_cons, hlength,
      ih (i + 1) (start + chunkSize base remainder i) (by omega), List.range'_succ, List.map_cons]

lemma computeFileIdChunks_sizes {n t : Nat} (small : n < 2 ^ 32) (some_thread : 1 ≤ t) :
    (computeFileIdChunks n t).map List.length =
      (List.range' 0 t).map (chunkSize (n / t) (n % t)) := by
  have hall := filesFrom_all n some_thread
  exact chunksFrom_sizes (n / t) (n % t) 0 t 0 (by omega)

end Sizes

section Copy

/-- A thread is started with its files and the number of its table. -/
abbrev Start := FileIDList × Nat

/-- The passes of the copied loop; the sum is one of 64 bits that is stored in 32. -/
def launchFrom (base remainder : UInt64) : Nat → Nat → UInt32 → List Start
  | _, 0, _ => []
  | i, threads + 1, beginIndex =>
    let chunkSize := base + if UInt64.ofNat i < remainder then 1 else 0
    let endIndex := (beginIndex.toUInt64 + chunkSize).toUInt32
    (fileIdsBetween beginIndex endIndex, i) :: launchFrom base remainder (i + 1) threads endIndex

/-- `DatabaseBuilder::launch_threads`; without a thread the process exits. -/
def launchThreads (fileCount : UInt64) (threadCount : UInt16) : Option (List Start) :=
  if threadCount = 0 then none
  else
    let base := fileCount / threadCount.toUInt64
    let remainder := fileCount % threadCount.toUInt64
    some (launchFrom base remainder 0 threadCount.toNat 0)

/-- The 64-bit sum, cut to 32 bits, is the 32-bit sum. -/
lemma cut_sum (beginIndex : UInt32) (base : UInt64) (extra : Prop) [Decidable extra] :
    (beginIndex.toUInt64 + (base + if extra then 1 else 0)).toUInt32 =
      beginIndex + UInt32.ofNat (base.toNat + if extra then 1 else 0) := by
  apply UInt32.toNat_inj.mp
  have hbegin := beginIndex.toNat_lt
  have hbase := base.toNat_lt
  split <;>
    simp only [UInt64.toNat_toUInt32, UInt64.toNat_add, UInt32.toNat_toUInt64, UInt32.toNat_add,
      UInt32.toNat_ofNat', UInt64.reduceToNat] <;>
    omega

/-- Pass by pass both loops make the same chunk. -/
lemma launchFrom_chunks (base remainder : UInt64) (i threads : Nat) (beginIndex : UInt32)
    (counted : i + threads ≤ 2 ^ 64) :
    (launchFrom base remainder i threads beginIndex).map Prod.fst =
      chunksFrom base.toNat remainder.toNat i threads beginIndex := by
  induction threads generalizing i beginIndex with
  | zero => rfl
  | succ threads ih =>
    have hlt : UInt64.ofNat i < remainder ↔ i < remainder.toNat := by
      rw [UInt64.lt_iff_toNat_lt, UInt64.toNat_ofNat', Nat.mod_eq_of_lt (by omega)]
    simp only [launchFrom, chunksFrom, List.map_cons, cut_sum, hlt]
    rw [ih (i + 1) _ (by omega)]

lemma launchThreads_chunks (fileCount : UInt64) {threadCount : UInt16}
    (some_thread : 1 ≤ threadCount.toNat) :
    (launchThreads fileCount threadCount).map (List.map Prod.fst) =
      some (computeFileIdChunks fileCount.toNat threadCount.toNat) := by
  have hne := one_le_toNat_iff.mp some_thread
  have hthreads := threadCount.toNat_lt
  rw [launchThreads, if_neg hne, Option.map_some,
    launchFrom_chunks _ _ _ _ _ (by omega), UInt64.toNat_div, UInt64.toNat_mod]
  simp [computeFileIdChunks]

end Copy

section Partition

/-- Each of the `t` threads has a chunk; one after the other the chunks are the files in order,
none is longer than one before it or shorter by more than one, and both copies agree. -/
theorem work_distribution {n t : Nat} (small : n < 2 ^ 32) (some_thread : 1 ≤ t) :
    (computeFileIdChunks n t).length = t ∧
    (computeFileIdChunks n t).flatten = (List.range n).map UInt32.ofNat ∧
    ((computeFileIdChunks n t).map List.length).Pairwise (fun size later => later ≤ size) ∧
    (∀ chunk ∈ computeFileIdChunks n t, ∀ other ∈ computeFileIdChunks n t,
      chunk.length ≤ other.length + 1) ∧
    ∀ fileCount threadCount, UInt64.toNat fileCount = n → UInt16.toNat threadCount = t →
      (launchThreads fileCount threadCount).map (List.map Prod.fst) =
        some (computeFileIdChunks n t) := by
  have hsizes := computeFileIdChunks_sizes small some_thread
  refine ⟨?_, computeFileIdChunks_flatten some_thread small, ?_, ?_, ?_⟩
  · simpa using congrArg List.length hsizes
  · rw [hsizes, ← List.range_eq_range', List.pairwise_map]
    exact List.pairwise_lt_range.imp (fun h => chunkSize_antitone _ _ (Nat.le_of_lt h))
  · have hbounds : ∀ chunk ∈ computeFileIdChunks n t,
        n / t ≤ chunk.length ∧ chunk.length ≤ n / t + 1 := by
      intro chunk hchunk
      have hmem := List.mem_map_of_mem (f := List.length) hchunk
      rw [hsizes] at hmem
      obtain ⟨i, -, hi⟩ := List.mem_map.mp hmem
      rw [← hi]
      exact chunkSize_bounds _ _ i
    intro chunk hchunk other hother
    have hupper := (hbounds chunk hchunk).2
    have hlower := (hbounds other hother).1
    omega
  · rintro fileCount threadCount rfl rfl
    exact launchThreads_chunks fileCount some_thread

/-- Ten files for three threads. -/
theorem work_distribution_ten : computeFileIdChunks 10 3 = [[0, 1, 2, 3], [4, 5, 6], [7, 8, 9]] ∧
    (computeFileIdChunks 10 3).length = 3 :=
  ⟨by decide, (work_distribution (n := 10) (by decide) (by decide)).1⟩

end Partition
end WorkDistribution
