import Mathlib.Data.List.Range
import Mathlib.Tactic.Lemma
import Mathlib.Tactic.Ring

/-!
# Distributing files over threads

The files are cut into consecutive chunks whose sizes differ by one at most.
The bounds of a chunk are counted in 32 bits.
-/
namespace Threading

abbrev FileID := UInt32
abbrev FileIDList := List FileID

/-- A count of threads that is not 0 is one of some thread. -/
lemma one_le_toNat_iff {threadCount : UInt16} : 1 ≤ threadCount.toNat ↔ threadCount ≠ 0 := by
  rw [Nat.one_le_iff_ne_zero, ne_eq, ne_eq, ← UInt16.toNat_inj]
  rfl

/-- The ids from `beginIndex` up to `endIndex`. -/
def fileIdsBetween (beginIndex endIndex : UInt32) : FileIDList :=
  (List.range' beginIndex.toNat (endIndex.toNat - beginIndex.toNat)).map UInt32.ofNat

/-- The passes of the loop from thread `i` on. -/
def chunksFrom (base remainder : Nat) : Nat → Nat → UInt32 → List FileIDList
  | _, 0, _ => []
  | i, threads + 1, beginIndex =>
    let chunkSize := base + if i < remainder then 1 else 0
    let endIndex := beginIndex + UInt32.ofNat chunkSize
    fileIdsBetween beginIndex endIndex :: chunksFrom base remainder (i + 1) threads endIndex

/-- The chunks of `n` files for `t` threads. `DatabaseBuilder::launch_threads` has its own copy
of this loop. -/
def computeFileIdChunks (n t : Nat) : List FileIDList := chunksFrom (n / t) (n % t) 0 t 0

/-- The files that the threads from `i` on get. -/
def filesFrom (base remainder i threads : Nat) : Nat :=
  threads * base + (min (i + threads) remainder - min i remainder)

lemma filesFrom_succ (base remainder i threads : Nat) :
    filesFrom base remainder i (threads + 1) =
      (base + if i < remainder then 1 else 0) + filesFrom base remainder (i + 1) threads := by
  rw [filesFrom, filesFrom, Nat.succ_mul]
  split <;> omega

lemma filesFrom_all (n : Nat) {t : Nat} (some_thread : 1 ≤ t) :
    filesFrom (n / t) (n % t) 0 t = n := by
  have hrest := Nat.mod_lt n some_thread
  have hdiv := Nat.div_add_mod n t
  rw [filesFrom]
  omega

lemma length_fileIdsBetween (start stop : Nat) :
    (fileIdsBetween (UInt32.ofNat start) (UInt32.ofNat stop)).length =
      stop % 2 ^ 32 - start % 2 ^ 32 := by
  rw [fileIdsBetween, List.length_map, List.length_range', UInt32.toNat_ofNat',
    UInt32.toNat_ofNat']

/-- One pass, with its bounds counted in numbers. -/
lemma chunksFrom_succ {base remainder i size : Nat}
    (hsize : size = base + if i < remainder then 1 else 0) (threads start : Nat) :
    chunksFrom base remainder i (threads + 1) (UInt32.ofNat start) =
      fileIdsBetween (UInt32.ofNat start) (UInt32.ofNat (start + size)) ::
        chunksFrom base remainder (i + 1) threads (UInt32.ofNat (start + size)) := by
  rw [chunksFrom, ← hsize, UInt32.ofNat_add]

lemma chunksFrom_flatten (base remainder i threads start : Nat)
    (small : start + filesFrom base remainder i threads < 2 ^ 32) :
    (chunksFrom base remainder i threads (UInt32.ofNat start)).flatten =
      (List.range' start (filesFrom base remainder i threads)).map UInt32.ofNat := by
  induction threads generalizing i start with
  | zero => simp [chunksFrom, filesFrom]
  | succ threads ih =>
    obtain ⟨size, hsize⟩ : ∃ size, size = base + if i < remainder then 1 else 0 := ⟨_, rfl⟩
    rw [filesFrom_succ, ← hsize] at small ⊢
    have hids : fileIdsBetween (UInt32.ofNat start) (UInt32.ofNat (start + size)) =
        (List.range' start size).map UInt32.ofNat := by
      rw [fileIdsBetween, UInt32.toNat_ofNat', UInt32.toNat_ofNat', Nat.mod_eq_of_lt (by omega),
        Nat.mod_eq_of_lt (by omega), Nat.add_sub_cancel_left]
    rw [chunksFrom_succ hsize, List.flatten_cons, hids, ih (i + 1) (start + size) (by omega),
      ← List.map_append, ← List.range'_append_1]

/-- The chunks give every file to one thread, in order. -/
theorem computeFileIdChunks_flatten {n t : Nat} (some_thread : 1 ≤ t) (small : n < 2 ^ 32) :
    (computeFileIdChunks n t).flatten = (List.range n).map UInt32.ofNat := by
  have hall := filesFrom_all n some_thread
  have hflat := chunksFrom_flatten (n / t) (n % t) 0 t 0 (by omega)
  rw [hall, ← List.range_eq_range'] at hflat
  exact hflat

end Threading
