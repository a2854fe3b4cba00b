import Mathlib.Data.List.DropRight
import SymFind.Core.Compression
import SymFind.Lib.BufferSlices
import SymFind.Lib.EventRun
import SymFind.Lib.FilePatch

/-!
# The samples behind the two vectors of a dictionary builder

The bytes of all samples stand in one buffer and their sizes in another vector,
and training reads the buffer by the sizes alone. Over every history of calls
the two describe the samples that were added since the last `clear`.
-/
namespace TrainingSamples
open RecordCodec Compression BufferSlices EventRun

/-- `std::vector::max_size` for elements of a size. -/
def maxSize (elementSize : Nat) : Nat := (2 ^ 63 - 1) / elementSize

def averageSampleSize : UInt64 := 20

def newBuilder (maxDictionarySize : Nat) : DictionaryBuilder := ⟨[], [], maxDictionarySize⟩

/-- Only capacities change. A request above the maximum throws, which no `noexcept` function
survives: `none`. -/
def reserve (b : DictionaryBuilder) (samples : UInt64) : Option DictionaryBuilder :=
  if samples.toNat > maxSize 8 then none
  else if (samples * averageSampleSize).toNat > maxSize 1 then none
  else some b

/-- `add_sample` statement by statement: the size, room for the bytes, the bytes. -/
def appendSample (b : DictionaryBuilder) (sample : Bytes) : DictionaryBuilder :=
  if sample = [] then b
  else
    let b := { b with sampleSizes := b.sampleSizes ++ [sample.length] }
    let oldSize := b.samples.length
    let b := { b with samples := DictionaryBuilder.resize b.samples (oldSize + sample.length) }
    { b with samples := FilePatch.patch b.samples oldSize sample }

def clear (b : DictionaryBuilder) : DictionaryBuilder :=
  let b := { b with samples := [] }
  { b with sampleSizes := [] }

/-- Bytes copied into the room made for them stand behind the old ones. -/
lemma patch_resize (bs sample : Bytes) :
    FilePatch.patch (DictionaryBuilder.resize bs (bs.length + sample.length)) bs.length sample =
      bs ++ sample := by
  have hroom : DictionaryBuilder.resize bs (bs.length + sample.length) =
      bs ++ List.replicate sample.length 0 := by
    rw [DictionaryBuilder.resize, List.take_of_length_le (by omega), Nat.add_sub_cancel_left]
  rw [hroom, FilePatch.patch]
  simp

lemma appendSample_eq (b : DictionaryBuilder) (sample : Bytes) :
    appendSample b sample = b.addSample sample := by
  rw [appendSample, DictionaryBuilder.addSample]
  split
  · rfl
  · simp only [patch_resize]

section Histories

inductive Call where
  | addSample (sample : Bytes)
  | reserve (samples : UInt64)
  | clear
  deriving DecidableEq

def step (b : DictionaryBuilder) : Call → Option DictionaryBuilder
  | .addSample sample => some (appendSample b sample)
  | .reserve samples => reserve b samples
  | .clear => some (clear b)

/-- The calls behind the last `clear`. -/
def sinceClear (calls : List Call) : List Call := calls.rtakeWhile (· ≠ .clear)

def addedSample : Call → Option Bytes
  | .addSample sample => if sample = [] then none else some sample
  | .reserve _ => none
  | .clear => none

/-- The non-empty samples that were added since the last `clear`. -/
def keptSamples (calls : List Call) : List Bytes := (sinceClear calls).filterMap addedSample

lemma keptSamples_clear (calls : List Call) : keptSamples (calls ++ [.clear]) = [] := by
  rw [keptSamples, sinceClear, List.rtakeWhile_concat_neg _ _ _ (by decide), List.filterMap_nil]

lemma keptSamples_snoc (calls : List Call) {call : Call} (h : call ≠ .clear) :
    keptSamples (calls ++ [call]) = keptSamples calls ++ (addedSample call).toList := by
  rw [keptSamples, sinceClear, List.rtakeWhile_concat_pos _ _ _ (by simpa using h),
    List.filterMap_append]
  cases h : addedSample call with
  | none => simp [keptSamples, sinceClear, h]
  | some sample => simp [keptSamples, sinceClear, h]

lemma keptSamples_ne_nil {calls : List Call} {sample : Bytes} (h : sample ∈ keptSamples calls) :
    sample ≠ [] := by
  obtain ⟨call, _, hsample⟩ := List.mem_filterMap.mp h
  cases call with
  | addSample s =>
    rw [addedSample] at hsample
    split at hsample
    · cases hsample
    · cases hsample
      assumption
  | reserve n => cases hsample
  | clear => cases hsample

end Histories

section Alignment

lemma step_describes {b b' : DictionaryBuilder} {calls : List Call} {call : Call}
    (h : Describes b.sampleSizes b.samples (keptSamples calls)) (hstep : step b call = some b') :
    Describes b'.sampleSizes b'.samples (keptSamples (calls ++ [call])) := by
  cases call with
  | addSample sample =>
    cases hstep
    rw [appendSample_eq, DictionaryBuilder.addSample, keptSamples_snoc calls (by simp),
      addedSample]
    split
    · simpa using h
    · exact h.snoc sample
  | reserve samples =>
    have hsame : b = b' := by
      rw [step, reserve] at hstep
      split at hstep
      · cases hstep
      · split at hstep
        · cases hstep
        · exact Option.some.inj hstep
    rw [← hsame, keptSamples_snoc calls (by simp), addedSample]
    simpa using h
  | clear =>
    cases hstep
    rw [keptSamples_clear]
    exact Describes.nil

theorem run_describes {maxDictionarySize : Nat} {calls : List Call} {b : DictionaryBuilder}
    (ran : run step (newBuilder maxDictionarySize) calls = some b) :
    Describes b.sampleSizes b.samples (keptSamples calls) :=
  run_induction (P := fun calls b => Describes b.sampleSizes b.samples (keptSamples calls))
    Describes.nil (fun _ _ _ _ h hstep => step_describes h hstep) ran

/-- What is handed to the training: the count of the samples has 32 bits. -/
def handedSamples (samples : List Bytes) : List Bytes := samples.take (samples.length % 2 ^ 32)

/-- The vectors describe the samples, and so does what training hands over of them: it depends
on nothing but what libzstd does with that description. -/
structure Aligned (b : DictionaryBuilder) (samples : List Bytes) : Prop where
  positive : ∀ size ∈ b.sampleSizes, 0 < size
  total : b.sampleSizes.sum = b.samples.length
  slices : cut b.sampleSizes b.samples = samples
  handed_total : b.handedSizes.sum ≤ b.samples.length
  handed_slices : cut b.handedSizes b.samples = handedSamples samples
  training : ∀ z z' : Zstd,
    (∀ buffer, z.trainFromBuffer buffer samples.flatten ((handedSamples samples).map List.length) =
      z'.trainFromBuffer buffer samples.flatten ((handedSamples samples).map List.length)) →
    b.train z = b.train z'

lemma handedSizes_eq {b : DictionaryBuilder} {samples : List Bytes}
    (h : Describes b.sampleSizes b.samples samples) :
    b.handedSizes = b.sampleSizes.take (samples.length % 2 ^ 32) := by
  have hcount : b.sampleSizes.length = samples.length := by rw [h.sizes_eq, List.length_map]
  rw [DictionaryBuilder.handedSizes, UInt32.toNat_ofNat', hcount]

/-- After every sequence of calls the vectors describe the samples since the last `clear`. -/
theorem samples_aligned {maxDictionarySize : Nat} {calls : List Call} {b : DictionaryBuilder}
    (ran : run step (newBuilder maxDictionarySize) calls = some b) :
    Aligned b (keptSamples calls) := by
  have hdescribes := run_describes ran
  have hhanded := handedSizes_eq hdescribes
  constructor
  case positive =>
    rw [hdescribes.sizes_eq]
    intro size hsize
    obtain ⟨sample, hsample, rfl⟩ := List.mem_map.mp hsize
    exact List.length_pos_iff.mpr (keptSamples_ne_nil hsample)
  case total => exact hdescribes.total
  case slices => exact hdescribes.cut_eq
  case handed_total =>
    rw [hhanded]
    exact hdescribes.sum_take_le _
  case handed_slices =>
    rw [hhanded]
    exact hdescribes.cut_take _
  case training =>
    intro z z' agree
    have hsizes : b.handedSizes = (handedSamples (keptSamples calls)).map List.length := by
      rw [hhanded, hdescribes.sizes_eq, handedSamples, List.map_take]
    rw [← hsizes, ← hdescribes.buffer_eq] at agree
    rw [DictionaryBuilder.train, DictionaryBuilder.train, agree]

/-- Two samples stand behind a `clear`; the empty one and the reservation leave no trace. -/
theorem samples_aligned_run :
    Aligned ⟨[3, 4, 5], [1, 2], 4096⟩ [[3], [4, 5]] :=
  @samples_aligned 4096 [.addSample [1, 2], .reserve 8, .clear, .addSample [3], .addSample [],
    .addSample [4, 5]] _ rfl

end Alignment
end TrainingSamples
