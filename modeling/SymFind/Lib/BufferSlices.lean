import Mathlib.Algebra.BigOperators.Group.List.Basic
import Mathlib.Algebra.GroupWithZero.Nat
import Mathlib.Tactic.Lemma

/-!
# Slices of a flat buffer

A buffer and a list of sizes stand for a list of slices, which a reader cuts off
one after the other, trusting the sizes. The description is right when the sizes
are those of the slices and the buffer is their concatenation; adding a slice at
the end keeps it right, and so does handing over only the first sizes.
-/
namespace BufferSlices
universe u
variable {α : Type u}

/-- The slices that a reader makes of the buffer by the sizes alone. -/
def cut : List Nat → List α → List (List α)
  | [], _ => []
  | size :: sizes, buffer => buffer.take size :: cut sizes (buffer.drop size)

structure Describes (sizes : List Nat) (buffer : List α) (slices : List (List α)) : Prop where
  sizes_eq : sizes = slices.map List.length
  buffer_eq : buffer = slices.flatten

/-- What follows the slices in the buffer is not read. -/
lemma cut_lengths (slices : List (List α)) (rest : List α) :
    cut (slices.map List.length) (slices.flatten ++ rest) = slices := by
  induction slices with
  | nil => rfl
  | cons slice slices ih =>
    rw [List.map_cons, List.flatten_cons, List.append_assoc, cut, List.take_left,
      List.drop_left, ih]

namespace Describes
variable {sizes : List Nat} {buffer : List α} {slices : List (List α)}

lemma nil : Describes [] [] ([] : List (List α)) := ⟨rfl, rfl⟩

lemma snoc (h : Describes sizes buffer slices) (slice : List α) :
    Describes (sizes ++ [slice.length]) (buffer ++ slice) (slices ++ [slice]) := by
  constructor
  · rw [h.sizes_eq, List.map_append, List.map_singleton]
  · rw [h.buffer_eq, List.flatten_append, List.flatten_singleton]

theorem total (h : Describes sizes buffer slices) : sizes.sum = buffer.length := by
  rw [h.sizes_eq, h.buffer_eq, List.length_flatten]

/-- The first sizes describe the first slices of the same buffer. -/
theorem cut_take (h : Describes sizes buffer slices) (count : Nat) :
    cut (sizes.take count) buffer = slices.take count := by
  have hparts : buffer = (slices.take count).flatten ++ (slices.drop count).flatten := by
    rw [h.buffer_eq, ← List.flatten_append, List.take_append_drop]
  rw [hparts, h.sizes_eq, ← List.map_take, cut_lengths]

theorem cut_eq (h : Describes sizes buffer slices) : cut sizes buffer = slices := by
  have hall := h.cut_take sizes.length
  have hlength : sizes.length = slices.length := by rw [h.sizes_eq, List.length_map]
  rw [List.take_length, hlength, List.take_length] at hall
  exact hall

/-- No slice ends behind the buffer. -/
theorem sum_take_le (h : Describes sizes buffer slices) (count : Nat) :
    (sizes.take count).sum ≤ buffer.length := by
  have hsplit := congrArg List.sum (List.take_append_drop count sizes)
  rw [List.sum_append, h.total] at hsplit
  omega

end Describes
end BufferSlices
