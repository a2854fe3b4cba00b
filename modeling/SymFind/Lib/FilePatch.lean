import SymFind.Lib.RecordCodec

/-!
# Files as byte strings under positioned writes

A positioned write replaces the bytes at an offset; a gap before the offset is
filled with zeros. Writing a buffer in pieces is writing it at once, and
rewriting a prefix of the same length leaves the rest.
-/
namespace FilePatch
open RecordCodec

/-- The file after the bytes have been written at the offset. -/
def patch (file : Bytes) (offset : Nat) (bs : Bytes) : Bytes :=
  file.take offset ++ List.replicate (offset - file.length) 0 ++ bs ++
    file.drop (offset + bs.length)

lemma patch_length (file : Bytes) (offset : Nat) (bs : Bytes) :
    (patch file offset bs).length = max file.length (offset + bs.length) := by
  simp only [patch, List.length_append, List.length_take, List.length_replicate,
    List.length_drop]
  omega

@[simp] lemma patch_nil {file : Bytes} {offset : Nat} (h : offset ≤ file.length) :
    patch file offset [] = file := by
  simp [patch, Nat.sub_eq_zero_of_le h]

@[simp] lemma patch_end (file bs : Bytes) : patch file file.length bs = file ++ bs := by
  simp [patch]

/-- Writing in two pieces is writing at once. -/
lemma patch_append (file : Bytes) (offset : Nat) (bs cs : Bytes) :
    patch (patch file offset bs) (offset + bs.length) cs = patch file offset (bs ++ cs) := by
  have hfront : (file.take offset ++ List.replicate (offset - file.length) 0 ++ bs).length =
      offset + bs.length := by
    simp only [List.length_append, List.length_take, List.length_replicate]
    omega
  have htake : (patch file offset bs).take (offset + bs.length) =
      file.take offset ++ List.replicate (offset - file.length) 0 ++ bs := by
    rw [patch, ← hfront, List.take_left]
  have hdrop : (patch file offset bs).drop (offset + bs.length + cs.length) =
      file.drop (offset + (bs ++ cs).length) := by
    rw [← List.drop_drop, patch, ← hfront, List.drop_left, hfront, List.drop_drop,
      List.length_append, Nat.add_assoc]
  have hgap : offset + bs.length - (patch file offset bs).length = 0 := by
    rw [patch_length]
    omega
  rw [patch, htake, hdrop, hgap, patch]
  simp

/-- The front of a buffer, and then some of the rest behind it. -/
lemma patch_take_drop (file : Bytes) (offset : Nat) {bs : Bytes} {n : Nat} (h : n ≤ bs.length)
    (k : Nat) : patch (patch file offset (bs.take n)) (offset + n) ((bs.drop n).take k) =
      patch file offset (bs.take (n + k)) := by
  have hlen : (bs.take n).length = n := by rw [List.length_take, Nat.min_eq_left h]
  have hpieces := patch_append file offset (bs.take n) ((bs.drop n).take k)
  rw [hlen, ← List.take_add] at hpieces
  exact hpieces

/-- Rewriting the front of a file that is long enough. -/
lemma patch_front {bs file : Bytes} : patch file 0 bs = bs ++ file.drop bs.length := by
  simp [patch]

/-- What a write leaves at each position of a file without a gap. -/
lemma getElem?_patch {file : Bytes} {offset : Nat} (h : offset ≤ file.length) (bs : Bytes)
    (j : Nat) : (patch file offset bs)[j]? =
      if j < offset then file[j]?
      else if j < offset + bs.length then bs[j - offset]? else file[j]? := by
  have hfront : (file.take offset).length = offset := by simpa using h
  rw [patch, Nat.sub_eq_zero_of_le h, List.replicate_zero, List.append_nil, List.append_assoc]
  by_cases hbefore : j < offset
  · simp [hbefore, List.getElem?_append, h]
  · rw [if_neg hbefore, List.getElem?_append_right (by omega), hfront]
    by_cases hinside : j < offset + bs.length
    · rw [if_pos hinside, List.getElem?_append_left (by omega)]
    · rw [if_neg hinside, List.getElem?_append_right (by omega), List.getElem?_drop]
      congr 1
      omega

end FilePatch
