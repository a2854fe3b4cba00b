import SymFind.Database.WritePlan

/-!
# What a sequence of writes leaves in the file

The kernel may store any part of what it is asked for, nothing, or report an
error. A call that returns true has stored its buffer behind those before it,
one that returns false has stored a part of it and keeps the offset, so the next
call writes there again.
-/
namespace ExactWrites
open RecordCodec SymbolData FilePatch DatabaseWriting WritePlan

section Calls

/-- What `pwrite` returns, `none` for `-1`, and `errno` behind it. A call that stores nothing
without an error leaves there what an earlier one has set. -/
structure PwriteReturn where
  nwrite : Option Nat
  errno : Nat

/-- The loop takes nothing stored for an error. -/
def PwriteReturn.outcome : PwriteReturn → PwriteOutcome
  | ⟨some (more + 1), _⟩ => .stored more
  | ⟨_, errno⟩ => .failed errno

/-- A call of `write_database_buffer` that returned, with the file before and after it. -/
structure Call where
  buf : Bytes
  offset : UInt32
  file : Bytes
  writeRes : Bool
  offsetAfter : UInt32
  fileAfter : Bytes

/-- The calls that return, and the offset and the disk behind them. -/
def callAll : UInt32 → Disk → List Bytes → List Call × UInt32 × Disk
  | offset, disk, [] => ([], offset, disk)
  | offset, disk, buf :: rest =>
    match Writing.on (writeDatabaseBuffer buf offset) disk with
    | (.error _, disk') => ([], offset, disk')
    | (.ok (writeRes, offset'), disk') =>
      let (calls, last) := callAll offset' disk' rest
      (⟨buf, offset, disk.file, writeRes, offset', disk'.file⟩ :: calls, last)

/-- A run on an open file from offset 0. -/
def runCalls (file : Bytes) (returns : List PwriteReturn) (lastErrno : Nat) (bufs : List Bytes) :
    List Call × UInt32 × Disk :=
  callAll 0 ⟨file, returns.map PwriteReturn.outcome, lastErrno⟩ bufs

/-- The bytes are there, and all others are as before. -/
structure StoredAt (before after : Bytes) (offset : Nat) (bs : Bytes) : Prop where
  stored : ∀ i, i < bs.length → after[offset + i]? = bs[i]?
  others : ∀ j, j < offset ∨ offset + bs.length ≤ j → after[j]? = before[j]?

/-- A successful call stores its buffer and advances the offset; a failed one stores a part of
it from the front. -/
def Call.Exact (call : Call) : Prop :=
  if call.writeRes then
    StoredAt call.file call.fileAfter call.offset.toNat call.buf ∧
      call.offsetAfter.toNat = call.offset.toNat + call.buf.length
  else
    call.offsetAfter = call.offset ∧ ∃ part, part <+: call.buf ∧
      StoredAt call.file call.fileAfter call.offset.toNat part

/-- The buffers of the calls that succeeded, one after the other. -/
def writtenBytes (calls : List Call) : Bytes :=
  (calls.filter Call.writeRes).flatMap Call.buf

end Calls

section Effects

lemma patch_storedAt {file : Bytes} {offset : Nat} (inside : offset ≤ file.length) (bs : Bytes) :
    StoredAt file (patch file offset bs) offset bs where
  stored := by
    intro i hi
    rw [getElem?_patch inside, if_neg (by omega), if_pos (by omega), Nat.add_sub_cancel_left]
  others := by
    rintro j (hj | hj)
    · rw [getElem?_patch inside, if_pos hj]
    · rw [getElem?_patch inside, if_neg (by omega), if_neg (by omega)]

/-- A call patches the file with a front part of its buffer, and succeeds if it is all of it. -/
lemma writeDatabaseBuffer_cases (buf : Bytes) {offset : UInt32} {disk : Disk}
    (fits : offset.toNat + buf.length < 2 ^ 32) (inside : offset.toNat ≤ disk.file.length) :
    ∃ part, part <+: buf ∧
      (Writing.on (writeDatabaseBuffer buf offset) disk).2.file =
        patch disk.file offset.toNat part ∧
      ((∃ halt, (Writing.on (writeDatabaseBuffer buf offset) disk).1 = .error halt) ∨
        (Writing.on (writeDatabaseBuffer buf offset) disk).1 = .ok (false, offset) ∨
        (Writing.on (writeDatabaseBuffer buf offset) disk).1 =
          .ok (true, offset + UInt32.ofNat buf.length) ∧ part = buf) := by
  obtain ⟨hfile, hdone, hstop⟩ := writeLoop_accept disk.pending buf offset disk.file
    disk.lastErrno fits inside
  refine ⟨buf.take (accept disk.pending buf.length).1, List.take_prefix _ buf, ?_, ?_⟩
  · rw [on_writeDatabaseBuffer, ← hfile]
    rcases writeLoop disk.pending buf offset disk.file disk.lastErrno with ⟨_ | _, _⟩ <;> rfl
  · rw [on_writeDatabaseBuffer]
    rcases hloop : writeLoop disk.pending buf offset disk.file disk.lastErrno with ⟨r, disk'⟩
    rw [hloop] at hdone hstop
    rcases r with halt | _ | _
    · exact .inl ⟨halt, rfl⟩
    · exact .inr (.inl rfl)
    · cases haccept : (accept disk.pending buf.length).2 with
      | none => exact absurd rfl (hstop haccept)
      | some rest =>
        refine .inr (.inr ⟨rfl, ?_⟩)
        rw [(accept_bounds disk.pending buf.length).1 rest haccept, List.take_length]

/-- The file begins with the bytes written so far, and the offset is behind them. -/
structure Behind (done : Bytes) (offset : UInt32) (file : Bytes) : Prop where
  begins : done <+: file
  offset_eq : offset.toNat = done.length

lemma Behind.inside {done : Bytes} {offset : UInt32} {file : Bytes}
    (behind : Behind done offset file) : offset.toNat ≤ file.length := by
  rw [behind.offset_eq]
  exact behind.begins.length_le

/-- A write at the offset goes behind the bytes that are there. -/
lemma Behind.patch_begins {done : Bytes} {offset : UInt32} {file : Bytes}
    (behind : Behind done offset file) (part : Bytes) :
    done ++ part <+: patch file offset.toNat part := by
  obtain ⟨more, hmore⟩ := behind.begins
  have hgap := Nat.sub_eq_zero_of_le behind.inside
  rw [patch, hgap, behind.offset_eq, ← hmore, List.take_left]
  simp

/-- Every call of a run is exact, and behind the run the file begins with what was written. -/
lemma callAll_exact (bufs : List Bytes) (disk : Disk) {done : Bytes} {offset : UInt32}
    (behind : Behind done offset disk.file)
    (fits : offset.toNat + bufs.flatten.length < 2 ^ 32) :
    (∀ call ∈ (callAll offset disk bufs).1, call.Exact) ∧
      Behind (done ++ writtenBytes (callAll offset disk bufs).1) (callAll offset disk bufs).2.1
        (callAll offset disk bufs).2.2.file := by
  induction bufs generalizing done offset disk with
  | nil => exact ⟨by simp [callAll], by simpa [callAll, writtenBytes] using behind⟩
  | cons buf rest ih =>
    rw [List.flatten_cons, List.length_append] at fits
    obtain ⟨part, hpart, hfile, hresult⟩ :=
      writeDatabaseBuffer_cases buf (by omega) behind.inside
    have hstored := patch_storedAt behind.inside part
    have hbegins := behind.patch_begins part
    rw [callAll]
    rcases hcall : Writing.on (writeDatabaseBuffer buf offset) disk with ⟨result, disk'⟩
    rw [hcall] at hfile hresult
    simp only at hfile hresult
    rw [← hfile] at hstored hbegins
    have hsame : Behind done offset disk'.file :=
      ⟨(List.prefix_append _ _).trans hbegins, behind.offset_eq⟩
    rcases hresult with ⟨halt, rfl⟩ | rfl | ⟨rfl, rfl⟩
    · exact ⟨by simp, by simpa [writtenBytes] using hsame⟩
    · obtain ⟨hexact, hbehind⟩ := ih disk' hsame (by omega)
      refine ⟨?_, by simpa [writtenBytes] using hbehind⟩
      intro call hmem
      rcases List.mem_cons.mp hmem with rfl | hmem
      · exact ⟨rfl, part, hpart, hstored⟩
      · exact hexact call hmem
    · have hnext : (offset + UInt32.ofNat part.length).toNat = offset.toNat + part.length := by
        simp only [UInt32.toNat_add, UInt32.toNat_ofNat']
        omega
      have hmore : Behind (done ++ part) (offset + UInt32.ofNat part.length) disk'.file :=
        ⟨hbegins, by rw [hnext, behind.offset_eq, List.length_append]⟩
      obtain ⟨hexact, hbehind⟩ := ih disk' hmore (by rw [hnext]; omega)
      refine ⟨?_, by simpa [writtenBytes] using hbehind⟩
      intro call hmem
      rcases List.mem_cons.mp hmem with rfl | hmem
      · exact ⟨hstored, hnext⟩
      · exact hexact call hmem

/-- Whatever the kernel returns, every call is exact, the file begins with the buffers of the calls
that succeeded, and the offset is behind them. -/
theorem writes_exact (file : Bytes) (returns : List PwriteReturn) (lastErrno : Nat)
    (bufs : List Bytes) (small : bufs.flatten.length < 2 ^ 32) :
    (∀ call ∈ (runCalls file returns lastErrno bufs).1, call.Exact) ∧
    writtenBytes (runCalls file returns lastErrno bufs).1 <+:
      (runCalls file returns lastErrno bufs).2.2.file ∧
    (runCalls file returns lastErrno bufs).2.1.toNat =
      (writtenBytes (runCalls file returns lastErrno bufs).1).length := by
  have hstart : Behind [] 0 file := ⟨List.nil_prefix, rfl⟩
  obtain ⟨hexact, hbegins, hoffset⟩ := callAll_exact bufs
    ⟨file, returns.map PwriteReturn.outcome, lastErrno⟩ hstart (by simpa using small)
  exact ⟨hexact, hbegins, hoffset⟩

/-- A short write, an interrupted call and one that stores nothing with an old error number. -/
def unevenReturns : List PwriteReturn :=
  [⟨some 1, 0⟩, ⟨none, eintr⟩, ⟨some 0, eintr⟩, ⟨some 2, 0⟩, ⟨some 1, 0⟩, ⟨none, 28⟩, ⟨some 9, 0⟩]

/-- The second call fails behind its first byte, and the third overwrites what it has stored. -/
theorem writes_exact_uneven :
    (runCalls [] unevenReturns 0 [[1, 2, 3], [4, 5], [6]]).1.map Call.writeRes =
        [true, false, true] ∧
      (runCalls [] unevenReturns 0 [[1, 2, 3], [4, 5], [6]]).2.2.file = [1, 2, 3, 6] ∧
      ∀ call ∈ (runCalls [] unevenReturns 0 [[1, 2, 3], [4, 5], [6]]).1, call.Exact :=
  ⟨by decide, by decide, (writes_exact [] unevenReturns 0 [[1, 2, 3], [4, 5], [6]] (by decide)).1⟩

end Effects
end ExactWrites
