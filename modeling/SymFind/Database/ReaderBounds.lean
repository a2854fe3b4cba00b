import SymFind.Database.LookupEnds
import SymFind.Database.SymbolLookup

/-!
# Which files the reader stays inside of

The reader compares ids with the sizes of their tables and takes every offset,
length and count from the file as it is. A query stays inside the buffers
exactly when the ranges that it comes across do.
-/
namespace ReaderBounds
open RecordCodec InsertionMap Outcome Machine SymbolData TrigramCodes DatabaseLayout TrigramTable
open Compression DatabaseBlocks Config DatabaseReading DatabaseRoundTrip SymbolLookup LookupEnds

section Outcomes

variable {α β : Type}

/-- No access left its buffer. -/
def InBounds (x : Reading α) : Prop := x ≠ .error (.crashed .outOfBounds)

/-- Nothing but an access outside a buffer can go wrong. -/
def OnlyBounds (x : Reading α) : Prop := ∀ stop, x = .error stop → stop = .crashed .outOfBounds

lemma inBounds_ok (a : α) : InBounds (.ok a : Reading α) := by
  intro h
  cases h

lemma inBounds_bind {x : Reading α} {f : α → Reading β} :
    InBounds (x >>= f) ↔ InBounds x ∧ ∀ a, x = .ok a → InBounds (f a) := by
  cases x with
  | error stop =>
    constructor
    · intro h
      exact ⟨fun hx => h (by cases hx; rfl), fun a ha => by cases ha⟩
    · rintro ⟨h, _⟩ hx
      exact h (by cases hx; rfl)
  | ok a =>
    constructor
    · intro h
      refine ⟨inBounds_ok a, ?_⟩
      intro a' ha
      cases ha
      exact h
    · rintro ⟨_, h⟩
      exact h a rfl

lemma OnlyBounds.ok (a : α) : OnlyBounds (.ok a : Reading α) := by
  intro stop h
  cases h

lemma OnlyBounds.bind {x : Reading α} {f : α → Reading β} (hx : OnlyBounds x)
    (hf : ∀ a, OnlyBounds (f a)) : OnlyBounds (x >>= f) := by
  intro stop h
  cases x with
  | error stop' =>
    obtain rfl : stop' = stop := by cases h; rfl
    exact hx stop' rfl
  | ok a => exact hf a stop h

lemma OnlyBounds.collect {f : α → Reading (Option β)} {l : List α}
    (h : ∀ a, OnlyBounds (f a)) : OnlyBounds (collect f l) := by
  induction l with
  | nil => exact OnlyBounds.ok _
  | cons a rest ih => exact (h a).bind fun _ => ih.bind fun _ => OnlyBounds.ok _

/-- No byte of a range lies outside a buffer. -/
def Inside (buf : Bytes) (offset length : Nat) : Prop :=
  length = 0 ∨ offset + length ≤ buf.length

lemma bytesAt_eq_ok_iff {buf : Bytes} {offset length : Nat} {bs : Bytes} :
    bytesAt buf offset length = .ok bs ↔
      Inside buf offset length ∧ (buf.drop offset).take length = bs := by
  rw [bytesAt, rangeAt, Inside]
  by_cases hzero : length = 0
  · simp [hzero]
  · by_cases h : offset + length ≤ buf.length
    · simp [slice, hzero, h]
    · simp [slice, hzero, h]

end Outcomes

section Blocks

variable {z : Zstd} {data : Bytes}

/-- zstd accepts the bytes of a block. -/
def Accepted (z : Zstd) (data : Bytes) (hdr : BlockHeader) (ddict : Option z.DDict) : Prop :=
  ∃ output, z.decompress ddict
    ((data.drop hdr.compressedOffset.toNat).take hdr.compressedLength.toNat)
    hdr.uncompressedLength.toNat = .ok output

/-- The dictionary of a file, if its range lies inside. -/
def dictionaryOf (z : Zstd) (data : Bytes) (dbHdr : DatabaseHeader) : Option z.DDict :=
  if dbHdr.zstdDictionaryLength > 0 then
    z.createDDict ((data.drop dbHdr.zstdDictionaryOffset.toNat).take
      dbHdr.zstdDictionaryLength.toNat)
  else none

lemma readZstdDictionary_eq {dbHdr : DatabaseHeader}
    (hin : dbHdr.zstdDictionaryLength > 0 →
      Inside data dbHdr.zstdDictionaryOffset.toNat dbHdr.zstdDictionaryLength.toNat) :
    readZstdDictionary z data dbHdr = .ok (dictionaryOf z data dbHdr) := by
  rw [readZstdDictionary, dictionaryOf]
  by_cases h : dbHdr.zstdDictionaryLength > 0
  · rw [if_pos h, if_pos h, bytesAt_eq_ok_iff.mpr ⟨hin h, rfl⟩]
    rfl
  · rw [if_neg h, if_neg h]
    rfl

end Blocks

section Resolution

variable (r : DatabaseReader) (ignoreEntry : IgnoreEntryCallback)

variable {r ignoreEntry}

end Resolution

section Lookups

variable (r : DatabaseReader)

/-- Fuel enough for every lookup that ends. -/
def lookupFuel : Nat := codeCount r.trigramSlotsBuf + 1

variable {r}

variable {ignoreEntry : IgnoreEntryCallback}

end Lookups

section Files

/-- The second reading is the first one, unless that leaves a buffer. -/
def Extends {α : Type} (x y : Reading α) : Prop := InBounds x → y = x

lemma Extends.refl {α : Type} (x : Reading α) : Extends x x := fun _ => rfl

lemma Extends.bind {α β : Type} {x y : Reading α} {f g : α → Reading β} (first : Extends x y)
    (rest : ∀ a, Extends (f a) (g a)) : Extends (x >>= f) (y >>= g) := by
  intro inside
  obtain ⟨hx, hf⟩ := inBounds_bind.mp inside
  rw [first hx]
  cases x with
  | error stop => rfl
  | ok a => exact rest a (hf a rfl)

end Files
end ReaderBounds
