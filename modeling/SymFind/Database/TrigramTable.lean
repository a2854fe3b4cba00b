import SymFind.Core.Machine
import SymFind.Core.TrigramCodes
import SymFind.Database.DatabaseLayout
import SymFind.Lib.LinearProbing
import SymFind.Lib.NearestEven

/-!
# The trigram hash table: building and lookup

The builder inserts every code of the trigram map, in the map's iteration order,
into a table with linear probing and lays the posting lists one behind another.
The reader probes the stored slots for a code and reads its posting range. With
any iteration order the reader finds exactly the ids whose names emit the code.
-/
namespace TrigramTable
open RecordCodec NearestEven InsertionMap SortedUnique Machine SymbolData TrigramCodes
open DatabaseLayout

def trigramFibonacciHash (trigramCode : TrigramCode) : UInt64 :=
  trigramCode.toUInt64 * 0x9E3779B97F4A7C15

def trigramHomeSlot (trigramCode : TrigramCode) (capacityBits : UInt32) : UInt64 :=
  if capacityBits = 0 then 0
  else trigramFibonacciHash trigramCode >>> (64 - capacityBits).toUInt64

/-- The binary digits of a `double`. -/
def doubleDigits : Nat := 53

/-- The conversion of a 64-bit number to `double` rounds to nearest even. -/
def toDouble (n : UInt64) : Nat := roundTo doubleDigits n.toNat

/-- A maximal load factor in (0, 1]: the `double` `significand / 2 ^ exponent`. -/
structure LoadFactor where
  significand : Nat
  exponent : Nat
  positive : 0 < significand
  narrow : significand < 2 ^ doubleDigits
  range : exponent ≤ 1074
  atMostOne : significand ≤ 2 ^ exponent

/-- The `double` nearest to 0.7. -/
def LoadFactor.default : LoadFactor :=
  ⟨6305039478318694, 53, by decide, by decide, by decide, by decide⟩

/-- The product of a power of two and a `double` is exact, so both sides of the comparison are
compared as they are. -/
def capacityPass (count : UInt64) (maxLoadFactor : LoadFactor) (capacity : UInt64) :
    Except Fault UInt64 ⊕ UInt64 :=
  if capacity = 0 ∨ 2 ^ maxLoadFactor.exponent * toDouble count >
      maxLoadFactor.significand * toDouble capacity then
    .inr (capacity <<< 1)
  else .inl (.ok capacity)

/-- After 60 doublings the 64-bit capacity is zero and stays so: more fuel changes nothing. -/
def trigramCapacityForCount (count : UInt64) (maxLoadFactor : LoadFactor) : Except Fault UInt64 :=
  runLoop (capacityPass count maxLoadFactor) 64 16

structure TrigramEntry where
  code : TrigramCode
  symbols : List UInt32

/-- The posting lists in iteration order, each sorted and without repetitions. -/
def trigramEntries (order : IterationOrder (TrigramCode × List UInt32))
    (trigramToSymbols : Map TrigramCode (List UInt32)) : List TrigramEntry :=
  (order.arrange trigramToSymbols.entries).map (fun e => ⟨e.1, sortUnique e.2⟩)

def emptySlot : TrigramSlot := ⟨trigramEmptySlot, 0, 0⟩

/-- One pass of the builder's probing loop. -/
def probeFree (slots : List TrigramSlot) (capacity : UInt64) (idx : Nat) :
    Except Fault Nat ⊕ Nat :=
  match slots[idx]? with
  | none => .inl (.error .outOfBounds)
  | some slot =>
    if slot.trigramCode ≠ trigramEmptySlot then .inr ((idx + 1) &&& (capacity - 1).toNat)
    else .inl (.ok idx)

def insertEntry (capacity : UInt64) (capacityBits : UInt32)
    (table : List TrigramSlot × List UInt32) (ent : TrigramEntry) :
    Except Fault (List TrigramSlot × List UInt32) := do
  let (slots, postings) := table
  let idx ← runLoop (probeFree slots capacity) slots.length
    (trigramHomeSlot ent.code capacityBits).toNat
  let slot : TrigramSlot :=
    { trigramCode := ent.code
      postingOffset := UInt32.ofNat postings.length
      postingCount := UInt32.ofNat ent.symbols.length }
  pure (slots.set idx slot, postings ++ ent.symbols)

/-- What `build_trigram_index` makes before it compresses anything. -/
structure TrigramTables where
  slots : List TrigramSlot
  postings : List UInt32
  capacity : UInt64
  totalPostingsCount : UInt64
  symbolsCount : UInt64
  trigramsCount : UInt64

/-- The builder after one call per name; ids count the names in 32 bits. -/
def nameBuilder (names : List Bytes) : TrigramBuilder :=
  TrigramBuilder.new.addWords (names.zipIdx.map (fun p => (p.1, UInt32.ofNat p.2)))

def buildTrigramTables (order : IterationOrder (TrigramCode × List UInt32))
    (names : List Bytes) : Except Fault TrigramTables := do
  let tgBuilder := nameBuilder names
  let entries := trigramEntries order tgBuilder.trigramToSymbols
  let totalPostingsCount := entries.foldl (fun n e => n + UInt64.ofNat e.symbols.length) 0
  let uniqueTrigrams := UInt64.ofNat entries.length
  let capacity ← trigramCapacityForCount uniqueTrigrams LoadFactor.default
  let capacityBits := UInt32.ofNat (countrZero 64 capacity.toNat)
  let (slots, postings) ← entries.foldlM (insertEntry capacity capacityBits)
    (List.replicate capacity.toNat emptySlot, [])
  pure { slots, postings, capacity, totalPostingsCount
         symbolsCount := tgBuilder.symbolCount
         trigramsCount := UInt64.ofNat tgBuilder.uniqueTrigramCount }

def getTrigramCapacityBits (trigramCap : UInt32) : UInt32 :=
  if trigramCap ≠ 0 then UInt32.ofNat (countrZero 32 trigramCap.toNat) else 0

/-- A range of the posting array, as `lookup_trigram` returns it. -/
structure PostingSpan where
  offset : Nat
  count : Nat

/-- The first field of a stored slot; the others may lie outside the buffer. -/
def slotCode (slotsBuf : Bytes) (idx : Nat) : Option TrigramCode :=
  Codec.u32.decode (slotsBuf.drop (idx * trigramSlotCodec.width))

/-- One pass of the reader's probing loop over the stored slots. It stops at an empty slot or at
the index of the one with the code. -/
def probeCode (slotsBuf : Bytes) (capacity : UInt32) (code : TrigramCode) (idx : Nat) :
    Except Fault (Option Nat) ⊕ Nat :=
  match slotCode slotsBuf idx with
  | none => .inl (.error .outOfBounds)
  | some trigramCode =>
    if trigramCode = trigramEmptySlot then .inl (.ok none)
    else if trigramCode = code then .inl (.ok (some idx))
    else .inr ((idx + 1) &&& (capacity - 1).toNat)

/-- The loop of `lookup_trigram`. -/
def probeSlots (fuel : Nat) (slotsBuf : Bytes) (capacity : UInt32) (code : TrigramCode) :
    Except Fault (Option Nat) :=
  let capacityBits := getTrigramCapacityBits capacity
  if capacity = 0 then .ok none
  else runLoop (probeCode slotsBuf capacity code) fuel (trigramHomeSlot code capacityBits).toNat

/-- The span of the slot at which the loop stopped. -/
def spanAt (slotsBuf : Bytes) : Option Nat → Except Fault PostingSpan
  | none => .ok ⟨0, 0⟩
  | some idx =>
    match trigramSlotCodec.entryAt slotsBuf idx with
    | none => .error .outOfBounds
    | some slot => .ok ⟨slot.postingOffset.toNat, slot.postingCount.toNat⟩

def lookupTrigram (fuel : Nat) (slotsBuf : Bytes) (capacity : UInt32) (code : TrigramCode) :
    Except Fault PostingSpan := do
  let stop ← probeSlots fuel slotsBuf capacity code
  spanAt slotsBuf stop

/-- The ids that a loop over the returned span reads. -/
def readSpan (postingsBuf : Bytes) (span : PostingSpan) : Except Fault (List UInt32) :=
  match Codec.u32.readMany postingsBuf span.offset span.count with
  | some ids => .ok ids
  | none => .error .outOfBounds

def lookupIds (fuel : Nat) (slotsBuf postingsBuf : Bytes) (capacity : UInt32)
    (code : TrigramCode) : Except Fault (List UInt32) := do
  let span ← lookupTrigram fuel slotsBuf capacity code
  readSpan postingsBuf span

lemma slotCode_of_entry {slotsBuf : Bytes} {idx : Nat} {slot : TrigramSlot}
    (h : trigramSlotCodec.entryAt slotsBuf idx = some slot) :
    slotCode slotsBuf idx = some slot.trigramCode := by
  obtain ⟨fields, hfields, rfl⟩ := Option.map_eq_some_iff.mp h
  exact Codec.decode_pair_fst hfields

end TrigramTable
