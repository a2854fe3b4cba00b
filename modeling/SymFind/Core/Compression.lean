import SymFind.Core.SymbolData

/-!
# Compression and dictionary training

libzstd is a parameter: its dictionaries are abstract types, and each call may
fail with the name of an error. What the database relies on is one property,
that decompression with the matching dictionary undoes compression.
-/
namespace Compression
open RecordCodec

/-- The functions of libzstd that the program calls. -/
structure Zstd where
  CDict : Type
  DDict : Type
  createCDict : Bytes → Option CDict
  createDDict : Bytes → Option DDict
  compress : Option CDict → Bytes → Except Bytes Bytes
  decompress : Option DDict → Bytes → Nat → Except Bytes Bytes
  /-- The buffer afterwards, and the size of the dictionary in it. -/
  trainFromBuffer : Bytes → Bytes → List Nat → Bytes × Except Bytes Nat

/-- The dictionary with which a reader opens blocks: none for an empty stored dictionary. -/
def Zstd.readerDictionary (z : Zstd) (dictionary : Bytes) : Option z.DDict :=
  if dictionary.length > 0 then z.createDDict dictionary else none

/-- Decompression with the matching dictionary undoes compression. -/
structure Zstd.Undoes (z : Zstd) : Prop where
  plain : ∀ input output capacity, z.compress none input = .ok output →
    input.length ≤ capacity → z.decompress none output capacity = .ok input
  matching : ∀ dictionary input output capacity,
    z.compress (z.createCDict dictionary) input = .ok output → input.length ≤ capacity →
      z.decompress (z.readerDictionary dictionary) output capacity = .ok input

/-- The size of the input is passed in 32 bits. -/
def compress (z : Zstd) (input : Bytes) (inputSize : Nat) (cdict : Option z.CDict) :
    Except Bytes Bytes :=
  z.compress cdict (input.take (UInt32.ofNat inputSize).toNat)

lemma compress_fits (z : Zstd) {input : Bytes} (cdict : Option z.CDict)
    (h : input.length < 2 ^ 32) :
    compress z input input.length cdict = z.compress cdict input := by
  rw [compress, UInt32.toNat_ofNat', Nat.mod_eq_of_lt h, List.take_length]

structure DictionaryBuilder where
  samples : Bytes
  sampleSizes : List Nat
  maxDictionarySize : Nat

namespace DictionaryBuilder

def new : DictionaryBuilder := ⟨[], [], 128 * 1024⟩

def addSample (b : DictionaryBuilder) (sample : Bytes) : DictionaryBuilder :=
  if sample = [] then b
  else { b with samples := b.samples ++ sample, sampleSizes := b.sampleSizes ++ [sample.length] }

def resize (bs : Bytes) (n : Nat) : Bytes := bs.take n ++ List.replicate (n - bs.length) 0

/-- The number of samples is passed in 32 bits, so only that many sizes are read. -/
def handedSizes (b : DictionaryBuilder) : List Nat :=
  b.sampleSizes.take (UInt32.ofNat b.sampleSizes.length).toNat

/-- On failure the buffer keeps its full size and whatever training left in it. -/
def train (z : Zstd) (b : DictionaryBuilder) : Bytes × Except Bytes Unit :=
  let dictionary := resize [] b.maxDictionarySize
  let (dictionary, result) := z.trainFromBuffer dictionary b.samples b.handedSizes
  match result with
  | .error errorName => (dictionary, .error errorName)
  | .ok dictSize => (resize dictionary dictSize, .ok ())

end DictionaryBuilder

/-- A compressor that stores its input, for runs on concrete data. -/
def Zstd.stored : Zstd where
  CDict := Unit
  DDict := Unit
  createCDict _ := some ()
  createDDict _ := some ()
  compress _ input := .ok input
  decompress _ input capacity :=
    if input.length ≤ capacity then .ok input
    else .error (SymbolData.text "Destination buffer is too small")
  trainFromBuffer buffer _ _ := (buffer, .error (SymbolData.text "Src size is incorrect"))

lemma Zstd.stored_undoes : Zstd.stored.Undoes := by
  constructor
  · rintro input output capacity hc hle
    cases hc
    simp [Zstd.stored, hle]
  · rintro dictionary input output capacity hc hle
    cases hc
    simp [Zstd.stored, hle]

end Compression
