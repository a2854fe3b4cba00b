import SymFind.Core.SymbolData
import SymFind.Lib.InsertionMap
import SymFind.Lib.SortedUnique

/-!
# Trigrams of a word and the builder of the trigram map

A word is padded with two NUL bytes on each side and lower-cased; every window
of three bytes is a code of 24 bits. The builder records, per code, the ids of
the words that emit it, one entry for each word.
-/
namespace TrigramCodes
open RecordCodec InsertionMap SortedUnique

abbrev TrigramCode := UInt32

def encodeTrigram (a b c : UInt8) : TrigramCode :=
  (a.toUInt32 <<< 16) ||| (b.toUInt32 <<< 8) ||| c.toUInt32

/-- ASCII lower-casing of one byte. -/
def toLower (c : UInt8) : UInt8 :=
  if 0x41 ≤ c ∧ c ≤ 0x5A then c - 0x41 + 0x61 else c

/-- The byte at a signed position of the padded word. -/
def paddedAt (word : Bytes) (i : Int) : UInt8 :=
  if i < 0 ∨ (word.length : Int) ≤ i then 0
  else match word[i.toNat]? with
    | some c => toLower c
    | none => 0

/-- The codes in the order in which `for_each_trigram` emits them. -/
def forEachTrigram (word : Bytes) : List TrigramCode :=
  if word.length = 0 then []
  else (List.range (word.length + 2)).map (fun k =>
    let i : Int := (k : Int) - 2
    encodeTrigram (paddedAt word i) (paddedAt word (i + 1)) (paddedAt word (i + 2)))

lemma encodeTrigram_toNat (a b c : UInt8) :
    (encodeTrigram a b c).toNat = a.toNat * 65536 + b.toNat * 256 + c.toNat := by
  have ha := a.toNat_lt
  have hb := b.toNat_lt
  have hc := c.toNat_lt
  have hbc : b.toNat <<< 8 ||| c.toNat = b.toNat * 256 + c.toNat := by
    rw [Nat.shiftLeft_eq, Nat.mul_comm b.toNat,
      ← Nat.two_pow_add_eq_or_of_lt (by omega : c.toNat < 2 ^ 8) b.toNat]
  have habc : a.toNat <<< 16 ||| (b.toNat * 256 + c.toNat) =
      a.toNat * 65536 + (b.toNat * 256 + c.toNat) := by
    rw [Nat.shiftLeft_eq, Nat.mul_comm a.toNat,
      ← Nat.two_pow_add_eq_or_of_lt (by omega : b.toNat * 256 + c.toNat < 2 ^ 16) a.toNat]
  have hsa : a.toNat <<< 16 % 2 ^ 32 = a.toNat <<< 16 := by
    rw [Nat.shiftLeft_eq]; omega
  have hsb : b.toNat <<< 8 % 2 ^ 32 = b.toNat <<< 8 := by
    rw [Nat.shiftLeft_eq]; omega
  simp only [encodeTrigram, UInt32.toNat_or, UInt32.toNat_shiftLeft, UInt8.toNat_toUInt32]
  simp only [UInt32.reduceToNat, Nat.reduceMod, hsa, hsb]
  rw [Nat.or_assoc, hbc, habc]
  omega

lemma encodeTrigram_lt (a b c : UInt8) : (encodeTrigram a b c).toNat < 2 ^ 24 := by
  have ha := a.toNat_lt
  have hb := b.toNat_lt
  have hc := c.toNat_lt
  rw [encodeTrigram_toNat]
  omega

lemma forEachTrigram_lt {word : Bytes} {code : TrigramCode} (h : code ∈ forEachTrigram word) :
    code.toNat < 2 ^ 24 := by
  rw [forEachTrigram] at h
  split at h
  · cases h
  · obtain ⟨k, _, rfl⟩ := List.mem_map.mp h
    exact encodeTrigram_lt _ _ _

lemma forEachTrigram_ne_nil {word : Bytes} (h : word ≠ []) : forEachTrigram word ≠ [] := by
  have hlen : word.length ≠ 0 := fun hz => h (List.length_eq_zero_iff.mp hz)
  rw [forEachTrigram, if_neg hlen]
  exact fun hnil => by simpa using congrArg List.length hnil

@[simp] lemma forEachTrigram_nil : forEachTrigram [] = [] := rfl

/-- `for_each_trigram`, sort, and erasure of repeated codes. -/
def distinctTrigrams (word : Bytes) : List TrigramCode := sortUnique (forEachTrigram word)

structure TrigramBuilder where
  trigramToSymbols : Map TrigramCode (List UInt32)
  symbolCount : UInt64

namespace TrigramBuilder

def new : TrigramBuilder := ⟨Map.empty, 0⟩

def addWord (b : TrigramBuilder) (word : Bytes) (symbolId : UInt32) : TrigramBuilder :=
  if word = [] then b
  else
    { trigramToSymbols :=
        (distinctTrigrams word).foldl (fun m code => push m (code, symbolId)) b.trigramToSymbols
      symbolCount := b.symbolCount + 1 }

def uniqueTrigramCount (b : TrigramBuilder) : Nat := b.trigramToSymbols.entries.length

def addWords (b : TrigramBuilder) (calls : List (Bytes × UInt32)) : TrigramBuilder :=
  calls.foldl (fun b call => b.addWord call.1 call.2) b

/-- The pairs that one call records: the word's id under each of its codes. -/
def emitted (call : Bytes × UInt32) : List (TrigramCode × UInt32) :=
  (distinctTrigrams call.1).map (fun code => (code, call.2))

lemma addWord_map (b : TrigramBuilder) (call : Bytes × UInt32) :
    (b.addWord call.1 call.2).trigramToSymbols =
      pushAll b.trigramToSymbols (emitted call) := by
  rw [addWord, emitted, pushAll, List.foldl_map]
  split
  · rename_i h
    simp [h, distinctTrigrams, sortUnique, sort, unique]
  · rfl

/-- The map records all calls, in their order. -/
theorem addWords_map (calls : List (Bytes × UInt32)) :
    (new.addWords calls).trigramToSymbols = record (calls.flatMap emitted) := by
  have from_any : ∀ b : TrigramBuilder, (b.addWords calls).trigramToSymbols =
      pushAll b.trigramToSymbols (calls.flatMap emitted) := by
    induction calls with
    | nil => intro b; rfl
    | cons call rest ih =>
      intro b
      change ((b.addWord call.1 call.2).addWords rest).trigramToSymbols = _
      rw [ih, addWord_map, List.flatMap_cons, pushAll, pushAll, pushAll, List.foldl_append]
  exact from_any new

lemma history_distinct {codes : List TrigramCode} (nodup : codes.Nodup) (id : UInt32)
    (code : TrigramCode) :
    history (codes.map (fun c => (c, id))) code = if code ∈ codes then [id] else [] := by
  induction codes with
  | nil => rfl
  | cons c rest ih =>
    rcases List.nodup_cons.mp nodup with ⟨hc, hrest⟩
    rw [List.map_cons, history_cons, ih hrest]
    by_cases h : c = code
    · subst h
      simp [hc]
    · have h' : code ≠ c := fun he => h he.symm
      simp [h, h']

/-- A call adds its id to a code's history once, if its word emits the code. -/
lemma history_emitted (call : Bytes × UInt32) (code : TrigramCode) :
    history (emitted call) code =
      if code ∈ forEachTrigram call.1 then [call.2] else [] := by
  have hmem : code ∈ distinctTrigrams call.1 ↔ code ∈ forEachTrigram call.1 :=
    mem_sortUnique (forEachTrigram call.1) code
  rw [← if_congr hmem rfl rfl]
  exact history_distinct (sortUnique_nodup _) call.2 code

theorem history_calls (calls : List (Bytes × UInt32)) (code : TrigramCode) :
    history (calls.flatMap emitted) code =
      (calls.filter (fun call => code ∈ forEachTrigram call.1)).map Prod.snd := by
  induction calls with
  | nil => rfl
  | cons call rest ih =>
    rw [List.flatMap_cons, history_append, history_emitted, ih]
    by_cases h : code ∈ forEachTrigram call.1
    · simp [h]
    · simp [h]

end TrigramBuilder

/-- "cat" has five windows, the first of which is two NULs and `c`. -/
example : forEachTrigram (SymbolData.text "CAt") =
    [0x63, 0x6361, 0x636174, 0x617400, 0x740000] := by decide

end TrigramCodes
