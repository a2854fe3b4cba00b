import Mathlib.Data.List.Dedup
import SymFind.Core.TrigramCodes

/-!
# Posting lists as the record of the calls

`add_word` gathers the codes of a word in a scratch buffer that outlives the
call. Nothing of an earlier word may reach the map through it. The posting list
of a code is then the history of the calls whose words emit the code, repeated
words and repeated ids included.
-/
namespace TrigramPostings
open RecordCodec InsertionMap SortedUnique TrigramCodes

/-- The builder with its scratch buffer, which holds the codes of the last word. -/
structure ScratchBuilder extends TrigramBuilder where
  scratchTrigrams : List TrigramCode

namespace ScratchBuilder

def new : ScratchBuilder := ⟨TrigramBuilder.new, []⟩

/-- `push_back` in the order of `for_each_trigram`. -/
def pushTrigrams (b : ScratchBuilder) (word : Bytes) : ScratchBuilder :=
  (forEachTrigram word).foldl
    (fun b code => { b with scratchTrigrams := b.scratchTrigrams ++ [code] }) b

def addWord (b : ScratchBuilder) (word : Bytes) (symbolId : UInt32) : ScratchBuilder :=
  if word = [] then b
  else
    let b := { b with scratchTrigrams := [] }
    let b := b.pushTrigrams word
    let b := { b with scratchTrigrams := sort b.scratchTrigrams }
    let b := { b with scratchTrigrams := unique b.scratchTrigrams }
    { b with
      trigramToSymbols :=
        b.scratchTrigrams.foldl (fun m code => push m (code, symbolId)) b.trigramToSymbols
      symbolCount := b.symbolCount + 1 }

def addWords (b : ScratchBuilder) (calls : List (Bytes × UInt32)) : ScratchBuilder :=
  calls.foldl (fun b call => b.addWord call.1 call.2) b

lemma pushTrigrams_eq (b : ScratchBuilder) (word : Bytes) :
    b.pushTrigrams word =
      { b with scratchTrigrams := b.scratchTrigrams ++ forEachTrigram word } := by
  have from_any : ∀ (codes : List TrigramCode) (b : ScratchBuilder),
      codes.foldl (fun b code => { b with scratchTrigrams := b.scratchTrigrams ++ [code] }) b =
        { b with scratchTrigrams := b.scratchTrigrams ++ codes } := by
    intro codes
    induction codes with
    | nil => intro b; simp
    | cons code rest ih => intro b; rw [List.foldl_cons, ih, List.append_assoc]; rfl
  exact from_any (forEachTrigram word) b

/-- What the scratch buffer held before the call has no part in its result. -/
lemma addWord_eq (b : ScratchBuilder) {word : Bytes} (h : word ≠ []) (symbolId : UInt32) :
    b.addWord word symbolId =
      ⟨b.toTrigramBuilder.addWord word symbolId, distinctTrigrams word⟩ := by
  simp only [addWord, TrigramBuilder.addWord, if_neg h, pushTrigrams_eq, List.nil_append]
  rfl

lemma addWord_core (b : ScratchBuilder) (word : Bytes) (symbolId : UInt32) :
    (b.addWord word symbolId).toTrigramBuilder = b.toTrigramBuilder.addWord word symbolId := by
  by_cases h : word = []
  · rw [addWord, if_pos h, TrigramBuilder.addWord, if_pos h]
  · rw [addWord_eq b h]

theorem addWords_core (b : ScratchBuilder) (calls : List (Bytes × UInt32)) :
    (b.addWords calls).toTrigramBuilder = b.toTrigramBuilder.addWords calls := by
  induction calls generalizing b with
  | nil => rfl
  | cons call rest ih =>
    change ((b.addWord call.1 call.2).addWords rest).toTrigramBuilder = _
    rw [ih, addWord_core]
    rfl

end ScratchBuilder

/-- The calls that are not turned away at once. -/
def wordCalls (calls : List (Bytes × UInt32)) : List (Bytes × UInt32) :=
  calls.filter (fun call => call.1 ≠ [])

/-- The codes that the words of the calls emit, with repetitions. -/
def emittedCodes (calls : List (Bytes × UInt32)) : List TrigramCode :=
  (wordCalls calls).flatMap (fun call => forEachTrigram call.1)

/-- The ids of the calls whose words emit the code, one entry a call. -/
def postingsOf (calls : List (Bytes × UInt32)) (code : TrigramCode) : List UInt32 :=
  ((wordCalls calls).filter (fun call => code ∈ forEachTrigram call.1)).map Prod.snd

/-- A builder that holds the history of the calls and nothing else. -/
structure RecordsHistory (calls : List (Bytes × UInt32)) (b : TrigramBuilder) : Prop where
  postings : ∀ code ∈ emittedCodes calls,
    b.trigramToSymbols.get code = some (postingsOf calls code)
  keys : ∀ code, code ∈ b.trigramToSymbols.keys ↔ code ∈ emittedCodes calls
  symbolCount : b.symbolCount = UInt64.ofNat (wordCalls calls).length
  uniqueTrigramCount : b.uniqueTrigramCount = (emittedCodes calls).dedup.length

lemma mem_emittedCodes (calls : List (Bytes × UInt32)) (code : TrigramCode) :
    code ∈ emittedCodes calls ↔ ∃ call ∈ calls, code ∈ forEachTrigram call.1 := by
  simp only [emittedCodes, wordCalls, List.mem_flatMap, List.mem_filter, decide_eq_true_eq]
  constructor
  · rintro ⟨call, ⟨hcall, _⟩, hcode⟩
    exact ⟨call, hcall, hcode⟩
  · rintro ⟨call, hcall, hcode⟩
    refine ⟨call, ⟨hcall, ?_⟩, hcode⟩
    intro hnil
    rw [hnil, forEachTrigram_nil] at hcode
    cases hcode

lemma postingsOf_eq (calls : List (Bytes × UInt32)) (code : TrigramCode) :
    postingsOf calls code =
      (calls.filter (fun call => code ∈ forEachTrigram call.1)).map Prod.snd := by
  rw [postingsOf, wordCalls, List.filter_filter]
  congr 1
  apply List.filter_congr
  intro call _
  by_cases hnil : call.1 = []
  · simp [hnil]
  · simp [hnil]

lemma keys_emitted (calls : List (Bytes × UInt32)) (code : TrigramCode) :
    code ∈ (calls.flatMap TrigramBuilder.emitted).map Prod.fst ↔ code ∈ emittedCodes calls := by
  rw [mem_emittedCodes, List.map_flatMap, List.mem_flatMap]
  simp [TrigramBuilder.emitted, distinctTrigrams, Function.comp_def]

lemma symbolCount_addWords (b : TrigramBuilder) (calls : List (Bytes × UInt32)) :
    (b.addWords calls).symbolCount =
      b.symbolCount + UInt64.ofNat (wordCalls calls).length := by
  induction calls generalizing b with
  | nil => simp [TrigramBuilder.addWords, wordCalls]
  | cons call rest ih =>
    change ((b.addWord call.1 call.2).addWords rest).symbolCount = _
    rw [ih, TrigramBuilder.addWord]
    by_cases hnil : call.1 = []
    · rw [if_pos hnil]
      simp [wordCalls, hnil]
    · have hcount : (wordCalls (call :: rest)).length = (wordCalls rest).length + 1 := by
        simp [wordCalls, hnil]
      rw [if_neg hnil, hcount, UInt64.ofNat_add, UInt64.add_assoc]
      congr 1
      exact UInt64.add_comm _ _

/-- A map with the members of a list for its keys has as many entries as the list has
different members. -/
lemma entries_length {m : Map TrigramCode (List UInt32)} {codes : List TrigramCode}
    (same : ∀ code, code ∈ m.keys ↔ code ∈ codes) : m.entries.length = codes.dedup.length := by
  have hperm : m.keys.Perm codes.dedup := by
    apply (List.perm_ext_iff_of_nodup m.keys_nodup codes.nodup_dedup).mpr
    intro code
    rw [same, List.mem_dedup]
  have hlength := hperm.length_eq
  rw [Map.keys, List.length_map] at hlength
  exact hlength

/-- After every sequence of calls the builder holds their history. -/
theorem addWords_records (calls : List (Bytes × UInt32)) :
    RecordsHistory calls (ScratchBuilder.new.addWords calls).toTrigramBuilder := by
  rw [ScratchBuilder.addWords_core]
  change RecordsHistory calls (TrigramBuilder.new.addWords calls)
  have hmap := TrigramBuilder.addWords_map calls
  have hkeys : ∀ code, code ∈ (TrigramBuilder.new.addWords calls).trigramToSymbols.keys ↔
      code ∈ emittedCodes calls := by
    intro code
    rw [hmap, mem_keys_record, keys_emitted]
  constructor
  case postings =>
    intro code hcode
    rw [hmap, get_record, if_pos ((keys_emitted calls code).mpr hcode),
      TrigramBuilder.history_calls, postingsOf_eq]
  case keys => exact hkeys
  case symbolCount =>
    rw [symbolCount_addWords]
    exact UInt64.zero_add _
  case uniqueTrigramCount => exact entries_length hkeys

/-- A word added twice under one id is entered twice; its three equal windows count once. -/
example :
    let word := SymbolData.text "aaaaa"
    let b := ScratchBuilder.new.addWords [(word, 7), ([], 8), (word, 7)]
    b.trigramToSymbols.get 0x616161 = some [7, 7] ∧ b.symbolCount = 2 ∧
      b.uniqueTrigramCount = 5 := by decide

end TrigramPostings
