import SymFind.Database.TrigramCapacity
import Mathlib.Data.Finset.Card
import Mathlib.Data.Finset.Image
import Mathlib.Data.Finset.Range

/-!
# Exactness of the trigram index

The builder's table satisfies the probing invariant with the stored codes as
keys, and the capacity leaves a free slot. The reader computes the same hash
width from its 32-bit capacity, so its walk is the builder's walk. Posting
ranges are disjoint by construction, and a code's range holds the positions of
the names that emit it.
-/
namespace TrigramExact
open RecordCodec InsertionMap SortedUnique Machine TrigramCodes DatabaseLayout TrigramTable
open LinearProbing TrigramCapacity

section Capacity

/-- The capacity is a power of two from 16 to 2^25 with at most 7/10 of it in use. -/
theorem capacity_spec (count : UInt64) (h : count.toNat ≤ 2 ^ 24) :
    ∃ k, 4 ≤ k ∧ k ≤ 25 ∧ count.toNat * 10 ≤ 2 ^ k * 7 ∧
      trigramCapacityForCount count LoadFactor.default = .ok (UInt64.ofNat (2 ^ k)) := by
  have hdouble : toDouble count = count.toNat :=
    toDouble_small (h.trans_lt (by decide : 2 ^ 24 < 2 ^ doubleDigits))
  have fits : Fits (toDouble count) LoadFactor.default (2 ^ 25) := by
    rw [hdouble]
    change 2 ^ 53 * count.toNat ≤ 6305039478318694 * 2 ^ 25
    omega
  obtain ⟨d, hd, ⟨⟨-, -, hfits⟩, hmin⟩, hrun⟩ :=
    returns_least (fits.mono (Nat.pow_le_pow_right (by omega) (by omega)))
  have hle : 2 ^ (4 + d) ≤ 2 ^ 25 := hmin ⟨⟨25, rfl⟩, by decide, fits⟩
  have hk : 4 + d ≤ 25 := (Nat.pow_le_pow_iff_right (by omega : 1 < 2)).mp hle
  have hused : count.toNat * 10 ≤ 2 ^ (4 + d) * 7 := by
    rw [hdouble] at hfits
    change 2 ^ 53 * count.toNat ≤ 6305039478318694 * 2 ^ (4 + d) at hfits
    omega
  refine ⟨4 + d, by omega, hk, hused, ?_⟩
  rw [trigramCapacityForCount, runLoop, hrun 64 (by omega)]

lemma homeSlot_lt (code : TrigramCode) {k : Nat} (hlo : 4 ≤ k) (hhi : k ≤ 25) :
    (trigramHomeSlot code (UInt32.ofNat k)).toNat < 2 ^ k := by
  have hk : (UInt32.ofNat k).toNat = k := by
    rw [UInt32.toNat_ofNat']
    exact Nat.mod_eq_of_lt (by omega)
  have hne : UInt32.ofNat k ≠ 0 := by
    intro hz
    have := congrArg UInt32.toNat hz
    rw [hk] at this
    simp at this
    omega
  have hshift : ((64 : UInt32) - UInt32.ofNat k).toNat = 64 - k := by
    rw [UInt32.toNat_sub, hk]
    simp only [UInt32.reduceToNat]
    omega
  have hhash := (trigramFibonacciHash code).toNat_lt
  rw [trigramHomeSlot, if_neg hne, UInt64.toNat_shiftRight, UInt32.toNat_toUInt64, hshift,
    Nat.mod_eq_of_lt (by omega), Nat.shiftRight_eq_div_pow]
  apply Nat.div_lt_of_lt_mul
  rw [← Nat.pow_add]
  have hsum : 64 - k + k = 64 := by omega
  rw [hsum]
  exact hhash

lemma builder_mask {k idx : Nat} (hk : k ≤ 25) :
    (idx + 1) &&& (UInt64.ofNat (2 ^ k) - 1).toNat = (idx + 1) % 2 ^ k := by
  have hpos : 0 < 2 ^ k := Nat.two_pow_pos k
  have hle : 2 ^ k ≤ 2 ^ 25 := Nat.pow_le_pow_right (by omega) hk
  have hsub : (UInt64.ofNat (2 ^ k) - 1).toNat = 2 ^ k - 1 := by
    rw [UInt64.toNat_sub, toNat_two_pow (by omega)]
    simp only [UInt64.reduceToNat]
    omega
  rw [hsub, Nat.and_two_pow_sub_one_eq_mod]

lemma reader_capacity {k : Nat} (hk : k ≤ 25) :
    (UInt32.ofNat (UInt64.ofNat (2 ^ k)).toNat).toNat = 2 ^ k := by
  have hlt : 2 ^ k < 2 ^ 32 := Nat.pow_lt_pow_right (by omega) (by omega)
  rw [toNat_two_pow (by omega), UInt32.toNat_ofNat', Nat.mod_eq_of_lt hlt]

lemma reader_mask {k idx : Nat} (hk : k ≤ 25) :
    (idx + 1) &&& (UInt32.ofNat (UInt64.ofNat (2 ^ k)).toNat - 1).toNat = (idx + 1) % 2 ^ k := by
  have hpos : 0 < 2 ^ k := Nat.two_pow_pos k
  have hle : 2 ^ k ≤ 2 ^ 25 := Nat.pow_le_pow_right (by omega) hk
  have hsub : (UInt32.ofNat (UInt64.ofNat (2 ^ k)).toNat - 1).toNat = 2 ^ k - 1 := by
    rw [UInt32.toNat_sub, reader_capacity hk]
    simp only [UInt32.reduceToNat]
    omega
  rw [hsub, Nat.and_two_pow_sub_one_eq_mod]

/-- The reader takes from its 32-bit capacity the width that the builder hashed with. -/
theorem hash_width_agrees {k : Nat} (hk : k ≤ 25) :
    getTrigramCapacityBits (UInt32.ofNat (UInt64.ofNat (2 ^ k)).toNat) =
      UInt32.ofNat (countrZero 64 (UInt64.ofNat (2 ^ k)).toNat) := by
  have hpos : 0 < 2 ^ k := Nat.two_pow_pos k
  have hne : UInt32.ofNat (UInt64.ofNat (2 ^ k)).toNat ≠ 0 := by
    intro hz
    have := congrArg UInt32.toNat hz
    rw [reader_capacity hk] at this
    simp at this
  rw [getTrigramCapacityBits, if_pos hne, reader_capacity hk, toNat_two_pow (by omega),
    countrZero_two_pow (by omega), countrZero_two_pow (by omega)]

end Capacity

section Insertion

/-- The key of a slot for the probing invariant. -/
def slotKey (slot : TrigramSlot) : Option TrigramCode :=
  if slot.trigramCode = trigramEmptySlot then none else some slot.trigramCode

def homeOf (k : Nat) (code : TrigramCode) : Nat :=
  (trigramHomeSlot code (UInt32.ofNat k)).toNat

/-- The slot of an entry that is inserted after the entries `done`. -/
def slotFor (done : List TrigramEntry) (ent : TrigramEntry) : TrigramSlot where
  trigramCode := ent.code
  postingOffset := UInt32.ofNat (done.flatMap TrigramEntry.symbols).length
  postingCount := UInt32.ofNat ent.symbols.length

structure Filled (k : Nat) (done : List TrigramEntry)
    (table : List TrigramSlot × List UInt32) : Prop where
  size : table.1.length = 2 ^ k
  probed : Probed slotKey (homeOf k) table.1
  keys : (table.1.filterMap slotKey).Perm (done.map TrigramEntry.code)
  postings : table.2 = done.flatMap TrigramEntry.symbols
  held : ∀ slot ∈ table.1, ∀ code, slotKey slot = some code →
    ∃ pre ent post, done = pre ++ ent :: post ∧ slot = slotFor pre ent

/-- With fewer entries than slots, a slot is free. -/
lemma Filled.has_free {k : Nat} {done : List TrigramEntry}
    {table : List TrigramSlot × List UInt32} (filled : Filled k done table)
    (room : done.length < 2 ^ k) : (table.1.filterMap slotKey).length < table.1.length := by
  rw [filled.keys.length_eq, List.length_map, filled.size]
  exact room

lemma slotKey_slotFor {ent : TrigramEntry} (h : ent.code ≠ trigramEmptySlot)
    (done : List TrigramEntry) : slotKey (slotFor done ent) = some ent.code := by
  simp [slotKey, slotFor, h]

lemma filled_empty (k : Nat) : Filled k [] (List.replicate (2 ^ k) emptySlot, []) := by
  have free : ∀ slot ∈ List.replicate (2 ^ k) emptySlot, slotKey slot = none := by
    intro slot hslot
    rw [List.eq_of_mem_replicate hslot]
    rfl
  refine ⟨List.length_replicate, probed_free free, ?_, rfl, ?_⟩
  · have : (List.replicate (2 ^ k) emptySlot).filterMap slotKey = [] :=
      List.filterMap_eq_nil_iff.mpr free
    simp [this]
  · intro slot hslot code hcode
    rw [free slot hslot] at hcode
    cases hcode

lemma probeFree_taken {slots : List TrigramSlot} {k idx : Nat} (hk : k ≤ 25)
    (h : (keyAt slotKey slots idx).isSome) :
    probeFree slots (UInt64.ofNat (2 ^ k)) idx = .inr ((idx + 1) % 2 ^ k) := by
  rw [probeFree]
  cases hs : slots[idx]? with
  | none => simp [keyAt, hs] at h
  | some slot =>
    have hne : slot.trigramCode ≠ trigramEmptySlot := by
      intro heq
      simp [keyAt, hs, slotKey, heq] at h
    simp only [if_pos hne, builder_mask hk]

lemma probeFree_free {slots : List TrigramSlot} {capacity : UInt64} {idx : Nat}
    (hidx : idx < slots.length) (h : keyAt slotKey slots idx = none) :
    probeFree slots capacity idx = .inl (.ok idx) := by
  rw [probeFree, List.getElem?_eq_getElem hidx]
  have heq : slots[idx].trigramCode = trigramEmptySlot := by
    by_contra hne
    simp [keyAt, hidx, slotKey, hne] at h
  simp [heq]

/-- One insertion: the probe ends at a free slot and the invariant goes on. -/
theorem insertEntry_filled {k : Nat} (hlo : 4 ≤ k) (hhi : k ≤ 25) {done : List TrigramEntry}
    {table : List TrigramSlot × List UInt32} (filled : Filled k done table)
    (room : done.length < 2 ^ k) {ent : TrigramEntry} (hcode : ent.code ≠ trigramEmptySlot)
    (fresh : ent.code ∉ done.map TrigramEntry.code) :
    ∃ table', insertEntry (UInt64.ofNat (2 ^ k)) (UInt32.ofNat k) table ent = .ok table' ∧
      Filled k (done ++ [ent]) table' := by
  obtain ⟨slots, postings⟩ := table
  have hsize : slots.length = 2 ^ k := filled.size
  have hfree := filled.has_free room
  obtain ⟨d, hd, hnone, hocc⟩ := walk_to_free hfree (homeOf k ent.code)
  have hhome : stepIndex slots (homeOf k ent.code) 0 = homeOf k ent.code :=
    stepIndex_zero (hsize ▸ homeSlot_lt ent.code hlo hhi)
  have hpos : 0 < slots.length := by omega
  have hidx := stepIndex_lt hpos (homeOf k ent.code) d
  have steps : ∀ e, e < d →
      probeFree slots (UInt64.ofNat (2 ^ k)) (stepIndex slots (homeOf k ent.code) e) =
        .inr (stepIndex slots (homeOf k ent.code) (e + 1)) := by
    intro e he
    rw [probeFree_taken hhi (hocc e he), stepIndex_succ, hsize]
  have hloop := runLoop_of_chain _ _ _ d steps (probeFree_free hidx hnone) slots.length hd
  rw [hhome] at hloop
  have fresh' : ent.code ∉ slots.filterMap slotKey := by
    rw [filled.keys.mem_iff]
    exact fresh
  have hkey : slotKey (slotFor done ent) = some ent.code := slotKey_slotFor hcode done
  refine ⟨(slots.set (stepIndex slots (homeOf k ent.code) d) (slotFor done ent),
    postings ++ ent.symbols), ?_, ?_⟩
  · have hpost : postings = done.flatMap TrigramEntry.symbols := filled.postings
    rw [homeOf] at hloop
    simp only [insertEntry, hloop, hpost]
    rfl
  · constructor
    · rw [List.length_set]
      exact hsize
    · exact probed_set filled.probed hkey fresh' hd hocc
    · refine (filterMap_set hkey hidx hnone).trans ?_
      rw [List.map_append, List.map_singleton]
      exact (List.Perm.cons _ filled.keys).trans (List.perm_append_singleton _ _).symm
    · rw [List.flatMap_append, List.flatMap_singleton]
      exact congrArg (· ++ ent.symbols) filled.postings
    · intro slot hslot code hslotKey
      rcases List.mem_or_eq_of_mem_set hslot with hold | hnew
      · obtain ⟨pre, e, post, hdone, heq⟩ := filled.held slot hold code hslotKey
        exact ⟨pre, e, post ++ [ent], by rw [hdone]; simp, heq⟩
      · exact ⟨done, ent, [], rfl, hnew⟩

/-- All insertions: the builder's loop over the entries ends in a filled table. -/
theorem insertEntries_filled {k : Nat} (hlo : 4 ≤ k) (hhi : k ≤ 25)
    (entries done : List TrigramEntry) {table : List TrigramSlot × List UInt32}
    (filled : Filled k done table) (room : done.length + entries.length < 2 ^ k)
    (codes : ∀ ent ∈ entries, ent.code ≠ trigramEmptySlot)
    (distinct : ((done ++ entries).map TrigramEntry.code).Nodup) :
    ∃ table', entries.foldlM (insertEntry (UInt64.ofNat (2 ^ k)) (UInt32.ofNat k)) table =
        .ok table' ∧ Filled k (done ++ entries) table' := by
  induction entries generalizing done table with
  | nil => exact ⟨table, rfl, by simpa using filled⟩
  | cons ent rest ih =>
    rw [List.length_cons] at room
    have fresh : ent.code ∉ done.map TrigramEntry.code := by
      intro hmem
      rw [List.map_append, List.map_cons] at distinct
      exact (List.nodup_append.mp distinct).2.2 _ hmem _ List.mem_cons_self rfl
    obtain ⟨mid, hmid, hfilled⟩ := insertEntry_filled hlo hhi filled (by omega)
      (codes ent List.mem_cons_self) fresh
    obtain ⟨table', hrest, hend⟩ := ih (done ++ [ent]) hfilled
      (by rw [List.length_append, List.length_singleton]; omega)
      (fun e he => codes e (List.mem_cons_of_mem ent he)) (by simpa using distinct)
    refine ⟨table', ?_, by simpa using hend⟩
    rw [List.foldlM_cons, hmid]
    exact hrest

end Insertion

section Lookup

variable {k : Nat} {slots : List TrigramSlot} {code : TrigramCode}

/-- The capacity as the reader keeps it, in 32 bits. -/
def readerCapacity (k : Nat) : UInt32 := UInt32.ofNat (UInt64.ofNat (2 ^ k)).toNat

lemma probeSlots_eq_loop (hhi : k ≤ 25) (fuel : Nat) (slotsBuf : Bytes) (code : TrigramCode) :
    probeSlots fuel slotsBuf (readerCapacity k) code =
      runLoop (probeCode slotsBuf (readerCapacity k) code) fuel (homeOf k code) := by
  have hpos : 0 < 2 ^ k := Nat.two_pow_pos k
  have hne : readerCapacity k ≠ 0 := by
    intro hz
    have := congrArg UInt32.toNat hz
    rw [readerCapacity, reader_capacity hhi] at this
    simp at this
  have hbits : getTrigramCapacityBits (readerCapacity k) = UInt32.ofNat k := by
    rw [readerCapacity, hash_width_agrees hhi, toNat_two_pow (by omega),
      countrZero_two_pow (by omega)]
  simp only [probeSlots, if_neg hne, hbits, homeOf]

lemma slotCode_encodeAll {idx : Nat} (hidx : idx < slots.length) :
    slotCode (trigramSlotCodec.encodeAll slots) idx = some slots[idx].trigramCode :=
  slotCode_of_entry (trigramSlotCodec.entryAt_encodeAll slots hidx)

lemma probeCode_other (hhi : k ≤ 25) {idx : Nat} (hidx : idx < slots.length)
    (h : ∃ c, keyAt slotKey slots idx = some c ∧ c ≠ code) :
    probeCode (trigramSlotCodec.encodeAll slots) (readerCapacity k) code idx =
      .inr ((idx + 1) % 2 ^ k) := by
  obtain ⟨c, hc, hne⟩ := h
  have hkey : slotKey slots[idx] = some c := by simpa [keyAt, hidx] using hc
  have hfull : slots[idx].trigramCode ≠ trigramEmptySlot := by
    intro heq
    simp [slotKey, heq] at hkey
  have hcode : slots[idx].trigramCode = c := by simpa [slotKey, hfull] using hkey
  have hother : slots[idx].trigramCode ≠ code := fun heq => hne (hcode.symm.trans heq)
  simp only [probeCode, slotCode_encodeAll hidx, if_neg hfull, if_neg hother, readerCapacity,
    reader_mask hhi]

lemma probeCode_free {capacity : UInt32} {idx : Nat} (hidx : idx < slots.length)
    (h : keyAt slotKey slots idx = none) :
    probeCode (trigramSlotCodec.encodeAll slots) capacity code idx = .inl (.ok none) := by
  have hempty : slots[idx].trigramCode = trigramEmptySlot := by
    by_contra hne
    simp [keyAt, hidx, slotKey, hne] at h
  simp only [probeCode, slotCode_encodeAll hidx, if_pos hempty]

lemma probeCode_hit {capacity : UInt32} {idx : Nat} (hidx : idx < slots.length)
    (h : keyAt slotKey slots idx = some code) :
    probeCode (trigramSlotCodec.encodeAll slots) capacity code idx = .inl (.ok (some idx)) := by
  have hkey : slotKey slots[idx] = some code := by simpa [keyAt, hidx] using h
  have hfull : slots[idx].trigramCode ≠ trigramEmptySlot := by
    intro heq
    simp [slotKey, heq] at hkey
  have hcode : slots[idx].trigramCode = code := by simpa [slotKey, hfull] using hkey
  simp only [probeCode, slotCode_encodeAll hidx, if_neg hfull, if_pos hcode]

/-- A walk over other codes ends the loop at the first slot that answers. -/
lemma lookup_walk (hlo : 4 ≤ k) (hhi : k ≤ 25) (hsize : slots.length = 2 ^ k) {fuel d : Nat}
    (hd : d < slots.length) (enough : 2 ^ k ≤ fuel) {stop : Option Nat}
    (others : ∀ e, e < d →
      ∃ c, keyAt slotKey slots (stepIndex slots (homeOf k code) e) = some c ∧ c ≠ code)
    (answer : probeCode (trigramSlotCodec.encodeAll slots) (readerCapacity k) code
      (stepIndex slots (homeOf k code) d) = .inl (.ok stop)) :
    lookupTrigram fuel (trigramSlotCodec.encodeAll slots) (readerCapacity k) code =
      spanAt (trigramSlotCodec.encodeAll slots) stop := by
  have hhome : stepIndex slots (homeOf k code) 0 = homeOf k code :=
    stepIndex_zero (hsize ▸ homeSlot_lt code hlo hhi)
  have steps : ∀ e, e < d →
      probeCode (trigramSlotCodec.encodeAll slots) (readerCapacity k) code
        (stepIndex slots (homeOf k code) e) = .inr (stepIndex slots (homeOf k code) (e + 1)) := by
    intro e he
    have hpos : 0 < slots.length := by omega
    have hidx := stepIndex_lt hpos (homeOf k code) e
    rw [probeCode_other hhi hidx (others e he), stepIndex_succ, hsize]
  have hloop := runLoop_of_chain _ _ _ d steps answer fuel (by omega)
  rw [hhome, ← probeSlots_eq_loop hhi] at hloop
  rw [lookupTrigram, hloop]
  rfl

variable {entries : List TrigramEntry} {postings : List UInt32}

/-- A code without an entry is answered by an empty list. -/
theorem lookup_absent (hlo : 4 ≤ k) (hhi : k ≤ 25) (filled : Filled k entries (slots, postings))
    (room : entries.length < 2 ^ k) (absent : code ∉ entries.map TrigramEntry.code)
    {fuel : Nat} (enough : 2 ^ k ≤ fuel) (postingsBuf : Bytes) :
    lookupIds fuel (trigramSlotCodec.encodeAll slots) postingsBuf (readerCapacity k) code =
      .ok [] := by
  have hsize : slots.length = 2 ^ k := filled.size
  have hfree := filled.has_free room
  have habsent : code ∉ slots.filterMap slotKey := by
    rw [filled.keys.mem_iff]
    exact absent
  obtain ⟨d, hd, hnone, others⟩ := walk_past_keys hfree habsent (homeOf k code)
  have hpos : 0 < slots.length := by omega
  have hidx := stepIndex_lt hpos (homeOf k code) d
  have hspan := lookup_walk hlo hhi hsize hd enough others (probeCode_free hidx hnone)
  rw [lookupIds, hspan]
  rfl

/-- A code with an entry is answered by the entry's posting list. -/
theorem lookup_present (hlo : 4 ≤ k) (hhi : k ≤ 25) (filled : Filled k entries (slots, postings))
    (fits : 4 * postings.length < 2 ^ 32) {ent : TrigramEntry} (hent : ent ∈ entries)
    (distinct : (entries.map TrigramEntry.code).Nodup)
    {fuel : Nat} (enough : 2 ^ k ≤ fuel) :
    lookupIds fuel (trigramSlotCodec.encodeAll slots) (Codec.u32.encodeAll postings)
      (readerCapacity k) ent.code = .ok ent.symbols := by
  have hsize : slots.length = 2 ^ k := filled.size
  have hmem : ent.code ∈ slots.filterMap slotKey := by
    rw [filled.keys.mem_iff]
    exact List.mem_map_of_mem hent
  obtain ⟨slot, hslot, hkey⟩ := List.mem_filterMap.mp hmem
  obtain ⟨j, hj, hget⟩ := List.mem_iff_getElem.mp hslot
  have hat : keyAt slotKey slots j = some ent.code := by simp [keyAt, hj, hget, hkey]
  obtain ⟨d, hd, rfl, others⟩ := walk_to_key filled.probed hat
  have hspan := lookup_walk hlo hhi hsize hd enough others (probeCode_hit hj hat)
  obtain ⟨pre, ent', post, hsplit, heq⟩ := filled.held slot hslot ent.code hkey
  -- codes are distinct, so the slot was written for this very entry
  have hsame : ent' = ent := by
    have hmem' : ent' ∈ entries := by rw [hsplit]; simp
    have hcode : ent'.code = ent.code := by
      have hne : ent'.code ≠ trigramEmptySlot := by
        intro hempty
        rw [heq] at hkey
        simp [slotKey, slotFor, hempty] at hkey
      rw [heq, slotKey_slotFor hne] at hkey
      exact Option.some.inj hkey
    exact List.inj_on_of_nodup_map distinct hmem' hent hcode
  subst hsame
  have hlen : postings = pre.flatMap TrigramEntry.symbols ++ ent'.symbols ++
      post.flatMap TrigramEntry.symbols := by
    have : postings = entries.flatMap TrigramEntry.symbols := filled.postings
    rw [this, hsplit]
    simp
  have htotal := congrArg List.length hlen
  simp only [List.length_append] at htotal
  have hoffset : slot.postingOffset.toNat = (pre.flatMap TrigramEntry.symbols).length := by
    rw [heq, slotFor, UInt32.toNat_ofNat']
    exact Nat.mod_eq_of_lt (by omega)
  have hcount : slot.postingCount.toNat = ent'.symbols.length := by
    rw [heq, slotFor, UInt32.toNat_ofNat']
    exact Nat.mod_eq_of_lt (by omega)
  have hread : lookupTrigram fuel (trigramSlotCodec.encodeAll slots) (readerCapacity k) ent'.code =
      .ok ⟨slot.postingOffset.toNat, slot.postingCount.toNat⟩ := by
    rw [hspan, spanAt, trigramSlotCodec.entryAt_encodeAll slots hj, hget]
  rw [lookupIds, hread, hoffset, hcount, hlen]
  change readSpan _ ⟨_, _⟩ = _
  rw [readSpan, Codec.u32.readMany_encodeAll]

end Lookup

section Postings

/-- The positions of the names that emit a code, in increasing order. -/
def emittingPositions (names : List Bytes) (code : TrigramCode) : List Nat :=
  (names.zipIdx.filter (fun p => code ∈ forEachTrigram p.1)).map Prod.snd

lemma mem_emittingPositions (names : List Bytes) (code : TrigramCode) (i : Nat) :
    i ∈ emittingPositions names code ↔
      ∃ name, names[i]? = some name ∧ code ∈ forEachTrigram name := by
  simp only [emittingPositions, List.mem_map, List.mem_filter, decide_eq_true_eq]
  constructor
  · rintro ⟨⟨name, j⟩, ⟨hmem, hcode⟩, rfl⟩
    exact ⟨name, List.mem_zipIdx_iff_getElem?.mp hmem, hcode⟩
  · rintro ⟨name, hname, hcode⟩
    exact ⟨(name, i), ⟨List.mem_zipIdx_iff_getElem?.mpr hname, hcode⟩, rfl⟩

lemma emittingPositions_strict (names : List Bytes) (code : TrigramCode) :
    (emittingPositions names code).Pairwise (· < ·) := by
  have hsub : (emittingPositions names code).Sublist (names.zipIdx.map Prod.snd) :=
    List.filter_sublist.map Prod.snd
  refine List.Pairwise.sublist hsub ?_
  rw [List.zipIdx_map_snd]
  exact List.pairwise_lt_range'

lemma nameBuilder_history (names : List Bytes) (code : TrigramCode) :
    ((nameBuilder names).trigramToSymbols.get code).getD [] =
      (emittingPositions names code).map UInt32.ofNat := by
  rw [nameBuilder, TrigramBuilder.addWords_map, getD_record, TrigramBuilder.history_calls,
    List.filter_map, List.map_map, emittingPositions, List.map_map]
  rfl

lemma nameBuilder_key_lt (names : List Bytes) {code : TrigramCode}
    (h : code ∈ (nameBuilder names).trigramToSymbols.keys) : code.toNat < 2 ^ 24 := by
  rw [nameBuilder, TrigramBuilder.addWords_map, mem_keys_record] at h
  obtain ⟨e, he, rfl⟩ := List.mem_map.mp h
  obtain ⟨call, _, hcall⟩ := List.mem_flatMap.mp he
  obtain ⟨c, hc, rfl⟩ := List.mem_map.mp hcall
  exact forEachTrigram_lt ((mem_sortUnique _ c).mp hc)

lemma nameBuilder_key_iff (names : List Bytes) (code : TrigramCode) :
    code ∈ (nameBuilder names).trigramToSymbols.keys ↔ emittingPositions names code ≠ [] := by
  have hd := nameBuilder_history names code
  rw [nameBuilder, TrigramBuilder.addWords_map, getD_record] at hd
  rw [nameBuilder, TrigramBuilder.addWords_map, mem_keys_record, ← not_iff_not,
    ← history_eq_nil_iff, hd, List.map_eq_nil_iff, ne_eq, not_not]

variable (order : IterationOrder (TrigramCode × List UInt32)) (names : List Bytes)

/-- The entries of the builder for the given names. -/
def nameEntries : List TrigramEntry := trigramEntries order (nameBuilder names).trigramToSymbols

lemma nameEntries_codes : ((nameEntries order names).map TrigramEntry.code).Perm
    (nameBuilder names).trigramToSymbols.keys := by
  rw [nameEntries, trigramEntries, List.map_map]
  exact (order.perm _).map Prod.fst

lemma nameEntries_nodup : ((nameEntries order names).map TrigramEntry.code).Nodup :=
  (nameEntries_codes order names).nodup_iff.mpr (Map.keys_nodup _)

lemma nameEntries_code_lt {ent : TrigramEntry} (h : ent ∈ nameEntries order names) :
    ent.code.toNat < 2 ^ 24 := by
  apply nameBuilder_key_lt names
  exact (nameEntries_codes order names).mem_iff.mp (List.mem_map_of_mem h)

lemma nameEntries_length : (nameEntries order names).length ≤ 2 ^ 24 := by
  have hnodup : (((nameEntries order names).map TrigramEntry.code).map UInt32.toNat).Nodup :=
    (nameEntries_nodup order names).map (fun _ _ h => UInt32.toNat_inj.mp h)
  have hsub : ((nameEntries order names).map TrigramEntry.code).map UInt32.toNat ⊆
      List.range (2 ^ 24) := by
    intro n hn
    simp only [List.map_map, List.mem_map] at hn
    obtain ⟨ent, hent, rfl⟩ := hn
    exact List.mem_range.mpr (nameEntries_code_lt order names hent)
  have hle := (List.subperm_of_subset hnodup hsub).length_le
  rwa [List.length_map, List.length_map, List.length_range] at hle

/-- An entry holds the 32-bit ids of the names that emit its code. -/
lemma nameEntries_symbols {ent : TrigramEntry} (h : ent ∈ nameEntries order names) :
    ent.symbols = sortUnique ((emittingPositions names ent.code).map UInt32.ofNat) := by
  obtain ⟨e, he, rfl⟩ := List.mem_map.mp h
  have hget := ((nameBuilder names).trigramToSymbols.mem_entries_iff e.1 e.2).mp
    ((order.perm _).mem_iff.mp he)
  have hd := nameBuilder_history names e.1
  rw [hget, Option.getD_some] at hd
  exact congrArg sortUnique hd

lemma nameEntries_of_position {i : Nat} {name : Bytes} (hname : names[i]? = some name)
    {code : TrigramCode} (hcode : code ∈ forEachTrigram name) :
    ∃ ent ∈ nameEntries order names, ent.code = code ∧ UInt32.ofNat i ∈ ent.symbols := by
  have hpos : i ∈ emittingPositions names code :=
    (mem_emittingPositions names code i).mpr ⟨name, hname, hcode⟩
  have hkey := (nameBuilder_key_iff names code).mpr (List.ne_nil_of_mem hpos)
  obtain ⟨ent, hent, rfl⟩ := List.mem_map.mp ((nameEntries_codes order names).mem_iff.mpr hkey)
  refine ⟨ent, hent, rfl, ?_⟩
  rw [nameEntries_symbols order names hent, mem_sortUnique]
  exact List.mem_map_of_mem hpos

lemma length_le_one_of_equal {l : List Nat} (nodup : l.Nodup)
    (equal : ∀ i ∈ l, ∀ j ∈ l, i = j) : l.length ≤ 1 := by
  rcases l with _ | ⟨a, _ | ⟨b, rest⟩⟩
  · simp
  · simp
  · have hab : a = b := equal a (by simp) b (by simp)
    simp [hab] at nodup

omit order in
lemma at_most_one_empty {names : List Bytes} (distinct : names.Nodup) {n : Nat}
    (hn : n ≤ names.length) :
    ((List.range n).filter (fun i => names[i]? = some [])).length ≤ 1 := by
  apply length_le_one_of_equal (List.nodup_range.filter _)
  intro i hi j hj
  have hi' := List.mem_filter.mp hi
  have hj' := List.mem_filter.mp hj
  have hlt : i < names.length := by have := List.mem_range.mp hi'.1; omega
  apply (List.getElem?_inj hlt distinct).mp
  rw [of_decide_eq_true hi'.2, of_decide_eq_true hj'.2]

lemma ofNat_inj_of_lt {i j : Nat} (hi : i < 2 ^ 32) (hj : j < 2 ^ 32)
    (h : UInt32.ofNat i = UInt32.ofNat j) : i = j := by
  have := congrArg UInt32.toNat h
  rwa [UInt32.toNat_ofNat', UInt32.toNat_ofNat', Nat.mod_eq_of_lt hi,
    Nat.mod_eq_of_lt hj] at this

/-- Every non-empty name leaves its id in the postings. -/
lemma nonempty_names_le_postings {n : Nat} (hn : n ≤ names.length) (hword : n ≤ 2 ^ 32) :
    ((List.range n).filter (fun i => !decide (names[i]? = some []))).length ≤
      ((nameEntries order names).flatMap TrigramEntry.symbols).length := by
  have lt_of_mem : ∀ {i},
      i ∈ (List.range n).filter (fun i => !decide (names[i]? = some [])) → i < n :=
    fun h => List.mem_range.mp (List.mem_of_mem_filter h)
  have hnodup : (((List.range n).filter (fun i => !decide (names[i]? = some []))).map
      UInt32.ofNat).Nodup := by
    apply List.Nodup.map_on ?_ (List.nodup_range.filter _)
    intro i hi j hj heq
    exact ofNat_inj_of_lt (by have := lt_of_mem hi; omega) (by have := lt_of_mem hj; omega) heq
  have hsub : ((List.range n).filter (fun i => !decide (names[i]? = some []))).map UInt32.ofNat ⊆
      (nameEntries order names).flatMap TrigramEntry.symbols := by
    intro id hid
    obtain ⟨i, hi, rfl⟩ := List.mem_map.mp hid
    have hlt : i < names.length := by have := lt_of_mem hi; omega
    have hget : names[i]? = some names[i] := List.getElem?_eq_getElem hlt
    have hne : names[i] ≠ [] := by
      intro hnil
      have hkept := (List.mem_filter.mp hi).2
      simp [hget, hnil] at hkept
    obtain ⟨code, hcode⟩ := List.exists_mem_of_ne_nil _ (forEachTrigram_ne_nil hne)
    obtain ⟨ent, hent, _, hmem⟩ := nameEntries_of_position order names hget hcode
    exact List.mem_flatMap.mpr ⟨ent, hent, hmem⟩
  have hle := (List.subperm_of_subset hnodup hsub).length_le
  rwa [List.length_map] at hle

/-- Postings of less than 2^32 bytes leave the 32-bit ids without wrap-around. -/
theorem ids_fit (distinct : names.Nodup)
    (fits : 4 * ((nameEntries order names).flatMap TrigramEntry.symbols).length < 2 ^ 32) :
    names.length ≤ 2 ^ 32 := by
  by_contra hmany
  have hempty := at_most_one_empty distinct (n := 2 ^ 32) (by omega)
  have hrest := nonempty_names_le_postings order names (n := 2 ^ 32) (by omega) (by omega)
  have hsplit := List.length_eq_length_filter_add (l := List.range (2 ^ 32))
    (fun i => decide (names[i]? = some []))
  rw [List.length_range] at hsplit
  omega

omit order in
/-- Without wrap-around the 32-bit ids are the positions, already in order. -/
lemma sortUnique_ofNat {names : List Bytes} (hword : names.length ≤ 2 ^ 32)
    (code : TrigramCode) :
    (sortUnique ((emittingPositions names code).map UInt32.ofNat)).map UInt32.toNat =
      emittingPositions names code := by
  have small : ∀ i ∈ emittingPositions names code, (UInt32.ofNat i).toNat = i := by
    intro i hi
    obtain ⟨name, hname, _⟩ := (mem_emittingPositions names code i).mp hi
    have hlt : i < names.length := (List.getElem?_eq_some_iff.mp hname).1
    rw [UInt32.toNat_ofNat']
    exact Nat.mod_eq_of_lt (by omega)
  have strict : ((emittingPositions names code).map UInt32.ofNat).Pairwise (· < ·) := by
    rw [List.pairwise_map]
    apply (emittingPositions_strict names code).imp_of_mem
    intro i j hi hj hlt
    rw [UInt32.lt_iff_toNat_lt, small i hi, small j hj]
    exact hlt
  rw [sortUnique_of_strict strict, List.map_map]
  exact (List.map_congr_left small).trans (List.map_id _)

end Postings

section Exactness

/-- What a lookup returns for every code, once the tables are built. -/
def AnswersExactly (fuel : Nat) (slotsBuf postingsBuf : Bytes) (capacity : UInt32)
    (names : List Bytes) : Prop :=
  ∀ code, ∃ ids, lookupIds fuel slotsBuf postingsBuf capacity code = .ok ids ∧
    ids.Pairwise (· < ·) ∧ ids.map UInt32.toNat = emittingPositions names code

/-- The builder's value, given its capacity and the table its loop ends in. -/
lemma buildTrigramTables_eq {order : IterationOrder (TrigramCode × List UInt32)}
    {names : List Bytes} {capacity : UInt64} {table : List TrigramSlot × List UInt32}
    (hcap : trigramCapacityForCount (UInt64.ofNat (nameEntries order names).length)
      LoadFactor.default = .ok capacity)
    (hfold : (nameEntries order names).foldlM
      (insertEntry capacity (UInt32.ofNat (countrZero 64 capacity.toNat)))
      (List.replicate capacity.toNat emptySlot, []) = .ok table) :
    buildTrigramTables order names = .ok
      { slots := table.1
        postings := table.2
        capacity
        totalPostingsCount := (nameEntries order names).foldl
          (fun n e => n + UInt64.ofNat e.symbols.length) 0
        symbolsCount := (nameBuilder names).symbolCount
        trigramsCount := UInt64.ofNat (nameBuilder names).uniqueTrigramCount } := by
  rw [nameEntries] at hcap hfold
  rw [buildTrigramTables, hcap]
  change ((trigramEntries order (nameBuilder names).trigramToSymbols).foldlM
    (insertEntry capacity (UInt32.ofNat (countrZero 64 capacity.toNat)))
    (List.replicate capacity.toNat emptySlot, []) >>= _) = _
  rw [hfold]
  rfl

/-- The postings counter of the builder. -/
lemma foldl_counts (entries : List TrigramEntry) (start : UInt64) :
    entries.foldl (fun n e => n + UInt64.ofNat e.symbols.length) start =
      start + UInt64.ofNat (entries.flatMap TrigramEntry.symbols).length := by
  induction entries generalizing start with
  | nil => simp
  | cons e rest ih =>
    rw [List.foldl_cons, ih, List.flatMap_cons, List.length_append, UInt64.ofNat_add,
      UInt64.add_assoc]

theorem build_filled (order : IterationOrder (TrigramCode × List UInt32)) (names : List Bytes) :
    ∃ k t, 4 ≤ k ∧ k ≤ 25 ∧ buildTrigramTables order names = .ok t ∧
      t.capacity = UInt64.ofNat (2 ^ k) ∧ (nameEntries order names).length < 2 ^ k ∧
      t.totalPostingsCount = UInt64.ofNat t.postings.length ∧
      Filled k (nameEntries order names) (t.slots, t.postings) := by
  have hlen := nameEntries_length order names
  have hcount : (UInt64.ofNat (nameEntries order names).length).toNat =
      (nameEntries order names).length := by
    rw [UInt64.toNat_ofNat']
    exact Nat.mod_eq_of_lt (by omega)
  obtain ⟨k, hlo, hhi, hload, hcap⟩ :=
    capacity_spec (UInt64.ofNat (nameEntries order names).length) (by omega)
  rw [hcount] at hload
  have hpos : 0 < 2 ^ k := Nat.two_pow_pos k
  have codes : ∀ ent ∈ nameEntries order names, ent.code ≠ trigramEmptySlot := by
    intro ent hent heq
    have := nameEntries_code_lt order names hent
    rw [heq] at this
    exact absurd this (by decide)
  obtain ⟨table, hfold, hfilled⟩ := insertEntries_filled hlo hhi (nameEntries order names) []
    (filled_empty k) (by simp only [List.length_nil]; omega) codes
    (nameEntries_nodup order names)
  have hbits : countrZero 64 (UInt64.ofNat (2 ^ k)).toNat = k := by
    rw [toNat_two_pow (by omega), countrZero_two_pow (by omega)]
  have hfold' : (nameEntries order names).foldlM
      (insertEntry (UInt64.ofNat (2 ^ k))
        (UInt32.ofNat (countrZero 64 (UInt64.ofNat (2 ^ k)).toNat)))
      (List.replicate (UInt64.ofNat (2 ^ k)).toNat emptySlot, []) = .ok table := by
    rw [hbits, toNat_two_pow (by omega)]
    exact hfold
  have hbuild := buildTrigramTables_eq hcap hfold'
  refine ⟨k, _, hlo, hhi, hbuild, rfl, by omega, ?_, hfilled⟩
  rw [foldl_counts, UInt64.zero_add, hfilled.postings]
  rfl

/-- The 32-bit size of the posting array, as it is handed to the compressor. -/
lemma postings_size {order : IterationOrder (TrigramCode × List UInt32)} {names : List Bytes}
    {t : TrigramTables} (hbuild : buildTrigramTables order names = .ok t) :
    UInt32.ofNat (t.totalPostingsCount * 4).toNat =
      UInt32.ofNat (Codec.u32.encodeAll t.postings).length := by
  obtain ⟨k, t', _, _, ht', _, _, hcount, _⟩ := build_filled order names
  cases hbuild.symm.trans ht'
  apply UInt32.toNat_inj.mp
  rw [hcount, Codec.encodeAll_length, Codec.u32_width, UInt64.toNat_mul, UInt64.toNat_ofNat',
    UInt32.toNat_ofNat', UInt32.toNat_ofNat']
  simp only [UInt64.reduceToNat]
  omega

/-- Built tables whose postings fit answer every code with the positions that emit it. -/
lemma built_answers {order : IterationOrder (TrigramCode × List UInt32)} {names : List Bytes}
    (distinct : names.Nodup) {t : TrigramTables} (hbuild : buildTrigramTables order names = .ok t)
    (fits : 4 * t.postings.length < 2 ^ 32) {fuel : Nat} (enough : t.capacity.toNat ≤ fuel) :
    AnswersExactly fuel (trigramSlotCodec.encodeAll t.slots)
      (Codec.u32.encodeAll t.postings) (UInt32.ofNat t.capacity.toNat) names := by
  obtain ⟨k, t', hlo, hhi, hbuild', hcap, room, _, filled⟩ := build_filled order names
  obtain rfl : t = t' := Except.ok.inj (hbuild.symm.trans hbuild')
  intro code
  rw [hcap, toNat_two_pow (by omega)] at enough
  rw [hcap]
  by_cases hcode : code ∈ (nameEntries order names).map TrigramEntry.code
  · obtain ⟨ent, hent, rfl⟩ := List.mem_map.mp hcode
    refine ⟨ent.symbols, lookup_present hlo hhi filled fits hent
      (nameEntries_nodup order names) enough, ?_, ?_⟩
    · rw [nameEntries_symbols order names hent]
      exact sortUnique_strict _
    · have hpost : t.postings = (nameEntries order names).flatMap TrigramEntry.symbols :=
        filled.postings
      rw [hpost] at fits
      rw [nameEntries_symbols order names hent]
      exact sortUnique_ofNat (ids_fit order names distinct fits) ent.code
  · refine ⟨[], lookup_absent hlo hhi filled room hcode enough _, List.Pairwise.nil, ?_⟩
    have hkey := mt (nameEntries_codes order names).mem_iff.mpr hcode
    rw [nameBuilder_key_iff, not_not] at hkey
    rw [hkey]
    rfl

/-- The tables of distinct names answer every code with the positions that emit it. -/
theorem trigram_index_exact (order : IterationOrder (TrigramCode × List UInt32))
    (names : List Bytes) (distinct : names.Nodup) :
    ∃ t, buildTrigramTables order names = .ok t ∧
      (4 * t.postings.length < 2 ^ 32 → ∀ fuel, t.capacity.toNat ≤ fuel →
        AnswersExactly fuel (trigramSlotCodec.encodeAll t.slots)
          (Codec.u32.encodeAll t.postings) (UInt32.ofNat t.capacity.toNat) names) := by
  obtain ⟨k, t, _, _, hbuild, _⟩ := build_filled order names
  refine ⟨t, hbuild, ?_⟩
  intro fits fuel enough
  exact built_answers distinct hbuild fits enough

/-- Names with repeated trigrams, a case variant and one without any word. -/
def sampleNames : List Bytes :=
  [SymbolData.text "aaaa", SymbolData.text "AAA", [], SymbolData.text "memcpy"]

theorem trigram_index_exact_sample :
    ∃ t, buildTrigramTables (IterationOrder.insertion _) sampleNames = .ok t ∧
      AnswersExactly 32 (trigramSlotCodec.encodeAll t.slots) (Codec.u32.encodeAll t.postings)
        (UInt32.ofNat t.capacity.toNat) sampleNames := by
  obtain ⟨t, hbuild, exact_for⟩ :=
    trigram_index_exact (IterationOrder.insertion _) sampleNames (by decide)
  have hsize : (buildTrigramTables (IterationOrder.insertion _) sampleNames).toOption.map
      (fun t => (t.postings.length, t.capacity)) = some (18, 32) := by decide +kernel
  rw [hbuild] at hsize
  obtain ⟨hpostings, hcapacity⟩ := Prod.mk.inj (Option.some.inj hsize)
  exact ⟨t, hbuild, exact_for (by rw [hpostings]; decide) 32 (by rw [hcapacity]; decide)⟩

end Exactness
end TrigramExact
