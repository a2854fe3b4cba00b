import SymFind.Database.DatabaseBlocks
import SymFind.Database.TrigramExact
import SymFind.Lib.Outcome

/-!
# Numbers that outgrow 32 bits

Offsets, lengths and sizes of blocks are computed in full and stored, or handed
to the compressor, in 32 bits. No builder compares them with that bound, so a
builder fails on a large input only when the compressor does.
-/
namespace BlockOverflow
open RecordCodec Outcome Machine SymbolData TrigramCodes DatabaseLayout TrigramTable TrigramExact
open PathCache Compression DatabaseBlocks

section Numbers

/-- The stored offset and length of each part beside the numbers computed for it. -/
inductive Located {ε : Type} (c : Codec ε) (block : Bytes) (offset length : ε → UInt32)
    (parts : List Bytes) : UInt32 → Nat → Prop where
  | offset {i : Nat} {entry : ε} (h : i < parts.length) (stored : c.entryAt block i = some entry) :
      Located c block offset length parts (offset entry) (offsetOf parts i)
  | length {i : Nat} {entry : ε} (h : i < parts.length) (stored : c.entryAt block i = some entry) :
      Located c block offset length parts (length entry) parts[i].length

/-- The size that `compress` gets for a block beside the length of the block. -/
def Handed (block : Bytes) (stored : UInt32) (computed : Nat) : Prop :=
  stored = UInt32.ofNat block.length ∧ computed = block.length

def FileTableNumber (foundFiles : List FileInfo) (stored : UInt32) (computed : Nat) : Prop :=
  let p := filePass foundFiles
  Located fileTableCodec p.fileIndexBlock FileTable.nameOffset FileTable.nameLength
      (foundFiles.map FileInfo.name) stored computed ∨
    Handed p.fileIndexBlock stored computed ∨ Handed p.fileNamesBlob stored computed

def PathTableNumber (pathList : List Bytes) (stored : UInt32) (computed : Nat) : Prop :=
  let p := pathPass pathList
  Located pathIndexCodec p.pathIndexBlock PathIndex.nameOffset PathIndex.nameLength pathList
      stored computed ∨
    Handed p.pathIndexBlock stored computed ∨ Handed p.pathNamesBlob stored computed

def SymbolIndexNumber (symtable : HashMap) (stored : UInt32) (computed : Nat) : Prop :=
  let p := symbolPass symtable
  Located symbolIndexCodec p.symIndexBlock SymbolIndex.nameOffset SymbolIndex.nameLength
      (symtable.entries.map Prod.fst) stored computed ∨
    Located symbolIndexCodec p.symIndexBlock SymbolIndex.metadataOffset SymbolIndex.metadataLength
      (symtable.entries.map refsBytes) stored computed ∨
    Handed p.symIndexBlock stored computed ∨ Handed p.symNamesBlob stored computed ∨
    Handed p.symMetadataBlob stored computed

/-- Postings are counted, so an offset is a number of postings; the size of the posting array
is a 32-bit product. -/
inductive TrigramIndexNumber (order : IterationOrder (TrigramCode × List UInt32))
    (symtable : HashMap) : UInt32 → Nat → Prop where
  | postingOffset {t : TrigramTables} {slot : TrigramSlot} {i : Nat} {ent : TrigramEntry}
      (built : buildTrigramTables order symtable.keys = .ok t) (stored : slot ∈ t.slots)
      (entry : (nameEntries order symtable.keys)[i]? = some ent)
      (code : slot.trigramCode = ent.code) :
      TrigramIndexNumber order symtable slot.postingOffset
        (((nameEntries order symtable.keys).take i).flatMap TrigramEntry.symbols).length
  | postingCount {t : TrigramTables} {slot : TrigramSlot} {ent : TrigramEntry}
      (built : buildTrigramTables order symtable.keys = .ok t) (stored : slot ∈ t.slots)
      (entry : ent ∈ nameEntries order symtable.keys) (code : slot.trigramCode = ent.code) :
      TrigramIndexNumber order symtable slot.postingCount ent.symbols.length
  | index {t : TrigramTables} (built : buildTrigramTables order symtable.keys = .ok t)
      {stored : UInt32} {computed : Nat}
      (handed : Handed (trigramSlotCodec.encodeAll t.slots) stored computed) :
      TrigramIndexNumber order symtable stored computed
  | postings {t : TrigramTables} (built : buildTrigramTables order symtable.keys = .ok t) :
      TrigramIndexNumber order symtable (UInt32.ofNat (t.totalPostingsCount * 4).toNat)
        (4 * t.postings.length)

/-- A builder whose numbers outgrow 32 bits returns no value, and what is stored in or
compressed for a value is what was computed. -/
structure NoSilentTruncation {ρ : Type} (Number : UInt32 → Nat → Prop)
    (outcome : Except Bytes ρ) : Prop where
  nullopt : (∃ stored computed, Number stored computed ∧ 2 ^ 32 ≤ computed) →
    Fails outcome
  exact : ∀ r, outcome = .ok r → ∀ stored computed, Number stored computed →
    stored.toNat = computed

/-- Every number fits into 32 bits. -/
def Within32 (Number : UInt32 → Nat → Prop) : Prop :=
  ∀ stored computed, Number stored computed → computed < 2 ^ 32

/-- The compressor reports an error for what it gets of a block. -/
def Refuses (z : Zstd) (cdict : Option z.CDict) (block : Bytes) : Prop :=
  Fails (compress z block block.length cdict)

/-- Where every number is reduced without a check, only a refused block is ever reported. -/
lemma noSilentTruncation_iff {ρ : Type} {Number : UInt32 → Nat → Prop} {outcome : Except Bytes ρ}
    {refused : Prop} (reduced : ∀ stored computed, Number stored computed →
      stored = UInt32.ofNat computed)
    (fails : Fails outcome ↔ refused) :
    NoSilentTruncation Number outcome ↔ Within32 Number ∨ refused := by
  constructor
  · intro reports
    by_cases hsmall : Within32 Number
    · exact Or.inl hsmall
    · simp only [Within32, not_forall, not_lt] at hsmall
      obtain ⟨stored, computed, hnumber, hlarge⟩ := hsmall
      exact Or.inr (fails.mp (reports.nullopt ⟨stored, computed, hnumber, hlarge⟩))
  · rintro (hsmall | hrefused)
    · constructor
      · rintro ⟨stored, computed, hnumber, hlarge⟩
        exact absurd (hsmall stored computed hnumber) (Nat.not_lt.mpr hlarge)
      · intro _ _ stored computed hnumber
        rw [reduced stored computed hnumber, UInt32.toNat_ofNat',
          Nat.mod_eq_of_lt (hsmall stored computed hnumber)]
    · obtain ⟨errorName, herror⟩ := fails.mpr hrefused
      constructor
      · intro _
        exact ⟨errorName, herror⟩
      · intro r hr
        cases herror.symm.trans hr

lemma Located.reduced {ε : Type} {c : Codec ε} {offset length : ε → UInt32} {parts : List Bytes}
    {entries : List ε} (same : entries.length = parts.length)
    (hoffset : ∀ (i : Nat) (h : i < entries.length),
      offset entries[i] = UInt32.ofNat (offsetOf parts i))
    (hlength : ∀ (i : Nat) (h : i < entries.length) (h' : i < parts.length),
      length entries[i] = UInt32.ofNat parts[i].length)
    {stored : UInt32} {computed : Nat}
    (located : Located c (c.encodeAll entries) offset length parts stored computed) :
    stored = UInt32.ofNat computed := by
  cases located with
  | @offset i entry h hentry =>
    have hi : i < entries.length := same ▸ h
    obtain rfl : entries[i] = entry :=
      Option.some.inj ((c.entryAt_encodeAll entries hi).symm.trans hentry)
    exact hoffset i hi
  | @length i entry h hentry =>
    have hi : i < entries.length := same ▸ h
    obtain rfl : entries[i] = entry :=
      Option.some.inj ((c.entryAt_encodeAll entries hi).symm.trans hentry)
    exact hlength i hi h

/-- No located number exceeds the length of all parts together. -/
lemma Located.le_flatten {ε : Type} {c : Codec ε} {block : Bytes} {offset length : ε → UInt32}
    {parts : List Bytes} {stored : UInt32} {computed : Nat}
    (located : Located c block offset length parts stored computed) :
    computed ≤ parts.flatten.length := by
  cases located with
  | @offset i _ h _ => exact offsetOf_le parts i
  | @length i _ h _ => exact (List.sublist_flatten_of_mem (List.getElem_mem h)).length_le

lemma Located.within32 {ε : Type} {c : Codec ε} {block : Bytes} {offset length : ε → UInt32}
    {parts : List Bytes} (h : parts.flatten.length < 2 ^ 32) :
    Within32 (Located c block offset length parts) :=
  fun _ _ located => located.le_flatten.trans_lt h

lemma within32_handed (block : Bytes) : Within32 (Handed block) ↔ block.length < 2 ^ 32 := by
  constructor
  · intro hall
    exact hall _ _ ⟨rfl, rfl⟩
  · rintro hlen _ _ ⟨_, rfl⟩
    exact hlen

lemma within32_or {P Q : UInt32 → Nat → Prop} :
    Within32 (fun stored computed => P stored computed ∨ Q stored computed) ↔
      Within32 P ∧ Within32 Q := by
  simp only [Within32, or_imp, forall_and]

lemma Handed.reduced {block : Bytes} {stored : UInt32} {computed : Nat}
    (handed : Handed block stored computed) : stored = UInt32.ofNat computed :=
  handed.1.trans (congrArg UInt32.ofNat handed.2.symm)

end Numbers

section Builders

variable {z : Zstd} {stored : UInt32} {computed : Nat}

lemma fileTableNumber_reduced {foundFiles : List FileInfo}
    (number : FileTableNumber foundFiles stored computed) : stored = UInt32.ofNat computed := by
  rcases number with located | handed | handed
  · rw [filePass_eq] at located
    have hentries : (fileEntries foundFiles).length = foundFiles.length := locate_length _ _ _ _
    apply located.reduced (by simp [hentries])
    · intro i h
      rw [fileEntries_getElem foundFiles (hentries ▸ h) h]
      rfl
    · intro i h _
      rw [fileEntries_getElem foundFiles (hentries ▸ h) h, List.getElem_map]
      rfl
  · exact handed.reduced
  · exact handed.reduced

lemma pathTableNumber_reduced {pathList : List Bytes}
    (number : PathTableNumber pathList stored computed) : stored = UInt32.ofNat computed := by
  rcases number with located | handed | handed
  · rw [pathPass_eq] at located
    have hentries : (pathEntries pathList).length = pathList.length := locate_length _ _ _ _
    apply located.reduced hentries
    · intro i h
      rw [pathEntries_getElem pathList (hentries ▸ h) h]
      rfl
    · intro i h _
      rw [pathEntries_getElem pathList (hentries ▸ h) h]
      rfl
  · exact handed.reduced
  · exact handed.reduced

lemma symbolIndexNumber_reduced {symtable : HashMap}
    (number : SymbolIndexNumber symtable stored computed) : stored = UInt32.ofNat computed := by
  have hentries : (symbolEntries symtable.entries).length = symtable.entries.length :=
    locate_length _ _ _ _
  rcases number with located | located | handed | handed | handed
  · rw [symbolPass_eq] at located
    apply located.reduced (by simp [hentries])
    · intro i h
      rw [symbolEntries_getElem symtable.entries (hentries ▸ h) h]
      rfl
    · intro i h _
      rw [symbolEntries_getElem symtable.entries (hentries ▸ h) h, List.getElem_map]
      rfl
  · rw [symbolPass_eq] at located
    apply located.reduced (by simp [hentries])
    · intro i h
      rw [symbolEntries_getElem symtable.entries (hentries ▸ h) h]
      rfl
    · intro i h _
      rw [symbolEntries_getElem symtable.entries (hentries ▸ h) h, List.getElem_map]
      rfl
  · exact handed.reduced
  · exact handed.reduced
  · exact handed.reduced

/-- The slot of a code was written when the postings of the earlier entries were laid out. -/
lemma slot_written {order : IterationOrder (TrigramCode × List UInt32)} {names : List Bytes}
    {t : TrigramTables} (built : buildTrigramTables order names = .ok t) {slot : TrigramSlot}
    (held : slot ∈ t.slots) {i : Nat} {ent : TrigramEntry}
    (entry : (nameEntries order names)[i]? = some ent) (code : slot.trigramCode = ent.code) :
    slot = slotFor ((nameEntries order names).take i) ent := by
  obtain ⟨k, t', _, _, ht', _, _, _, filled⟩ := build_filled order names
  cases built.symm.trans ht'
  obtain ⟨hi, rfl⟩ := List.getElem?_eq_some_iff.mp entry
  have hsmall := nameEntries_code_lt order names (List.getElem_mem hi)
  have hkey : slotKey slot = some slot.trigramCode := by
    apply if_neg
    intro hempty
    rw [← code, hempty] at hsmall
    exact absurd hsmall (by decide)
  obtain ⟨pre, ent', post, hsplit, hslot⟩ := filled.held slot held _ hkey
  have hcode : (nameEntries order names)[pre.length]? = some ent' := by simp [hsplit]
  obtain ⟨hpre, hent'⟩ := List.getElem?_eq_some_iff.mp hcode
  -- the codes of the entries are distinct, so the slot belongs to this entry
  have hsame : ((nameEntries order names).map TrigramEntry.code)[i]? =
      ((nameEntries order names).map TrigramEntry.code)[pre.length]? := by
    rw [List.getElem?_map, List.getElem?_map, entry, hcode, Option.map_some, Option.map_some,
      ← code, hslot]
    rfl
  obtain rfl : i = pre.length :=
    (List.getElem?_inj (by simpa using hi) (nameEntries_nodup order names)).mp hsame
  have htake : (nameEntries order names).take pre.length = pre := by simp [hsplit]
  rw [htake, hent']
  exact hslot

lemma trigramIndexNumber_reduced {order : IterationOrder (TrigramCode × List UInt32)}
    {symtable : HashMap} (number : TrigramIndexNumber order symtable stored computed) :
    stored = UInt32.ofNat computed := by
  cases number with
  | postingOffset built held entry code => rw [slot_written built held entry code]; rfl
  | postingCount built held entry code =>
    obtain ⟨i, hi⟩ := List.mem_iff_getElem?.mp entry
    rw [slot_written built held hi code]
    rfl
  | index _ handed => exact handed.reduced
  | postings built =>
    rw [postings_size built, Codec.encodeAll_length, Codec.u32_width, Nat.mul_comm]

lemma within32_fileTable (foundFiles : List FileInfo) :
    Within32 (FileTableNumber foundFiles) ↔ 12 * foundFiles.length < 2 ^ 32 ∧
      (foundFiles.map FileInfo.name).flatten.length < 2 ^ 32 := by
  have hindex : (filePass foundFiles).fileIndexBlock.length = 12 * foundFiles.length := by
    rw [filePass_eq]
    simp [fileEntries, Nat.mul_comm]
  have hnames : (filePass foundFiles).fileNamesBlob = (foundFiles.map FileInfo.name).flatten := by
    rw [filePass_eq]
  unfold FileTableNumber
  simp only [within32_or, within32_handed, hindex, hnames]
  exact and_iff_right_of_imp fun h => Located.within32 h.2

lemma within32_pathTable (pathList : List Bytes) :
    Within32 (PathTableNumber pathList) ↔ 8 * pathList.length < 2 ^ 32 ∧
      pathList.flatten.length < 2 ^ 32 := by
  have hindex : (pathPass pathList).pathIndexBlock.length = 8 * pathList.length := by
    rw [pathPass_eq]
    simp [pathEntries, Nat.mul_comm]
  have hnames : (pathPass pathList).pathNamesBlob = pathList.flatten := by
    rw [pathPass_eq]
  unfold PathTableNumber
  simp only [within32_or, within32_handed, hindex, hnames]
  exact and_iff_right_of_imp fun h => Located.within32 h.2

lemma within32_symbolIndex (symtable : HashMap) :
    Within32 (SymbolIndexNumber symtable) ↔ 16 * symtable.entries.length < 2 ^ 32 ∧
      (symtable.entries.map Prod.fst).flatten.length < 2 ^ 32 ∧
      (symtable.entries.map refsBytes).flatten.length < 2 ^ 32 := by
  have hindex : (symbolPass symtable).symIndexBlock.length = 16 * symtable.entries.length := by
    rw [symbolPass_eq]
    simp [symbolEntries, Nat.mul_comm]
  have hnames : (symbolPass symtable).symNamesBlob =
      (symtable.entries.map Prod.fst).flatten := by
    rw [symbolPass_eq]
  have hmetadata : (symbolPass symtable).symMetadataBlob =
      (symtable.entries.map refsBytes).flatten := by
    rw [symbolPass_eq]
  unfold SymbolIndexNumber
  simp only [within32_or, within32_handed, hindex, hnames, hmetadata]
  constructor
  · rintro ⟨_, _, hlengths⟩
    exact hlengths
  · intro hlengths
    exact ⟨Located.within32 hlengths.2.1, Located.within32 hlengths.2.2, hlengths⟩

/-- The table has at most 2^25 slots, so only the postings can outgrow the bound. -/
lemma within32_trigramIndex {order : IterationOrder (TrigramCode × List UInt32)}
    {symtable : HashMap} {t : TrigramTables}
    (built : buildTrigramTables order symtable.keys = .ok t) :
    Within32 (TrigramIndexNumber order symtable) ↔ 4 * t.postings.length < 2 ^ 32 := by
  obtain ⟨k, t', _, hk, ht', _, _, _, filled⟩ := build_filled order symtable.keys
  cases built.symm.trans ht'
  have hposts : t.postings = (nameEntries order symtable.keys).flatMap TrigramEntry.symbols :=
    filled.postings
  constructor
  · intro hall
    exact hall _ _ (.postings built)
  · intro hp stored computed number
    cases number with
    | @postingOffset _ slot i ent _ _ entry _ =>
      have hsplit := List.take_append_drop i (nameEntries order symtable.keys)
      rw [hposts, ← hsplit, List.flatMap_append, List.length_append] at hp
      omega
    | @postingCount _ slot ent _ _ entry _ =>
      have hle := (List.sublist_flatten_of_mem (List.mem_map_of_mem
        (f := TrigramEntry.symbols) entry)).length_le
      rw [hposts, List.flatMap_def] at hp
      omega
    | @index t'' built' _ _ handed =>
      cases built.symm.trans built'
      have hpow : 2 ^ k ≤ 2 ^ 25 := Nat.pow_le_pow_right (by decide) hk
      have hsize : t.slots.length = 2 ^ k := filled.size
      rw [handed.2, Codec.encodeAll_length, trigramSlotCodec_width, hsize]
      omega
    | @postings t'' built' =>
      cases built.symm.trans built'
      exact hp

lemma buildFileTable_fails (foundFiles : List FileInfo) (compOpts : Option z.CDict) :
    Fails (buildFileTable z foundFiles compOpts) ↔
      Refuses z none (fileTableCodec.encodeAll (fileEntries foundFiles)) ∨
        Refuses z compOpts (foundFiles.map FileInfo.name).flatten := by
  rw [buildFileTable, filePass_eq]
  exact then_fails fun _ => last_fails

lemma buildPathTable_fails (pathList : List Bytes) (compOpts : Option z.CDict) :
    Fails (buildPathTable z pathList compOpts) ↔
      Refuses z none (pathIndexCodec.encodeAll (pathEntries pathList)) ∨
        Refuses z compOpts pathList.flatten := by
  rw [buildPathTable, pathPass_eq]
  exact then_fails fun _ => last_fails

lemma buildSymbolIndex_fails (symtable : HashMap) (compOpts : Option z.CDict) :
    Fails (buildSymbolIndex z symtable compOpts) ↔
      Refuses z none (symbolIndexCodec.encodeAll (symbolEntries symtable.entries)) ∨
        Refuses z compOpts (symtable.entries.map Prod.fst).flatten ∨
          Refuses z none (symtable.entries.map refsBytes).flatten := by
  rw [buildSymbolIndex, symbolPass_eq]
  exact then_fails fun _ => then_fails fun _ => last_fails

/-- The trigram builder never faults; it fails with the compressor. -/
lemma buildTrigramIndex_fails (order : IterationOrder (TrigramCode × List UInt32))
    (symtable : HashMap) :
    ∃ t outcome, buildTrigramTables order symtable.keys = .ok t ∧
      buildTrigramIndex z order symtable = .ok outcome ∧
      (Fails outcome ↔
        Refuses z none (trigramSlotCodec.encodeAll t.slots) ∨
          Refuses z none (Codec.u32.encodeAll t.postings)) := by
  obtain ⟨k, t, _, _, ht, _⟩ := build_filled order symtable.keys
  refine ⟨t, _, ht, congrArg (· >>= _) ht, ?_⟩
  have hsize : ∀ block, compress z block (UInt32.ofNat (t.totalPostingsCount * 4).toNat).toNat
      none = compress z block (Codec.u32.encodeAll t.postings).length none := by
    intro block
    rw [postings_size ht, compress, compress, UInt32.ofNat_toNat]
  simp only [hsize]
  exact then_fails fun _ => last_fails

/-- A builder keeps silent about numbers of 2^32 and more unless the compressor refuses a
block. Its largest numbers are the lengths of its blocks. -/
theorem truncation_reported_iff (z : Zstd) (order : IterationOrder (TrigramCode × List UInt32))
    (foundFiles : List FileInfo) (pathList : List Bytes) (symtable : HashMap)
    (compOpts : Option z.CDict) :
    (NoSilentTruncation (FileTableNumber foundFiles) (buildFileTable z foundFiles compOpts) ↔
      (12 * foundFiles.length < 2 ^ 32 ∧ (foundFiles.map FileInfo.name).flatten.length < 2 ^ 32) ∨
        Refuses z none (fileTableCodec.encodeAll (fileEntries foundFiles)) ∨
        Refuses z compOpts (foundFiles.map FileInfo.name).flatten) ∧
    (NoSilentTruncation (PathTableNumber pathList) (buildPathTable z pathList compOpts) ↔
      (8 * pathList.length < 2 ^ 32 ∧ pathList.flatten.length < 2 ^ 32) ∨
        Refuses z none (pathIndexCodec.encodeAll (pathEntries pathList)) ∨
        Refuses z compOpts pathList.flatten) ∧
    (NoSilentTruncation (SymbolIndexNumber symtable) (buildSymbolIndex z symtable compOpts) ↔
      (16 * symtable.entries.length < 2 ^ 32 ∧
          (symtable.entries.map Prod.fst).flatten.length < 2 ^ 32 ∧
          (symtable.entries.map refsBytes).flatten.length < 2 ^ 32) ∨
        Refuses z none (symbolIndexCodec.encodeAll (symbolEntries symtable.entries)) ∨
        Refuses z compOpts (symtable.entries.map Prod.fst).flatten ∨
        Refuses z none (symtable.entries.map refsBytes).flatten) ∧
    ∃ t outcome, buildTrigramTables order symtable.keys = .ok t ∧
      buildTrigramIndex z order symtable = .ok outcome ∧
      (NoSilentTruncation (TrigramIndexNumber order symtable) outcome ↔
        4 * t.postings.length < 2 ^ 32 ∨
          Refuses z none (trigramSlotCodec.encodeAll t.slots) ∨
          Refuses z none (Codec.u32.encodeAll t.postings)) := by
  refine ⟨?_, ?_, ?_, ?_⟩
  · rw [← within32_fileTable]
    exact noSilentTruncation_iff (fun _ _ => fileTableNumber_reduced)
      (buildFileTable_fails foundFiles compOpts)
  · rw [← within32_pathTable]
    exact noSilentTruncation_iff (fun _ _ => pathTableNumber_reduced)
      (buildPathTable_fails pathList compOpts)
  · rw [← within32_symbolIndex]
    exact noSilentTruncation_iff (fun _ _ => symbolIndexNumber_reduced)
      (buildSymbolIndex_fails symtable compOpts)
  · obtain ⟨t, outcome, ht, houtcome, hfails⟩ := buildTrigramIndex_fails order symtable
    refine ⟨t, outcome, ht, houtcome, ?_⟩
    rw [← within32_trigramIndex ht]
    exact noSilentTruncation_iff (fun _ _ => trigramIndexNumber_reduced) hfails

/-- Files of one name in as many directories. -/
def sameNamed (n : Nat) (name : Bytes) : List FileInfo :=
  (List.range n).map (fun i => ⟨name, UInt32.ofNat i⟩)

lemma sameNamed_length (n : Nat) (name : Bytes) :
    ((sameNamed n name).map FileInfo.name).flatten.length = n * name.length := by
  simp [sameNamed, List.length_flatten, Function.comp_def]

/-- The names of 2^25 files of 128 bytes take 2^32 bytes; a value comes all the same, and in it
stands an empty block of names. -/
theorem names_truncated_silently :
    ¬ NoSilentTruncation (FileTableNumber (sameNamed (2 ^ 25) (List.replicate 128 0x61)))
      (buildFileTable Zstd.stored (sameNamed (2 ^ 25) (List.replicate 128 0x61)) none) := by
  generalize hfiles : sameNamed (2 ^ 25) (List.replicate 128 0x61) = foundFiles
  intro reports
  have hlength : (filePass foundFiles).fileNamesBlob.length = 2 ^ 32 := by
    rw [filePass_eq, ← hfiles, sameNamed_length, List.length_replicate]
    norm_num
  obtain ⟨errorName, herror⟩ := reports.nullopt
    ⟨_, _, Or.inr (Or.inr ⟨rfl, rfl⟩), Nat.le_of_eq hlength.symm⟩
  rcases (buildFileTable_fails foundFiles none).mp ⟨errorName, herror⟩ with ⟨_, h⟩ | ⟨_, h⟩
  · cases h
  · cases h

end Builders
end BlockOverflow
