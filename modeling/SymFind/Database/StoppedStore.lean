import SymFind.Database.InterruptedStore
import SymFind.Database.ReaderBounds
import SymFind.Lib.CutRecords

/-!
# Reading what a stopped run left

A header that has not been stored gives its blocks no bytes and its table no
slots, so every lookup ends with a message. A stopped run is answered from only
when the fields that the reader uses have all been stored, and then like a run
that was not stopped. In between are the places where the capacity of the slots
has been stored and the place of the postings has not.
-/
namespace StoppedStore
open RecordCodec InsertionMap Machine SymbolData TrigramCodes Compression Config CutRecords
open DatabaseLayout TrigramTable DatabaseBlocks DatabaseWriting WritePlan DatabaseReading
open DatabaseRoundTrip InterruptedStore ReaderBounds

section Headers

/-- Where the capacity of the slots begins in a header. -/
def capacityOffset : Nat := 176

/-- Behind the place of the postings. A reader uses nothing of what follows. -/
def countsOffset : Nat := 196

/-- The header with other counts at its end. -/
def withCounts (hdr : DatabaseHeader) (counts : UInt64 × UInt64 × UInt64) : DatabaseHeader :=
  { hdr with trigramIndexHdr :=
    { hdr.trigramIndexHdr with
      trigramPostingsCount := counts.1
      trigramsCount := counts.2.1
      symbolsCount := counts.2.2 } }

def blockEnd (hdr : BlockHeader) : Nat := hdr.compressedOffset.toNat + hdr.compressedLength.toNat

/-- What the first `n` bytes of a header read as. -/
structure CutHeader (n : Nat) (hdr cut : DatabaseHeader) : Prop where
  cuts : Cuts databaseHeaderCodec n hdr cut
  marked : 12 ≤ n → cut.magic = hdr.magic ∧ cut.version = hdr.version
  confBlock : cut.confBlockOffset.toNat + cut.confBlockLength.toNat ≤
    hdr.confBlockOffset.toNat + hdr.confBlockLength.toNat
  dictionary : cut.zstdDictionaryOffset.toNat + cut.zstdDictionaryLength.toNat ≤
    hdr.zstdDictionaryOffset.toNat + hdr.zstdDictionaryLength.toNat
  blocks : List.Forall₂ (fun c h => blockEnd c ≤ blockEnd h) (blockHeaders cut) (blockHeaders hdr)
  slotless : n ≤ capacityOffset → cut.trigramIndexHdr.trigramIndexCapacity = 0
  located : countsOffset ≤ n → ∃ counts, cut = withCounts hdr counts

lemma cuts_block (n : Nat) (hdr : BlockHeader) :
    ∃ cut, Cuts blockHeaderCodec n hdr cut ∧ blockEnd cut ≤ blockEnd hdr := by
  obtain ⟨offset, hoffset, offset_le, -⟩ := cuts_u32 n hdr.compressedOffset
  obtain ⟨length, hlength, length_le, -⟩ := cuts_u32 (n - 4) hdr.compressedLength
  obtain ⟨size, hsize, -, -⟩ := cuts_u32 (n - 4 - 4) hdr.uncompressedLength
  exact ⟨⟨offset, length, size⟩, Cuts.rename (hoffset.pair (hlength.pair hsize)) rfl,
    Nat.add_le_add offset_le length_le⟩

lemma cuts_fileTableHeader (n : Nat) (hdr : FileTableHeader) :
    ∃ cut, Cuts fileTableHeaderCodec n hdr cut ∧ blockEnd cut.fileIndex ≤ blockEnd hdr.fileIndex ∧
      blockEnd cut.fileNames ≤ blockEnd hdr.fileNames := by
  obtain ⟨index, hindex, index_le⟩ := cuts_block n hdr.fileIndex
  obtain ⟨names, hnames, names_le⟩ := cuts_block (n - 12) hdr.fileNames
  obtain ⟨total, htotal, -, -⟩ := cuts_u32 (n - 12 - 12) hdr.totalCompressedLength
  obtain ⟨count, hcount, -, -⟩ := cuts_u64 (n - 12 - 12 - 4) hdr.filesCount
  exact ⟨⟨index, names, total, count⟩,
    Cuts.rename (hindex.pair (hnames.pair (htotal.pair hcount))) rfl, index_le, names_le⟩

lemma cuts_pathTableHeader (n : Nat) (hdr : PathTableHeader) :
    ∃ cut, Cuts pathTableHeaderCodec n hdr cut ∧ blockEnd cut.pathIndex ≤ blockEnd hdr.pathIndex ∧
      blockEnd cut.pathNames ≤ blockEnd hdr.pathNames := by
  obtain ⟨index, hindex, index_le⟩ := cuts_block n hdr.pathIndex
  obtain ⟨names, hnames, names_le⟩ := cuts_block (n - 12) hdr.pathNames
  obtain ⟨total, htotal, -, -⟩ := cuts_u32 (n - 12 - 12) hdr.totalCompressedLength
  obtain ⟨count, hcount, -, -⟩ := cuts_u64 (n - 12 - 12 - 4) hdr.pathsCount
  exact ⟨⟨index, names, total, count⟩,
    Cuts.rename (hindex.pair (hnames.pair (htotal.pair hcount))) rfl, index_le, names_le⟩

lemma cuts_symbolIndexHeader (n : Nat) (hdr : SymbolIndexHeader) :
    ∃ cut, Cuts symbolIndexHeaderCodec n hdr cut ∧
      blockEnd cut.symbolIndex ≤ blockEnd hdr.symbolIndex ∧
      blockEnd cut.symbolNames ≤ blockEnd hdr.symbolNames ∧
      blockEnd cut.symbolMetadata ≤ blockEnd hdr.symbolMetadata := by
  obtain ⟨index, hindex, index_le⟩ := cuts_block n hdr.symbolIndex
  obtain ⟨names, hnames, names_le⟩ := cuts_block (n - 12) hdr.symbolNames
  obtain ⟨metadata, hmetadata, metadata_le⟩ := cuts_block (n - 12 - 12) hdr.symbolMetadata
  obtain ⟨total, htotal, -, -⟩ := cuts_u32 (n - 12 - 12 - 12) hdr.totalCompressedLength
  obtain ⟨count, hcount, -, -⟩ := cuts_u64 (n - 12 - 12 - 12 - 4) hdr.symbolsCount
  exact ⟨⟨index, names, metadata, total, count⟩,
    Cuts.rename (hindex.pair (hnames.pair (hmetadata.pair (htotal.pair hcount)))) rfl,
    index_le, names_le, metadata_le⟩

/-- The last part of the header decides how far the slots can be used. -/
lemma cuts_trigramIndexHeader (n : Nat) (hdr : TrigramIndexHeader) :
    ∃ cut, Cuts trigramIndexHeaderCodec n hdr cut ∧
      blockEnd cut.trigramIndex ≤ blockEnd hdr.trigramIndex ∧
      blockEnd cut.trigramPostings ≤ blockEnd hdr.trigramPostings ∧
      (n ≤ 12 → cut.trigramIndexCapacity = 0) ∧
      (32 ≤ n → cut.trigramIndex = hdr.trigramIndex ∧
        cut.trigramIndexCapacity = hdr.trigramIndexCapacity ∧
        cut.trigramPostings = hdr.trigramPostings) := by
  obtain ⟨index, hindex, index_le⟩ := cuts_block n hdr.trigramIndex
  obtain ⟨capacity, hcapacity, -, none_left⟩ := cuts_u64 (n - 12) hdr.trigramIndexCapacity
  obtain ⟨postings, hpostings, postings_le⟩ := cuts_block (n - 12 - 8) hdr.trigramPostings
  obtain ⟨count, hcount, -, -⟩ := cuts_u64 (n - 12 - 8 - 12) hdr.trigramPostingsCount
  obtain ⟨trigrams, htrigrams, -, -⟩ := cuts_u64 (n - 12 - 8 - 12 - 8) hdr.trigramsCount
  obtain ⟨symbols, hsymbols, -, -⟩ := cuts_u64 (n - 12 - 8 - 12 - 8 - 8) hdr.symbolsCount
  refine ⟨⟨index, capacity, postings, count, trigrams, symbols⟩,
    Cuts.rename (hindex.pair (hcapacity.pair (hpostings.pair (hcount.pair
      (htrigrams.pair hsymbols))))) rfl, index_le, postings_le, ?_, ?_⟩
  · intro short
    exact none_left (Nat.sub_eq_zero_of_le short)
  · intro long
    exact ⟨hindex.eq_of_whole (Nat.le_trans (by decide) long),
      hcapacity.eq_of_whole (by rw [Codec.u64_width]; omega),
      hpostings.eq_of_whole (by change 12 ≤ _; omega)⟩

lemma cuts_header (n : Nat) (hdr : DatabaseHeader) : ∃ cut, CutHeader n hdr cut := by
  obtain ⟨magic, hmagic, -, -⟩ := cuts_u64 n hdr.magic
  obtain ⟨version, hversion, -, -⟩ := cuts_u32 (n - 8) hdr.version
  obtain ⟨confOffset, hconfOffset, confOffset_le, -⟩ :=
    cuts_u64 (n - 8 - 4) hdr.confBlockOffset
  obtain ⟨confLength, hconfLength, confLength_le, -⟩ :=
    cuts_u64 (n - 8 - 4 - 8) hdr.confBlockLength
  obtain ⟨dictOffset, hdictOffset, dictOffset_le, -⟩ :=
    cuts_u64 (n - 8 - 4 - 8 - 8) hdr.zstdDictionaryOffset
  obtain ⟨dictLength, hdictLength, dictLength_le, -⟩ :=
    cuts_u64 (n - 8 - 4 - 8 - 8 - 8) hdr.zstdDictionaryLength
  obtain ⟨files, hfiles, fileIndex_le, fileNames_le⟩ :=
    cuts_fileTableHeader (n - 8 - 4 - 8 - 8 - 8 - 8) hdr.fileTableHdr
  obtain ⟨paths, hpaths, pathIndex_le, pathNames_le⟩ :=
    cuts_pathTableHeader (n - 8 - 4 - 8 - 8 - 8 - 8 - 36) hdr.pathTableHdr
  obtain ⟨symbols, hsymbols, symbolIndex_le, symbolNames_le, symbolMetadata_le⟩ :=
    cuts_symbolIndexHeader (n - 8 - 4 - 8 - 8 - 8 - 8 - 36 - 36) hdr.symIndexHdr
  obtain ⟨trigrams, htrigrams, trigramIndex_le, postings_le, none_left, all_left⟩ :=
    cuts_trigramIndexHeader (n - 8 - 4 - 8 - 8 - 8 - 8 - 36 - 36 - 48) hdr.trigramIndexHdr
  refine ⟨⟨magic, version, confOffset, confLength, dictOffset, dictLength, files, paths, symbols,
    trigrams⟩, ?_, ?_, ?_, ?_, ?_, ?_, ?_⟩
  · exact Cuts.rename (hmagic.pair (hversion.pair (hconfOffset.pair (hconfLength.pair
      (hdictOffset.pair (hdictLength.pair (hfiles.pair (hpaths.pair
        (hsymbols.pair htrigrams))))))))) rfl
  · intro long
    exact ⟨hmagic.eq_of_whole (by rw [Codec.u64_width]; omega),
      hversion.eq_of_whole (by rw [Codec.u32_width]; omega)⟩
  · exact Nat.add_le_add confOffset_le confLength_le
  · exact Nat.add_le_add dictOffset_le dictLength_le
  · exact .cons fileIndex_le (.cons fileNames_le (.cons pathIndex_le (.cons pathNames_le
      (.cons symbolIndex_le (.cons symbolNames_le (.cons symbolMetadata_le
        (.cons trigramIndex_le (.cons postings_le .nil))))))))
  · intro short
    rw [capacityOffset] at short
    exact none_left (by omega)
  · intro long
    rw [countsOffset] at long
    obtain ⟨hindex, hcapacity, hpostings⟩ := all_left (by omega)
    have whole64 : ∀ {m : Nat} {a a' : UInt64}, Cuts Codec.u64 m a a' → 8 ≤ m → a' = a :=
      fun cuts h => cuts.eq_of_whole h
    obtain rfl := whole64 hmagic (by omega)
    obtain rfl := hversion.eq_of_whole (by rw [Codec.u32_width]; omega)
    obtain rfl := whole64 hconfOffset (by omega)
    obtain rfl := whole64 hconfLength (by omega)
    obtain rfl := whole64 hdictOffset (by omega)
    obtain rfl := whole64 hdictLength (by omega)
    obtain rfl := hfiles.eq_of_whole (by change 36 ≤ _; omega)
    obtain rfl := hpaths.eq_of_whole (by change 36 ≤ _; omega)
    obtain rfl := hsymbols.eq_of_whole (by change 48 ≤ _; omega)
    refine ⟨(trigrams.trigramPostingsCount, trigrams.trigramsCount, trigrams.symbolsCount), ?_⟩
    simp only [withCounts, ← hindex, ← hcapacity, ← hpostings]

lemma encode_placeholder : databaseHeaderCodec.encode placeholderHeader =
    marks ++ List.replicate 208 0 := by decide +kernel

/-- Only zeros stand behind the tenth byte of a placeholder. -/
lemma zeroFrom_placeholder {n : Nat} (long : 10 ≤ n) :
    zeroFrom n (databaseHeaderCodec.encode placeholderHeader) =
      databaseHeaderCodec.encode placeholderHeader := by
  have hmarks : marks.length = 12 := rfl
  have hfront : zeroFrom n marks = marks := by
    by_cases h : 12 ≤ n
    · exact zeroFrom_all h
    · obtain rfl | rfl : n = 10 ∨ n = 11 := by omega
      · decide
      · decide
  rw [encode_placeholder, zeroFrom_append, zeroFrom_zeros, hfront]

/-- The placeholder is the front of every header that a run writes. -/
lemma header_over_placeholder {hdr : DatabaseHeader} (hmagic : hdr.magic = databaseHeaderMagic)
    (hversion : hdr.version = databaseHeaderVersionNumber) {n : Nat}
    (h : n ≤ databaseHeaderCodec.width) :
    (databaseHeaderCodec.encode hdr).take n ++
        (databaseHeaderCodec.encode placeholderHeader).drop n =
      zeroFrom (max n 12) (databaseHeaderCodec.encode hdr) := by
  obtain ⟨rest, hrest⟩ := encode_marks hmagic hversion
  have hmarks : marks.length = 12 := rfl
  have hlength : rest.length = 208 := by
    have htotal := databaseHeaderCodec.encode_length hdr
    rw [hrest, List.length_append, hmarks, databaseHeaderCodec_width] at htotal
    omega
  rw [databaseHeaderCodec_width] at h
  rw [hrest, encode_placeholder, zeroFrom_append, zeroFrom_all (by omega), hmarks]
  rcases Nat.le_total n 12 with early | late
  · rw [Nat.max_eq_right early, Nat.sub_self, zeroFrom_zero, hlength,
      List.take_append_of_le_length (by omega), List.drop_append_of_le_length (by omega),
      ← List.append_assoc, List.take_append_drop]
  · rw [Nat.max_eq_left late, List.take_append, List.drop_append, hmarks,
      List.take_of_length_le (by omega), List.drop_eq_nil_of_le (by omega), List.nil_append,
      List.drop_replicate, List.append_assoc, zeroFrom, hlength]

end Headers

section Refusals

variable {α β : Type} {z : Zstd} {data : Bytes} {hdr : DatabaseHeader}

/-- A message came out. -/
def Refuses (x : Reading α) : Prop := ∃ errMsg, x = .error (.failed errMsg)

lemma refuses_conf_then {conf : ConfigParser} {f : Bool → Reading β}
    (inside : Inside data hdr.confBlockOffset.toNat hdr.confBlockLength.toNat)
    (rest : ∀ changed, Refuses (f changed)) : Refuses (readConfBlock data hdr conf >>= f) := by
  rw [readConfBlock]
  split
  · exact rest _
  · rw [bytesAt_eq_ok_iff.mpr ⟨inside, rfl⟩]
    exact rest _

lemma refuses_dictionary_then {f : Option z.DDict → Reading β}
    (inside : Inside data hdr.zstdDictionaryOffset.toNat hdr.zstdDictionaryLength.toNat)
    (rest : ∀ ddict, Refuses (f ddict)) : Refuses (readZstdDictionary z data hdr >>= f) := by
  rw [readZstdDictionary_eq (fun _ => inside)]
  exact rest _

/-- Either zstd refuses the block, or the rest does. -/
lemma refuses_block_then {block : BlockHeader} {ddict : Option z.DDict} {f : Bytes → Reading β}
    (inside : blockEnd block ≤ data.length) (rest : ∀ output, Refuses (f output)) :
    Refuses (decompressBlock z data block ddict >>= f) := by
  have hinput := bytesAt_eq_ok_iff.mpr ⟨.inr inside, rfl⟩
  rw [decompressBlock, hinput]
  simp only [bind, Except.bind]
  rcases z.decompress ddict _ block.uncompressedLength.toNat with errorName | output
  · exact ⟨_, rfl⟩
  · exact rest output

/-- Everything that a header locates lies in the file. -/
structure RangesInside (data : Bytes) (hdr : DatabaseHeader) : Prop where
  confBlock : hdr.confBlockOffset.toNat + hdr.confBlockLength.toNat ≤ data.length
  dictionary : hdr.zstdDictionaryOffset.toNat + hdr.zstdDictionaryLength.toNat ≤ data.length
  blocks : ∀ block ∈ blockHeaders hdr, blockEnd block ≤ data.length

lemma inside_of_ranges (inside : ∀ r ∈ headerRanges hdr, r.1 + r.2 ≤ data.length) :
    RangesInside data hdr := by
  rw [headerRanges, List.forall_mem_cons, List.forall_mem_cons, List.forall_mem_cons] at inside
  obtain ⟨-, confBlock, dictionary, blocks⟩ := inside
  exact ⟨confBlock, dictionary, fun block hblock => blocks _ (List.mem_map_of_mem hblock)⟩

lemma blockEnd_mono {cut whole : List BlockHeader} {limit : Nat}
    (below : List.Forall₂ (fun c h => blockEnd c ≤ blockEnd h) cut whole)
    (h : ∀ block ∈ whole, blockEnd block ≤ limit) : ∀ block ∈ cut, blockEnd block ≤ limit := by
  induction below with
  | nil => exact h
  | cons hle _ ih =>
    rw [List.forall_mem_cons] at h ⊢
    exact ⟨hle.trans h.1, ih h.2⟩

lemma CutHeader.inside {n : Nat} {cut : DatabaseHeader} (by_cut : CutHeader n hdr cut)
    (inside : RangesInside data hdr) : RangesInside data cut :=
  ⟨by_cut.confBlock.trans inside.confBlock, by_cut.dictionary.trans inside.dictionary,
    blockEnd_mono by_cut.blocks inside.blocks⟩

/-- Without slots no trigram has symbols. -/
lemma countMatches_slotless {r : DatabaseReader} (slotless : r.trigramCapacity = 0) (fuel : Nat)
    (counts : Map UInt32 UInt32) (codes : List TrigramCode) :
    r.countMatches fuel counts codes = .ok counts := by
  induction codes with
  | nil => rfl
  | cons code rest ih =>
    have hnone : lookupIds fuel r.trigramSlotsBuf r.trigramPostingsBuf r.trigramCapacity code =
        .ok [] := by
      rw [lookupIds, lookupTrigram, probeSlots, if_pos slotless]
      rfl
    rw [DatabaseReader.countMatches, hnone]
    exact ih

lemma find_slotless {r : DatabaseReader} (slotless : r.trigramCapacity = 0)
    (order : IterationOrder (UInt32 × UInt32)) (fuel : Nat) (query : Bytes)
    (ignoreEntry : IgnoreEntryCallback) : Refuses (r.find order fuel query ignoreEntry) := by
  rw [DatabaseReader.find]
  by_cases htrigrams : distinctTrigrams query = []
  · exact ⟨_, by rw [if_pos htrigrams]; rfl⟩
  · have hcounts := countMatches_slotless slotless fuel Map.empty (distinctTrigrams query)
    have hnone : order.arrange (Map.empty : Map UInt32 UInt32).entries = [] :=
      (order.perm _).eq_nil
    refine ⟨.text (text "DatabaseReader: Symbol not found"), ?_⟩
    simp only [htrigrams, if_false, hcounts, bind, Except.bind, pure, Except.pure, hnone,
      List.filterMap_nil, if_true]
    rfl

/-- Opening a database whose header has no slots, and looking something up in it. -/
lemma slotless_refuses (header : readHeader data = .ok hdr) (inside : RangesInside data hdr)
    (slotless : hdr.trigramIndexHdr.trigramIndexCapacity = 0) (conf : ConfigParser)
    (order : IterationOrder (UInt32 × UInt32)) (fuel : Nat) (query : Bytes)
    (ignoreEntry : IgnoreEntryCallback) :
    Refuses (decompressDatabase z conf data >>= fun r =>
      r.find order fuel query ignoreEntry) := by
  have block : ∀ (i : Nat) (h : i < 9), blockEnd ((blockHeaders hdr).get ⟨i, h⟩) ≤ data.length :=
    fun i h => inside.blocks _ ((blockHeaders hdr).get_mem ⟨i, h⟩)
  rw [decompressDatabase, header]
  change Refuses (readTables z conf data hdr >>= _)
  rw [readTables]
  simp only [bind_assoc]
  refine refuses_conf_then (.inr inside.confBlock) fun _ =>
    refuses_dictionary_then (.inr inside.dictionary) fun _ => ?_
  -- zstd may refuse one of the nine blocks; if it does not, the lookup finds nothing
  refine refuses_block_then (block 0 (by decide)) fun _ =>
    refuses_block_then (block 1 (by decide)) fun _ =>
    refuses_block_then (block 2 (by decide)) fun _ =>
    refuses_block_then (block 3 (by decide)) fun _ =>
    refuses_block_then (block 4 (by decide)) fun _ =>
    refuses_block_then (block 5 (by decide)) fun _ =>
    refuses_block_then (block 6 (by decide)) fun _ =>
    refuses_block_then (block 7 (by decide)) fun _ =>
    refuses_block_then (block 8 (by decide)) fun _ => ?_
  exact find_slotless (by rw [slotless]; rfl) order fuel query ignoreEntry

end Refusals

section Fronts

variable {z : Zstd} {front front' tail : Bytes} {hdr : DatabaseHeader}

lemma bytesAt_behind (same : front'.length = front.length) {offset : Nat}
    (behind : front.length ≤ offset) (length : Nat) :
    bytesAt (front' ++ tail) offset length = bytesAt (front ++ tail) offset length := by
  have hlength : (front' ++ tail).length = (front ++ tail).length := by
    rw [List.length_append, List.length_append, same]
  have hdrop : (front' ++ tail).drop offset = (front ++ tail).drop offset := by
    rw [List.drop_append, List.drop_append, same, List.drop_eq_nil_of_le (same ▸ behind),
      List.drop_eq_nil_of_le behind]
  rw [bytesAt, bytesAt, rangeAt, rangeAt, slice, slice, hlength, hdrop]

/-- Nothing that a header locates lies in the header. -/
structure RangesBehind (limit : Nat) (hdr : DatabaseHeader) : Prop where
  confBlock : limit ≤ hdr.confBlockOffset.toNat
  dictionary : hdr.zstdDictionaryLength > 0 → limit ≤ hdr.zstdDictionaryOffset.toNat
  blocks : ∀ block ∈ blockHeaders hdr, limit ≤ block.compressedOffset.toNat

lemma decompressBlock_behind (same : front'.length = front.length) {block : BlockHeader}
    (behind : front.length ≤ block.compressedOffset.toNat) (ddict : Option z.DDict) :
    decompressBlock z (front' ++ tail) block ddict =
      decompressBlock z (front ++ tail) block ddict := by
  rw [decompressBlock, decompressBlock, bytesAt_behind same behind]

lemma readZstdDictionary_behind (same : front'.length = front.length)
    (behind : hdr.zstdDictionaryLength > 0 → front.length ≤ hdr.zstdDictionaryOffset.toNat) :
    readZstdDictionary z (front' ++ tail) hdr = readZstdDictionary z (front ++ tail) hdr := by
  rw [readZstdDictionary, readZstdDictionary]
  by_cases hsome : hdr.zstdDictionaryLength > 0
  · rw [if_pos hsome, if_pos hsome, bytesAt_behind same (behind hsome)]
  · rw [if_neg hsome, if_neg hsome]

lemma countMatches_dbHdr (r : DatabaseReader) (fuel : Nat) (counts : Map UInt32 UInt32)
    (codes : List TrigramCode) : DatabaseReader.countMatches { r with dbHdr := hdr } fuel counts
      codes = r.countMatches fuel counts codes := by
  induction codes generalizing counts with
  | nil => rfl
  | cons code rest ih =>
    rw [DatabaseReader.countMatches, DatabaseReader.countMatches]
    cases lookupIds fuel r.trigramSlotsBuf r.trigramPostingsBuf r.trigramCapacity code with
    | error fault => rfl
    | ok ids => exact ih _

/-- A lookup does not look at the header again. -/
lemma find_dbHdr (r : DatabaseReader) (order : IterationOrder (UInt32 × UInt32)) (fuel : Nat)
    (query : Bytes) (ignoreEntry : IgnoreEntryCallback) :
    DatabaseReader.find { r with dbHdr := hdr } order fuel query ignoreEntry =
      r.find order fuel query ignoreEntry := by
  rw [DatabaseReader.find, DatabaseReader.find, countMatches_dbHdr]
  rfl

lemma bind_alike {α β : Type} {x y : Reading α} {f g : α → Reading β} (h : x = y)
    (rest : ∀ a, f a = g a) : (x >>= f) = (y >>= g) := by
  rw [h, funext rest]

/-- Two files whose headers locate the same, and that are the same behind them, answer alike. -/
lemma lookups_alike (same : front'.length = front.length)
    (header : readHeader (front ++ tail) = .ok hdr)
    {counts : UInt64 × UInt64 × UInt64}
    (header' : readHeader (front' ++ tail) = .ok (withCounts hdr counts))
    (behind : RangesBehind front.length hdr) (conf : ConfigParser)
    (order : IterationOrder (UInt32 × UInt32)) (fuel : Nat) (query : Bytes)
    (ignoreEntry : IgnoreEntryCallback) :
    (decompressDatabase z conf (front' ++ tail) >>= fun r =>
        r.find order fuel query ignoreEntry) =
      (decompressDatabase z conf (front ++ tail) >>= fun r =>
        r.find order fuel query ignoreEntry) := by
  have block : ∀ (i : Nat) (h : i < 9) (ddict : Option z.DDict),
      decompressBlock z (front' ++ tail) ((blockHeaders hdr).get ⟨i, h⟩) ddict =
        decompressBlock z (front ++ tail) ((blockHeaders hdr).get ⟨i, h⟩) ddict :=
    fun i h => decompressBlock_behind same (behind.blocks _ ((blockHeaders hdr).get_mem ⟨i, h⟩))
  have hconf : readConfBlock (front' ++ tail) hdr conf =
      readConfBlock (front ++ tail) hdr conf := by
    rw [readConfBlock, readConfBlock, bytesAt_behind same behind.confBlock]
  have hdict := @readZstdDictionary_behind z front front' tail hdr same behind.dictionary
  rw [decompressDatabase, decompressDatabase, header, header']
  change (readTables z conf (front' ++ tail) (withCounts hdr counts) >>= _) =
    (readTables z conf (front ++ tail) hdr >>= _)
  rw [readTables, readTables]
  simp only [bind_assoc]
  refine bind_alike hconf fun changed => bind_alike hdict fun withDict => ?_
  refine bind_alike (block 0 (by decide) none) fun _ =>
    bind_alike (block 1 (by decide) withDict) fun _ =>
    bind_alike (block 2 (by decide) none) fun _ =>
    bind_alike (block 3 (by decide) withDict) fun _ =>
    bind_alike (block 4 (by decide) none) fun _ =>
    bind_alike (block 5 (by decide) withDict) fun _ =>
    bind_alike (block 6 (by decide) none) fun _ =>
    bind_alike (block 7 (by decide) none) fun _ =>
    bind_alike (block 8 (by decide) none) fun _ => ?_
  rw [pure_bind, pure_bind]
  exact Eq.symm (find_dbHdr _ order fuel query ignoreEntry).symm

end Fronts

section Early

variable {z : Zstd} {order : IterationOrder (TrigramCode × List UInt32)} {args : StoreArgs}

/-- Every lookup in the file ends with a message. -/
def Silent (file : Except Nat Bytes) : Prop :=
  ∀ (z : Zstd) (order : IterationOrder (UInt32 × UInt32)) (fuel : Nat) (conf : ConfigParser)
    (query : Bytes) (ignoreEntry : IgnoreEntryCallback),
      Refuses (findSymbolReferences z order fuel conf file query ignoreEntry)

lemma lookup_opened {conf : ConfigParser} {file : Except Nat Bytes} {data : Bytes}
    (mapped : mappedFileOpen conf.databasePath file = .ok data)
    {idOrder : IterationOrder (UInt32 × UInt32)} {fuel : Nat} {query : Bytes}
    {ignoreEntry : IgnoreEntryCallback} :
    findSymbolReferences z idOrder fuel conf file query ignoreEntry =
      decompressDatabase z conf data >>= fun r => r.find idOrder fuel query ignoreEntry := by
  rw [findSymbolReferences, mapped]
  rfl

lemma silent_unopened (errno : Nat) : Silent (.error errno) :=
  fun _ _ _ _ _ _ => ⟨_, rfl⟩

/-- A file shorter than the magic and the version is refused. -/
lemma silent_short {m : Nat} (short : m < 10) :
    Silent (.ok ((databaseHeaderCodec.encode placeholderHeader).take m)) := by
  intro z order fuel conf query ignoreEntry
  have refused := not_accepted_short conf.databasePath short
  by_cases hempty : ((databaseHeaderCodec.encode placeholderHeader).take m).length = 0
  · rw [findSymbolReferences, mappedFileOpen, if_pos hempty]
    exact ⟨_, rfl⟩
  · have mapped := mappedFileOpen_some conf.databasePath hempty
    obtain ⟨hdr, hdecode⟩ := databaseHeaderCodec_total _
      (Nat.le_trans (by decide) (mappedPages_length hempty))
    rw [lookup_opened mapped, decompressDatabase]
    rcases hread : readHeader (mappedPages
        ((databaseHeaderCodec.encode placeholderHeader).take m)) with stop | hdr'
    · rw [readHeader, hdecode] at hread
      simp only at hread
      split at hread
      · cases hread
        exact ⟨_, rfl⟩
      split at hread
      · cases hread
        exact ⟨_, rfl⟩
      · cases hread
    · exact absurd ⟨_, hdr', mapped, hread⟩ refused

/-- The rest of the page completes a placeholder that was cut behind its version. -/
lemma mapped_placeholder (parts : List Bytes) {m : Nat} (long : 10 ≤ m) :
    ∃ rest, mappedPages ((databaseHeaderCodec.encode placeholderHeader :: parts).flatten.take m) =
      databaseHeaderCodec.encode placeholderHeader ++ rest := by
  have hlength := databaseHeaderCodec.encode_length placeholderHeader
  rw [databaseHeaderCodec_width] at hlength
  rw [List.flatten_cons]
  by_cases h : 220 ≤ m
  · rw [List.take_append, hlength, List.take_of_length_le (hlength.trans_le h), mappedPages,
      List.append_assoc]
    exact ⟨_, rfl⟩
  · have hm := zeroFrom_placeholder long
    rw [zeroFrom, hlength] at hm
    have hzeros : (pageSize - m % pageSize) % pageSize = (220 - m) + (pageSize - 220) := by
      rw [pageSize]
      omega
    rw [List.take_append_of_le_length (by omega), mappedPages, List.length_take, hlength,
      Nat.min_eq_left (by omega), hzeros, List.replicate_add, ← List.append_assoc, hm]
    exact ⟨_, rfl⟩

lemma placeholder_ranges (data : Bytes) : RangesInside data placeholderHeader := by
  have hconf : placeholderHeader.confBlockOffset.toNat +
      placeholderHeader.confBlockLength.toNat = 0 := by decide
  have hdict : placeholderHeader.zstdDictionaryOffset.toNat +
      placeholderHeader.zstdDictionaryLength.toNat = 0 := by decide
  have hblocks : ∀ block ∈ blockHeaders placeholderHeader, blockEnd block = 0 := by decide
  constructor
  · rw [hconf]
    exact Nat.zero_le _
  · rw [hdict]
    exact Nat.zero_le _
  · intro block hblock
    rw [hblocks block hblock]
    exact Nat.zero_le _

lemma silent_placeholder (parts : List Bytes) {m : Nat} (long : 10 ≤ m) :
    Silent (.ok ((databaseHeaderCodec.encode placeholderHeader :: parts).flatten.take m)) := by
  intro z order fuel conf query ignoreEntry
  obtain ⟨rest, hrest⟩ := mapped_placeholder parts long
  have hnonempty : ((databaseHeaderCodec.encode placeholderHeader :: parts).flatten.take m).length ≠
      0 := by
    rw [List.flatten_cons, List.length_take, List.length_append, Codec.encode_length,
      databaseHeaderCodec_width]
    omega
  have header : readHeader (databaseHeaderCodec.encode placeholderHeader ++ rest) =
      .ok placeholderHeader :=
    readHeader_marked (databaseHeaderCodec.decode_encode _ _) rfl rfl
  have mapped := mappedFileOpen_some conf.databasePath hnonempty
  rw [hrest] at mapped
  rw [lookup_opened mapped]
  exact slotless_refuses header (placeholder_ranges _) rfl conf order fuel query ignoreEntry

/-- A run that stops before its final header leaves a front of what it writes before it. -/
lemma fileLeft_early (fits : (partsBefore z order args).flatten.length < 2 ^ 32) {disk : Disk}
    (early : storedBytes z order args disk.pending ≤ (partsBefore z order args).flatten.length) :
    fileLeft z order args disk =
      (partsBefore z order args).flatten.take (storedBytes z order args disk.pending) := by
  cases hbuilt : buildTables z order args (withDictOf z args) with
  | error halt =>
    rw [partsBefore_unbuilt hbuilt] at fits ⊢
    exact fileLeft_unbuilt hbuilt fits disk
  | ok built =>
    rw [partsBefore_built hbuilt] at fits early ⊢
    rw [fileLeft_built hbuilt fits, @imageAfter_before z args built _ early]

lemma partsBefore_first (z : Zstd) (order : IterationOrder (TrigramCode × List UInt32))
    (args : StoreArgs) : ∃ parts, partsBefore z order args =
      databaseHeaderCodec.encode placeholderHeader :: parts := by
  rw [partsBefore]
  cases buildTables z order args (withDictOf z args) with
  | error halt => exact ⟨_, rfl⟩
  | ok built => exact ⟨_, rfl⟩

lemma silent_early (fits : (partsBefore z order args).flatten.length < 2 ^ 32) {disk : Disk}
    (early : storedBytes z order args disk.pending ≤ (partsBefore z order args).flatten.length) :
    Silent (.ok (fileLeft z order args disk)) := by
  obtain ⟨parts, hparts⟩ := partsBefore_first z order args
  rw [fileLeft_early fits early, hparts]
  by_cases long : 10 ≤ storedBytes z order args disk.pending
  · exact silent_placeholder parts long
  · have hfront : (databaseHeaderCodec.encode placeholderHeader :: parts).flatten.take
        (storedBytes z order args disk.pending) =
          (databaseHeaderCodec.encode placeholderHeader).take
            (storedBytes z order args disk.pending) := by
      rw [List.flatten_cons, List.take_append_of_le_length (by
        rw [Codec.encode_length, databaseHeaderCodec_width]
        omega)]
    rw [hfront]
    exact silent_short (by omega)

end Early

section Late

variable {z : Zstd} {order : IterationOrder (TrigramCode × List UInt32)} {args : StoreArgs}
  {built : BuiltTables}

/-- The file in which `n` bytes of the final header have been stored. -/
def cutImage (z : Zstd) (args : StoreArgs) (built : BuiltTables) (n : Nat) : Bytes :=
  (databaseHeaderCodec.encode (finalHeader z args built)).take n ++
    ((databaseHeaderCodec.encode placeholderHeader).drop n ++
      (args.conf.confBlock :: dictionaryOf z args :: blockParts built).flatten)

/-- Every lookup ends with the same result in both files. -/
def Alike (file other : Bytes) : Prop :=
  ∀ (z : Zstd) (order : IterationOrder (UInt32 × UInt32)) (fuel : Nat) (conf : ConfigParser)
    (query : Bytes) (ignoreEntry : IgnoreEntryCallback),
      findSymbolReferences z order fuel conf (.ok file) query ignoreEntry =
        findSymbolReferences z order fuel conf (.ok other) query ignoreEntry

/-- A cut image and the image differ in the header only. -/
lemma cutImage_front (z : Zstd) (args : StoreArgs) (built : BuiltTables) {n : Nat}
    (h : n ≤ databaseHeaderCodec.width) :
    ∃ tail, cutImage z args built n ≠ [] ∧
      mappedPages (cutImage z args built n) =
        zeroFrom (max n 12) (databaseHeaderCodec.encode (finalHeader z args built)) ++ tail ∧
      imageData z args built =
        databaseHeaderCodec.encode (finalHeader z args built) ++ tail := by
  have hfront := @header_over_placeholder (finalHeader z args built) rfl rfl n h
  have hcut : cutImage z args built n =
      zeroFrom (max n 12) (databaseHeaderCodec.encode (finalHeader z args built)) ++
        (args.conf.confBlock :: dictionaryOf z args :: blockParts built).flatten := by
    rw [cutImage, ← List.append_assoc, hfront]
  have himage : (imageParts z args built).flatten =
      databaseHeaderCodec.encode (finalHeader z args built) ++
        (args.conf.confBlock :: dictionaryOf z args :: blockParts built).flatten := by
    rw [imageParts, List.flatten_cons]
  have hlength : (cutImage z args built n).length = (imageParts z args built).flatten.length := by
    rw [hcut, himage, List.length_append, List.length_append, zeroFrom_length]
  have hnonempty : (cutImage z args built n).length ≠ 0 := by
    rw [hcut, List.length_append, zeroFrom_length, Codec.encode_length, databaseHeaderCodec_width]
    omega
  obtain ⟨zeros, hzeros⟩ : ∃ zeros : Bytes, zeros = List.replicate
    ((pageSize - (imageParts z args built).flatten.length % pageSize) % pageSize) 0 := ⟨_, rfl⟩
  refine ⟨(args.conf.confBlock :: dictionaryOf z args :: blockParts built).flatten ++ zeros,
    fun hnil => hnonempty (by rw [hnil]; rfl), ?_, ?_⟩
  · rw [mappedPages, hlength, ← hzeros, hcut, List.append_assoc]
  · rw [imageData, mappedPages, ← hzeros, himage, List.append_assoc]

variable (fits : Fits z order args)
  (hbuilt : buildTables z order args (withDictOf z args) = .ok built)
include fits hbuilt

lemma final_inside : RangesInside (imageData z args built) (finalHeader z args built) := by
  have hlength : (imageParts z args built).flatten.length ≤ (imageData z args built).length := by
    rw [imageData, mappedPages, List.length_append]
    exact Nat.le_add_right _ _
  exact inside_of_ranges
    (fun r hr => ((ranges_tile fits hbuilt).inside r hr).2.trans hlength)

lemma final_behind : RangesBehind databaseHeaderCodec.width (finalHeader z args built) := by
  have hlead := lead_length z args
  constructor
  · exact (confBlock_range fits hbuilt).1.ge
  · intro hsome
    have hlength : (dictionaryOf z args).length ≠ 0 := by
      rw [← dictionaryLength_toNat fits hbuilt]
      exact Nat.ne_of_gt (UInt64.lt_iff_toNat_lt.mp hsome)
    have hbuilder : args.dictBuilder.isSome := by
      by_contra hnone
      rw [Bool.not_eq_true, Option.isSome_eq_false_iff, Option.isNone_iff_eq_none] at hnone
      rw [WritePlan.dictionaryOf, hnone] at hlength
      exact hlength rfl
    rw [dictionaryOffset_toNat fits hbuilt, if_pos hbuilder]
    exact Nat.le_add_right _ _
  · intro block hblock
    have hranges := List.mem_map_of_mem
      (f := fun b => (b.compressedOffset.toNat, b.compressedLength.toNat)) hblock
    rw [blockRanges_eq fits hbuilt] at hranges
    have hinside := (tiles_rangesFrom _ _).inside _ hranges
    exact Nat.le_trans (by omega) hinside.1

/-- Without the capacity of the slots nothing is found. -/
lemma silent_cut {n : Nat} (early : n ≤ capacityOffset) :
    Silent (.ok (cutImage z args built n)) := by
  intro z' idOrder fuel conf query ignoreEntry
  have hwidth : n ≤ databaseHeaderCodec.width := early.trans (by decide)
  obtain ⟨tail, hnonempty, hcut, himage⟩ := cutImage_front z args built hwidth
  obtain ⟨cut, by_cut⟩ := cuts_header (max n 12) (finalHeader z args built)
  obtain ⟨hmagic, hversion⟩ := by_cut.marked (Nat.le_max_right _ _)
  have header : readHeader (zeroFrom (max n 12)
      (databaseHeaderCodec.encode (finalHeader z args built)) ++ tail) = .ok cut :=
    readHeader_marked (by_cut.cuts tail) hmagic hversion
  have hlength : (zeroFrom (max n 12)
      (databaseHeaderCodec.encode (finalHeader z args built)) ++ tail).length =
        (imageData z args built).length := by
    rw [himage, List.length_append, List.length_append, zeroFrom_length]
  obtain ⟨confBlock, dictionary, blocks⟩ := by_cut.inside (final_inside fits hbuilt)
  have mapped := mappedFileOpen_some conf.databasePath
    (fun h => hnonempty (List.eq_nil_of_length_eq_zero h))
  rw [hcut] at mapped
  rw [lookup_opened mapped]
  rw [← hlength] at confBlock dictionary blocks
  exact slotless_refuses header ⟨confBlock, dictionary, blocks⟩
    (by_cut.slotless (Nat.max_le.mpr ⟨early, by decide⟩)) conf idOrder fuel query ignoreEntry

/-- With the place of the postings everything is found. -/
lemma alike_cut {n : Nat} (late : countsOffset ≤ n) (h : n ≤ databaseHeaderCodec.width) :
    Alike (cutImage z args built n) (imageParts z args built).flatten := by
  intro z' idOrder fuel conf query ignoreEntry
  obtain ⟨tail, hnonempty, hcut, himage⟩ := cutImage_front z args built h
  obtain ⟨cut, by_cut⟩ := cuts_header (max n 12) (finalHeader z args built)
  obtain ⟨hmagic, hversion⟩ := by_cut.marked (Nat.le_max_right _ _)
  obtain ⟨counts, rfl⟩ := by_cut.located (late.trans (Nat.le_max_left _ _))
  have header' : readHeader (zeroFrom (max n 12)
      (databaseHeaderCodec.encode (finalHeader z args built)) ++ tail) =
        .ok (withCounts (finalHeader z args built) counts) :=
    readHeader_marked (by_cut.cuts tail) hmagic hversion
  have header : readHeader (databaseHeaderCodec.encode (finalHeader z args built) ++ tail) =
      .ok (finalHeader z args built) := himage ▸ header_found
  have mapped := mappedFileOpen_some conf.databasePath
    (fun h => hnonempty (List.eq_nil_of_length_eq_zero h))
  have mapped' := @image_mapped z args built conf.databasePath
  rw [hcut] at mapped
  rw [himage] at mapped'
  rw [lookup_opened mapped, lookup_opened mapped']
  refine lookups_alike (zeroFrom_length _ _) header header' ?_ conf idOrder fuel query ignoreEntry
  rw [Codec.encode_length]
  exact final_behind fits hbuilt

end Late

section Stops

variable {z : Zstd} {order : IterationOrder (TrigramCode × List UInt32)} {args : StoreArgs}

lemma storedBytes_unbuilt {halt : Halt}
    (hbuilt : buildTables z order args (withDictOf z args) = .error halt)
    (pending : List PwriteOutcome) :
    storedBytes z order args pending ≤ (partsBefore z order args).flatten.length := by
  have hle := acceptAll_le pending (writeLengths z order args)
  rw [storedBytes, partsBefore_unbuilt hbuilt, ← sum_lengths]
  rw [writeLengths, hbuilt] at hle ⊢
  exact hle

/-- Beyond the parts before the final header there are only cut images. -/
lemma fileLeft_cut (fits : Fits z order args) {disk : Disk}
    (late : (partsBefore z order args).flatten.length < storedBytes z order args disk.pending) :
    ∃ built, buildTables z order args (withDictOf z args) = .ok built ∧ ∃ n,
      n ≤ databaseHeaderCodec.width ∧
      storedBytes z order args disk.pending = (partsBefore z order args).flatten.length + n ∧
      fileLeft z order args disk = cutImage z args built n := by
  cases hbuilt : buildTables z order args (withDictOf z args) with
  | error halt => exact absurd (storedBytes_unbuilt hbuilt disk.pending) (by omega)
  | ok built =>
    rw [partsBefore_built hbuilt] at late ⊢
    obtain ⟨n, hwidth, hn, hfile⟩ := fileLeft_late hbuilt (fits.image built hbuilt) late.le
    exact ⟨built, rfl, n, hwidth, by omega, hfile⟩

/-- A run that stops before it has stored the capacity of the slots leaves a file in which every
lookup ends with a message, whatever was there before. Once it has stored the place of the postings,
every lookup ends as in the complete file. -/
theorem reads_after_stop (z : Zstd) (order : IterationOrder (TrigramCode × List UInt32))
    (args : StoreArgs) (fits : Fits z order args)
    (before : (partsBefore z order args).flatten.length < 2 ^ 32) (disk : Disk) :
    (storedBytes z order args disk.pending ≤
        (partsBefore z order args).flatten.length + capacityOffset →
      Silent (.ok (fileLeft z order args disk))) ∧
    ((partsBefore z order args).flatten.length + countsOffset ≤
        storedBytes z order args disk.pending →
      ∃ built, buildTables z order args (withDictOf z args) = .ok built ∧
        Alike (fileLeft z order args disk) (imageParts z args built).flatten) := by
  constructor
  · intro early
    by_cases late : (partsBefore z order args).flatten.length <
        storedBytes z order args disk.pending
    · obtain ⟨built, hbuilt, n, -, hn, hfile⟩ := fileLeft_cut fits late
      rw [hfile]
      exact silent_cut fits hbuilt (by omega)
    · exact silent_early before (Nat.le_of_not_lt late)
  · intro late
    have beyond : (partsBefore z order args).flatten.length <
        storedBytes z order args disk.pending := by
      rw [countsOffset] at late
      omega
    obtain ⟨built, hbuilt, n, hwidth, hn, hfile⟩ := fileLeft_cut fits beyond
    refine ⟨built, hbuilt, ?_⟩
    rw [hfile]
    exact alike_cut fits hbuilt (by omega) hwidth

/-- A run that dies behind its first write. -/
theorem reads_after_stop_placeholder :
    Silent (.ok (fileLeft Zstd.stored (IterationOrder.insertion _) sampleArgs
      ⟨[], [.stored 219], 0⟩)) :=
  (reads_after_stop Zstd.stored (IterationOrder.insertion _) sampleArgs sample_fits
    (by decide +kernel) ⟨[], [.stored 219], 0⟩).1 (by decide +kernel)

end Stops

end StoppedStore
