import SymFind.Database.DatabaseReading
import SymFind.Database.TrigramExact
import SymFind.Database.WritePlan
import SymFind.Lib.Outcome

/-!
# What was stored is read back

A run that returns true leaves the final header and the parts it locates. The
reader finds every part at its place, decompression gives the tables and blobs
that the builders made, and these decode entry by entry to what was stored.
-/
namespace DatabaseRoundTrip
open RecordCodec InsertionMap Outcome Machine SymbolData TrigramCodes DatabaseLayout TrigramTable
open TrigramExact PathCache Compression DatabaseBlocks FilePatch Config DatabaseWriting WritePlan
open DatabaseReading

section Built

/-- A compressed block with the length of its input. -/
structure Packed (z : Zstd) (cdict : Option z.CDict) (input output : Bytes) (size : UInt64) :
    Prop where
  compressed : compress z input input.length cdict = .ok output
  size_eq : size = UInt64.ofNat input.length

variable {z : Zstd} {order : IterationOrder (TrigramCode × List UInt32)} {args : StoreArgs}

lemma buildFileTable_ok {foundFiles : List FileInfo} {cdict : Option z.CDict}
    {r : FileTableBuildResult} (h : buildFileTable z foundFiles cdict = .ok r) :
    Packed z none (fileTableCodec.encodeAll (fileEntries foundFiles)) r.fileIndexCompressed
        r.fileIndexUncompressedLength ∧
      Packed z cdict (foundFiles.map FileInfo.name).flatten r.fileNamesCompressed
        r.fileNamesUncompressedLength := by
  simp only [buildFileTable, filePass_eq] at h
  obtain ⟨index, hindex, h⟩ := bind_ok h
  obtain ⟨names, hnames, h⟩ := bind_ok h
  cases h
  exact ⟨⟨hindex, rfl⟩, ⟨hnames, rfl⟩⟩

lemma buildPathTable_ok {pathList : List Bytes} {cdict : Option z.CDict}
    {r : PathTableBuildResult} (h : buildPathTable z pathList cdict = .ok r) :
    Packed z none (pathIndexCodec.encodeAll (pathEntries pathList)) r.pathIndexCompressed
        r.pathIndexUncompressedLength ∧
      Packed z cdict pathList.flatten r.pathNamesCompressed r.pathNamesUncompressedLength := by
  simp only [buildPathTable, pathPass_eq] at h
  obtain ⟨index, hindex, h⟩ := bind_ok h
  obtain ⟨names, hnames, h⟩ := bind_ok h
  cases h
  exact ⟨⟨hindex, rfl⟩, ⟨hnames, rfl⟩⟩

lemma buildSymbolIndex_ok {symtable : HashMap} {cdict : Option z.CDict}
    {r : SymbolIndexBuildResult} (h : buildSymbolIndex z symtable cdict = .ok r) :
    Packed z none (symbolIndexCodec.encodeAll (symbolEntries symtable.entries))
        r.symbolIndexCompressed r.symbolIndexUncompressedLength ∧
      Packed z cdict (symtable.entries.map Prod.fst).flatten r.symbolNamesCompressed
        r.symbolNamesUncompressedLength ∧
      Packed z none (symtable.entries.map refsBytes).flatten r.symbolMetadataCompressed
        r.symbolMetadataUncompressedLength := by
  simp only [buildSymbolIndex, symbolPass_eq] at h
  obtain ⟨index, hindex, h⟩ := bind_ok h
  obtain ⟨names, hnames, h⟩ := bind_ok h
  obtain ⟨metadata, hmetadata, h⟩ := bind_ok h
  cases h
  exact ⟨⟨hindex, rfl⟩, ⟨hnames, rfl⟩, ⟨hmetadata, rfl⟩⟩

lemma buildTrigramIndex_ok {symtable : HashMap} {t : TrigramTables}
    (ht : buildTrigramTables order symtable.keys = .ok t)
    (fits : 4 * t.postings.length < 2 ^ 32) {r : TrigramIndexBuildResult}
    (h : buildTrigramIndex z order symtable = .ok (.ok r)) :
    Packed z none (trigramSlotCodec.encodeAll t.slots) r.trigramIndexCompressed
        r.trigramIndexUncompressedLength ∧
      Packed z none (Codec.u32.encodeAll t.postings) r.trigramPostingsCompressed
        r.trigramPostingsUncompressedLength ∧
      r.trigramIndexCapacity = t.capacity := by
  obtain ⟨t', ht', h⟩ := bind_ok h
  cases ht.symm.trans ht'
  have h := Except.ok.inj h
  obtain ⟨index, hindex, h⟩ := bind_ok h
  obtain ⟨postings, hpostings, h⟩ := bind_ok h
  cases h
  have hsmall : (Codec.u32.encodeAll t.postings).length < 2 ^ 32 := by
    rw [Codec.encodeAll_length, Codec.u32_width]
    omega
  have hlength : (UInt32.ofNat (t.totalPostingsCount * 4).toNat).toNat =
      (Codec.u32.encodeAll t.postings).length := by
    rw [postings_size ht, UInt32.toNat_ofNat', Nat.mod_eq_of_lt hsmall]
  rw [hlength] at hpostings
  refine ⟨⟨hindex, rfl⟩, ⟨hpostings, ?_⟩, rfl⟩
  apply UInt64.toNat_inj.mp
  change (UInt32.ofNat (t.totalPostingsCount * 4).toNat).toUInt64.toNat = _
  rw [UInt32.toNat_toUInt64, hlength, UInt64.toNat_ofNat', Nat.mod_eq_of_lt (by omega)]

/-- The results that the four builders return when none of them fails. -/
lemma buildTables_ok {withDict : Option z.CDict} {built : BuiltTables}
    (h : buildTables z order args withDict = .ok built) :
    buildFileTable z args.foundFiles withDict = .ok built.fileTable ∧
      buildPathTable z args.pathList withDict = .ok built.pathTable ∧
      buildSymbolIndex z args.symtable withDict = .ok built.symIndex ∧
      buildTrigramIndex z order args.symtable = .ok (.ok built.trigramIndex) := by
  rw [buildTables] at h
  split at h
  · cases h
  · rename_i trigramBuilt htrigram
    split at h
    · cases h
    · cases h
    · cases h
    · cases h
    · rename_i ft pt si tg hft hpt hsi
      cases h
      exact ⟨hft, hpt, hsi, htrigram⟩

end Built

section Image

variable (z : Zstd) (order : IterationOrder (TrigramCode × List UInt32)) (args : StoreArgs)

/-- Every offset and length that a database stores fits its 32-bit field. -/
structure Fits : Prop where
  image : ∀ built, buildTables z order args (withDictOf z args) = .ok built →
    (storedParts z args built).flatten.length < 2 ^ 32
  fileIndex : (fileTableCodec.encodeAll (fileEntries args.foundFiles)).length < 2 ^ 32
  fileNames : (args.foundFiles.map FileInfo.name).flatten.length < 2 ^ 32
  pathIndex : (pathIndexCodec.encodeAll (pathEntries args.pathList)).length < 2 ^ 32
  pathNames : args.pathList.flatten.length < 2 ^ 32
  symbolIndex : (symbolIndexCodec.encodeAll (symbolEntries args.symtable.entries)).length < 2 ^ 32
  symbolNames : (args.symtable.entries.map Prod.fst).flatten.length < 2 ^ 32
  symbolMetadata : (args.symtable.entries.map refsBytes).flatten.length < 2 ^ 32
  postings : ∀ t, buildTrigramTables order args.symtable.keys = .ok t →
    4 * t.postings.length < 2 ^ 32

instance decidableOnOk {ε α : Type} (r : Except ε α) (p : α → Prop) [DecidablePred p] :
    Decidable (∀ a, r = .ok a → p a) :=
  match r with
  | .error _ => isTrue (fun _ h => by cases h)
  | .ok a => decidable_of_iff (p a) ⟨fun h _ ha => by cases ha; exact h, fun h => h a rfl⟩

instance : Decidable (Fits z order args) :=
  decidable_of_iff
    ((∀ built, buildTables z order args (withDictOf z args) = .ok built →
        (storedParts z args built).flatten.length < 2 ^ 32) ∧
      (fileTableCodec.encodeAll (fileEntries args.foundFiles)).length < 2 ^ 32 ∧
      (args.foundFiles.map FileInfo.name).flatten.length < 2 ^ 32 ∧
      (pathIndexCodec.encodeAll (pathEntries args.pathList)).length < 2 ^ 32 ∧
      args.pathList.flatten.length < 2 ^ 32 ∧
      (symbolIndexCodec.encodeAll (symbolEntries args.symtable.entries)).length < 2 ^ 32 ∧
      (args.symtable.entries.map Prod.fst).flatten.length < 2 ^ 32 ∧
      (args.symtable.entries.map refsBytes).flatten.length < 2 ^ 32 ∧
      ∀ t, buildTrigramTables order args.symtable.keys = .ok t → 4 * t.postings.length < 2 ^ 32)
    ⟨fun ⟨a, b, c, d, e, f, g, h, i⟩ => ⟨a, b, c, d, e, f, g, h, i⟩,
      fun ⟨a, b, c, d, e, f, g, h, i⟩ => ⟨a, b, c, d, e, f, g, h, i⟩⟩

/-- The twelve parts of a complete database file. -/
def imageParts (built : BuiltTables) : List Bytes :=
  databaseHeaderCodec.encode (finalHeader z args built) :: args.conf.confBlock ::
    dictionaryOf z args :: blockParts built

variable {z order args}

lemma storeDb_failed {halt : Halt}
    (h : buildTables z order args (withDictOf z args) = .error halt) (disk : Disk) :
    (Writing.on (storeDb z order (.ok ()) args) disk).1 ≠ .ok () := by
  rcases hrun : Writing.on (storeDb z order (.ok ()) args) disk with ⟨r, disk'⟩
  rintro rfl
  rw [storeDb_eq_plan, h] at hrun
  obtain ⟨_, _, _, hrun⟩ := on_bind_ok hrun
  obtain ⟨_, _, _, hrun⟩ := on_bind_ok hrun
  obtain ⟨_, _, hbuilt, _⟩ := on_bind_ok hrun
  rw [on_result] at hbuilt
  cases hbuilt

/-- A run that returns true has built its tables and leaves their image. -/
theorem stored_image {opened : Except Nat Unit} {disk disk' : Disk} (fits : Fits z order args)
    (returned : Writing.on (storeDb z order opened args) disk = (.ok (), disk')) :
    ∃ built, buildTables z order args (withDictOf z args) = .ok built ∧
      disk'.file = (imageParts z args built).flatten := by
  cases opened with
  | error errno =>
    have hfails : Writing.on (storeDb z order (.error errno) args) disk =
        (.error (.failed (some (.systemAt errno args.conf.databasePath))), disk) := rfl
    rw [hfails] at returned
    cases returned
  | ok u =>
    cases hbuilt : buildTables z order args (withDictOf z args) with
    | error halt => exact absurd (congrArg Prod.fst returned) (storeDb_failed hbuilt disk)
    | ok built =>
      refine ⟨built, rfl, ?_⟩
      have outcome := storeDb_built z order args hbuilt (fits.image built hbuilt) disk
      rw [returned] at outcome
      have bounds := acceptAll_bounds disk.pending (runLengths z args built)
      cases hleft : (acceptAll disk.pending (runLengths z args built)).2 with
      | none => exact absurd rfl (outcome.halts hleft)
      | some rest =>
        have hall := bounds.1 rest hleft
        have hsum : (runLengths z args built).sum =
            (storedParts z args built).flatten.length + databaseHeaderCodec.width := by
          rw [runLengths, List.sum_append, sum_lengths, List.sum_singleton]
        have hfile : disk'.file = _ := outcome.file_eq
        rw [hfile, hall, hsum, imageAfter, List.take_of_length_le (by omega),
          Nat.add_sub_cancel_left, List.take_of_length_le (by rw [Codec.encode_length]),
          patch_front, Codec.encode_length]
        rw [storedParts, leadParts, imageParts, List.cons_append, List.flatten_cons,
          List.drop_left' (Codec.encode_length _ _)]
        rfl

end Image

section Blocks

variable {z : Zstd} {order : IterationOrder (TrigramCode × List UInt32)} {args : StoreArgs}
  {built : BuiltTables}

/-- The mapped file of a finished run. -/
def imageData (z : Zstd) (args : StoreArgs) (built : BuiltTables) : Bytes :=
  mappedPages (imageParts z args built).flatten

lemma mappedFileOpen_some (path : Bytes) {file : Bytes} (h : file.length ≠ 0) :
    mappedFileOpen path (.ok file) = .ok (mappedPages file) := if_neg h

/-- A reader asks no more of a header than its magic and its version. -/
lemma readHeader_marked {data : Bytes} {dbHdr : DatabaseHeader}
    (hdecode : databaseHeaderCodec.decode data = some dbHdr)
    (hmagic : dbHdr.magic = databaseHeaderMagic)
    (hversion : dbHdr.version = databaseHeaderVersionNumber) : readHeader data = .ok dbHdr := by
  rw [readHeader, hdecode]
  exact (if_neg (not_not_intro hmagic)).trans (if_neg (not_not_intro hversion))

/-- A finished file is not empty, so it can be mapped. -/
lemma image_mapped {z : Zstd} {args : StoreArgs} (built : BuiltTables) {path : Bytes} :
    mappedFileOpen path (.ok (imageParts z args built).flatten) =
      .ok (imageData z args built) := by
  have hnonempty : (imageParts z args built).flatten.length ≠ 0 := by
    rw [imageParts, List.flatten_cons, List.length_append, Codec.encode_length]
    have : databaseHeaderCodec.width = 220 := rfl
    omega
  exact mappedFileOpen_some path hnonempty

lemma image_length (z : Zstd) (args : StoreArgs) (built : BuiltTables) :
    (imageParts z args built).flatten.length = (storedParts z args built).flatten.length := by
  simp [imageParts, storedParts, leadParts]

lemma lead_length (z : Zstd) (args : StoreArgs) :
    (leadParts z args).flatten.length =
      databaseHeaderCodec.width + args.conf.confBlock.length + (dictionaryOf z args).length := by
  simp [leadParts, Nat.add_assoc]

lemma part_found (z : Zstd) (args : StoreArgs) (built : BuiltTables) {i : Nat}
    (h : i < (imageParts z args built).length) :
    bytesAt (imageData z args built) (offsetOf (imageParts z args built) i)
      (imageParts z args built)[i].length = .ok (imageParts z args built)[i] := by
  have hslice := slice_of_prefix (slice_flatten (imageParts z args built) h)
    (List.replicate ((pageSize - (imageParts z args built).flatten.length % pageSize) % pageSize) 0)
  rw [bytesAt, imageData, mappedPages, rangeAt_of_slice hslice]

lemma blockOffset_eq (z : Zstd) (args : StoreArgs) (built : BuiltTables) (i : Nat) :
    offsetOf (imageParts z args built) (i + 3) =
      (leadParts z args).flatten.length + offsetOf (blockParts built) i := by
  simp only [imageParts, offsetOf, List.take_succ_cons, List.flatten_cons, List.length_append,
    Codec.encode_length, lead_length]
  omega

variable (fits : Fits z order args)
  (hbuilt : buildTables z order args (withDictOf z args) = .ok built)

include fits hbuilt

lemma total_fits : (leadParts z args).flatten.length + (blockParts built).flatten.length <
    2 ^ 32 := by
  have := fits.image built hbuilt
  rwa [storedParts_length] at this

lemma tablesOffset_toNat : (tablesOffset z args).toNat = (leadParts z args).flatten.length := by
  have total := total_fits fits hbuilt
  exact tablesOffset_eq (by omega)

/-- The block at a place of the final header decompresses to the builder's input. -/
theorem block_readable {i : Nat} {input : Bytes} {size : UInt64} {cdict : Option z.CDict}
    {ddict : Option z.DDict} (hi : i < (blockParts built).length)
    (packed : Packed z cdict input (blockParts built)[i] size) (hinput : input.length < 2 ^ 32)
    (undoes : ∀ output capacity, z.compress cdict input = .ok output →
      input.length ≤ capacity → z.decompress ddict output capacity = .ok input) :
    decompressBlock z (imageData z args built)
      (blockHeaderAt (tablesOffset z args) (blockParts built) i size) ddict = .ok input := by
  have total := total_fits fits hbuilt
  have hle := offsetOf_le (blockParts built) i
  have hpos : i + 3 < (imageParts z args built).length := by simpa [imageParts] using hi
  have hpart : (imageParts z args built)[i + 3] = (blockParts built)[i] := rfl
  have hget : (blockParts built).getD i [] = (blockParts built)[i] := by
    rw [List.getD_eq_getElem?_getD, List.getElem?_eq_getElem hi, Option.getD_some]
  have hlen : (blockParts built)[i].length ≤ (blockParts built).flatten.length := by
    have := offsetOf_le (blockParts built) (i + 1)
    rw [offsetOf_succ _ hi] at this
    omega
  have hoffset : (partOffset (tablesOffset z args) (blockParts built) i).toNat =
      offsetOf (imageParts z args built) (i + 3) := by
    rw [partOffset_toNat _ _ _ (by rw [tablesOffset_toNat fits hbuilt]; omega),
      tablesOffset_toNat fits hbuilt, blockOffset_eq]
  have hlength : (UInt32.ofNat (blockParts built)[i].length).toNat =
      (blockParts built)[i].length := by
    rw [UInt32.toNat_ofNat', Nat.mod_eq_of_lt (by omega)]
  have hsize : (size.toUInt32).toNat = input.length := by
    rw [packed.size_eq, UInt64.toNat_toUInt32, UInt64.toNat_ofNat']
    omega
  have hcompressed := packed.compressed
  rw [compress_fits z cdict hinput] at hcompressed
  have hfound := part_found z args built hpos
  rw [hpart] at hfound
  have hundo := undoes _ _ hcompressed (Nat.le_refl _)
  simp only [decompressBlock, blockHeaderAt, hoffset, hget, hlength, hsize, hfound, bind,
    Except.bind, hundo]
  rfl

end Blocks

section Decompression

/-- The reader of a finished run: the builders' tables and blobs. -/
def storedReader (z : Zstd) (args : StoreArgs) (built : BuiltTables) (t : TrigramTables) :
    DatabaseReader where
  dbHdr := finalHeader z args built
  confBlock := confBlockView (finalHeader z args built)
  fileTableBuf := fileTableCodec.encodeAll (fileEntries args.foundFiles)
  fileNamesBuf := (args.foundFiles.map FileInfo.name).flatten
  filesCount := UInt32.ofNat args.foundFiles.length
  pathTableBuf := pathIndexCodec.encodeAll (pathEntries args.pathList)
  pathNamesBuf := args.pathList.flatten
  pathsCount := UInt32.ofNat args.pathList.length
  symbolIndexBuf := symbolIndexCodec.encodeAll (symbolEntries args.symtable.entries)
  symbolNamesBuf := (args.symtable.entries.map Prod.fst).flatten
  symbolMetadataBuf := (args.symtable.entries.map refsBytes).flatten
  symbolsCount := UInt32.ofNat args.symtable.entries.length
  trigramSlotsBuf := trigramSlotCodec.encodeAll t.slots
  trigramPostingsBuf := Codec.u32.encodeAll t.postings
  trigramCapacity := t.capacity.toUInt32

variable {z : Zstd} {order : IterationOrder (TrigramCode × List UInt32)} {args : StoreArgs}
  {built : BuiltTables} {t : TrigramTables}

lemma header_found : readHeader (imageData z args built) = .ok (finalHeader z args built) := by
  have hdecode : databaseHeaderCodec.decode (imageData z args built) =
      some (finalHeader z args built) := by
    rw [imageData, mappedPages, imageParts, List.flatten_cons, List.append_assoc]
    exact databaseHeaderCodec.decode_encode _ _
  exact readHeader_marked hdecode rfl rfl

/-- The dictionary that the reader takes from the file undoes the one that the writer used. -/
lemma dictionary_undoes (undoes : z.Undoes) {input output : Bytes} {capacity : Nat}
    (h : z.compress (withDictOf z args) input = .ok output) (hle : input.length ≤ capacity) :
    z.decompress (z.readerDictionary (dictionaryOf z args)) output capacity = .ok input := by
  cases hdict : args.dictBuilder with
  | none =>
    rw [withDictOf, hdict] at h
    rw [dictionaryOf, hdict]
    exact undoes.plain _ _ _ h hle
  | some b =>
    rw [withDictOf, hdict] at h
    rw [dictionaryOf, hdict]
    exact undoes.matching _ _ _ _ h hle

lemma slots_fit (ht : buildTrigramTables order args.symtable.keys = .ok t) :
    (trigramSlotCodec.encodeAll t.slots).length < 2 ^ 32 := by
  obtain ⟨k, t', _, hhi, ht', _, _, _, filled⟩ := build_filled order args.symtable.keys
  cases ht.symm.trans ht'
  have hsize : t.slots.length = 2 ^ k := filled.size
  have hle : 2 ^ k ≤ 2 ^ 25 := Nat.pow_le_pow_right (by omega) hhi
  rw [Codec.encodeAll_length, trigramSlotCodec_width, hsize]
  omega

variable (fits : Fits z order args)
  (hbuilt : buildTables z order args (withDictOf z args) = .ok built)

include fits hbuilt

lemma confBlock_range : (finalHeader z args built).confBlockOffset.toNat =
      databaseHeaderCodec.width ∧
    (finalHeader z args built).confBlockLength.toNat = args.conf.confBlock.length := by
  have total := total_fits fits hbuilt
  have hlead := lead_length z args
  have hone : offsetOf (leadParts z args) 1 = databaseHeaderCodec.width := by
    simp [leadParts, offsetOf]
  constructor
  · change (partOffset 0 (leadParts z args) 1).toUInt64.toNat = _
    rw [UInt32.toNat_toUInt64, partOffset_toNat _ _ _ (by rw [hone]; decide), hone]
    exact Nat.zero_add _
  · change (UInt64.ofNat args.conf.confBlock.length).toNat = _
    rw [UInt64.toNat_ofNat', Nat.mod_eq_of_lt (by omega)]

lemma dictionaryLength_toNat :
    (finalHeader z args built).zstdDictionaryLength.toNat = (dictionaryOf z args).length := by
  have total := total_fits fits hbuilt
  have hlead := lead_length z args
  change (UInt64.ofNat (dictionaryOf z args).length).toNat = _
  rw [UInt64.toNat_ofNat', Nat.mod_eq_of_lt (by omega)]

/-- Without a dictionary builder the offset stays zero. -/
lemma dictionaryOffset_toNat :
    (finalHeader z args built).zstdDictionaryOffset.toNat =
      if args.dictBuilder.isSome then databaseHeaderCodec.width + args.conf.confBlock.length
      else 0 := by
  have total := total_fits fits hbuilt
  have htwo : offsetOf (leadParts z args) 2 =
      databaseHeaderCodec.width + args.conf.confBlock.length := by
    simp [leadParts, offsetOf]
  have hle := offsetOf_le (leadParts z args) 2
  change (if args.dictBuilder.isSome then
    (partOffset 0 (leadParts z args) 2).toUInt64 else 0).toNat = _
  split
  · rw [UInt32.toNat_toUInt64, partOffset_toNat _ _ _ (by change 0 + _ < _; omega), htwo]
    exact Nat.zero_add _
  · rfl

lemma conf_found :
    (confBlockView (finalHeader z args built)).bytes (imageParts z args built).flatten =
      some args.conf.confBlock := by
  obtain ⟨hoffset, hlength⟩ := confBlock_range fits hbuilt
  have hone : 1 < (imageParts z args built).length := by simp [imageParts]
  have hstart : offsetOf (imageParts z args built) 1 = databaseHeaderCodec.width := by
    simp [imageParts, offsetOf]
  have hpart : (imageParts z args built)[1] = args.conf.confBlock := rfl
  have hslice := slice_flatten (imageParts z args built) hone
  rw [hpart, hstart] at hslice
  rw [View.bytes, confBlockView, hoffset, hlength]
  exact rangeAt_of_slice hslice

lemma dictionary_found :
    readZstdDictionary z (imageData z args built) (finalHeader z args built) =
      .ok (z.readerDictionary (dictionaryOf z args)) := by
  have hlength := dictionaryLength_toNat fits hbuilt
  have hpos : (finalHeader z args built).zstdDictionaryLength > 0 ↔
      (dictionaryOf z args).length > 0 := by
    rw [gt_iff_lt, UInt64.lt_iff_toNat_lt, hlength]
    rfl
  rw [readZstdDictionary, Zstd.readerDictionary]
  by_cases hdict : (dictionaryOf z args).length > 0
  · have hbuilder : args.dictBuilder.isSome := by
      cases hnone : args.dictBuilder with
      | none => simp [dictionaryOf, hnone] at hdict
      | some b => rfl
    have hin : 2 < (imageParts z args built).length := by simp [imageParts]
    have hstart : offsetOf (imageParts z args built) 2 =
        databaseHeaderCodec.width + args.conf.confBlock.length := by
      simp [imageParts, offsetOf]
    have hpart : (imageParts z args built)[2] = dictionaryOf z args := rfl
    have hfound := part_found z args built hin
    rw [hpart, hstart] at hfound
    rw [if_pos (hpos.mpr hdict), if_pos hdict, dictionaryOffset_toNat fits hbuilt,
      if_pos hbuilder, hlength, hfound]
    rfl
  · rw [if_neg (mt hpos.mp hdict), if_neg hdict]
    rfl

/-- Reading the image of a run gives back the buffers of its builders. -/
theorem decompress_stored (undoes : z.Undoes)
    (ht : buildTrigramTables order args.symtable.keys = .ok t) (conf : ConfigParser) :
    decompressDatabase z conf (imageData z args built) = .ok (storedReader z args built t) := by
  obtain ⟨hfile, hpath, hsym, htrigram⟩ := buildTables_ok hbuilt
  obtain ⟨fileIndex, fileNames⟩ := buildFileTable_ok hfile
  obtain ⟨pathIndex, pathNames⟩ := buildPathTable_ok hpath
  obtain ⟨symbolIndex, symbolNames, symbolMetadata⟩ := buildSymbolIndex_ok hsym
  obtain ⟨trigramIndex, trigramPostings, hcapacity⟩ :=
    buildTrigramIndex_ok ht (fits.postings t ht) htrigram
  have undo_plain : ∀ {input : Bytes} output capacity, z.compress none input = .ok output →
      input.length ≤ capacity → z.decompress none output capacity = .ok input :=
    fun output capacity => undoes.plain _ output capacity
  have undo_dict : ∀ {input : Bytes} output capacity,
      z.compress (withDictOf z args) input = .ok output → input.length ≤ capacity →
        z.decompress (z.readerDictionary (dictionaryOf z args)) output capacity = .ok input :=
    fun _ _ h hle => dictionary_undoes undoes h hle
  have hpostings : (Codec.u32.encodeAll t.postings).length < 2 ^ 32 := by
    have := fits.postings t ht
    rw [Codec.encodeAll_length, Codec.u32_width]
    omega
  have inside : ∀ {i}, i < 9 → i < (blockParts built).length := fun h => h
  have b₀ : decompressBlock z _ (finalHeader z args built).fileTableHdr.fileIndex none = _ :=
    block_readable fits hbuilt (inside (by decide)) fileIndex fits.fileIndex undo_plain
  have b₁ : decompressBlock z _ (finalHeader z args built).fileTableHdr.fileNames _ = _ :=
    block_readable fits hbuilt (inside (by decide)) fileNames fits.fileNames undo_dict
  have b₂ : decompressBlock z _ (finalHeader z args built).pathTableHdr.pathIndex none = _ :=
    block_readable fits hbuilt (inside (by decide)) pathIndex fits.pathIndex undo_plain
  have b₃ : decompressBlock z _ (finalHeader z args built).pathTableHdr.pathNames _ = _ :=
    block_readable fits hbuilt (inside (by decide)) pathNames fits.pathNames undo_dict
  have b₄ : decompressBlock z _ (finalHeader z args built).symIndexHdr.symbolIndex none = _ :=
    block_readable fits hbuilt (inside (by decide)) symbolIndex fits.symbolIndex undo_plain
  have b₅ : decompressBlock z _ (finalHeader z args built).symIndexHdr.symbolNames _ = _ :=
    block_readable fits hbuilt (inside (by decide)) symbolNames fits.symbolNames undo_dict
  have b₆ : decompressBlock z _ (finalHeader z args built).symIndexHdr.symbolMetadata none = _ :=
    block_readable fits hbuilt (inside (by decide)) symbolMetadata fits.symbolMetadata undo_plain
  have b₇ : decompressBlock z _ (finalHeader z args built).trigramIndexHdr.trigramIndex none = _ :=
    block_readable fits hbuilt (inside (by decide)) trigramIndex (slots_fit ht) undo_plain
  have b₈ : decompressBlock z _ (finalHeader z args built).trigramIndexHdr.trigramPostings none =
      _ :=
    block_readable fits hbuilt (inside (by decide)) trigramPostings hpostings undo_plain
  have hcap : (finalHeader z args built).trigramIndexHdr.trigramIndexCapacity = t.capacity :=
    hcapacity
  have hfiles : (fileEntries args.foundFiles).length = args.foundFiles.length :=
    locate_length _ _ _ _
  have hpaths : (pathEntries args.pathList).length = args.pathList.length := locate_length _ _ _ _
  have hsymbols : (symbolEntries args.symtable.entries).length = args.symtable.entries.length :=
    locate_length _ _ _ _
  have hview : (confBlockView (finalHeader z args built)).bytes (imageData z args built) =
      some args.conf.confBlock := rangeAt_append (conf_found fits hbuilt) _
  simp only [decompressDatabase, readTables, header_found, readConfBlock_of_view hview,
    dictionary_found fits hbuilt, b₀, b₁, b₂, b₃, b₄, b₅, b₆, b₇, b₈, hcap, bind, Except.bind]
  rw [Codec.encodeAll_count _ (by decide), Codec.encodeAll_count _ (by decide),
    Codec.encodeAll_count _ (by decide), hfiles, hpaths, hsymbols]
  rfl

end Decompression

section Decoding

def decodeFile (r : DatabaseReader) (i : Nat) : Option FileInfo := do
  let entry ← fileTableCodec.entryAt r.fileTableBuf i
  let name ← slice r.fileNamesBuf entry.nameOffset.toNat entry.nameLength.toNat
  pure ⟨name, entry.pathId⟩

def decodePath (r : DatabaseReader) (i : Nat) : Option Bytes := do
  let entry ← pathIndexCodec.entryAt r.pathTableBuf i
  slice r.pathNamesBuf entry.nameOffset.toNat entry.nameLength.toNat

def decodeSymbol (r : DatabaseReader) (i : Nat) : Option (SymbolName × SymbolRefs) := do
  let entry ← symbolIndexCodec.entryAt r.symbolIndexBuf i
  let name ← slice r.symbolNamesBuf entry.nameOffset.toNat entry.nameLength.toNat
  let refs ← symbolRefCodec.readMany (r.symbolMetadataBuf.drop entry.metadataOffset.toNat) 0
    (entry.metadataLength.toNat / symbolRefCodec.width)
  pure (name, refs)

def decodeFiles (r : DatabaseReader) : Option (List FileInfo) :=
  (List.range r.filesCount.toNat).mapM (decodeFile r)

def decodePaths (r : DatabaseReader) : Option (List Bytes) :=
  (List.range r.pathsCount.toNat).mapM (decodePath r)

def decodeSymbols (r : DatabaseReader) : Option (List (SymbolName × SymbolRefs)) :=
  (List.range r.symbolsCount.toNat).mapM (decodeSymbol r)

variable {z : Zstd} {order : IterationOrder (TrigramCode × List UInt32)} {args : StoreArgs}
  {built : BuiltTables} {t : TrigramTables}

lemma toNat_of_lt {n : Nat} (h : n < 2 ^ 32) : (UInt32.ofNat n).toNat = n := by
  rw [UInt32.toNat_ofNat', Nat.mod_eq_of_lt h]

/-- A part of a small blob is found through its 32-bit offset and length. -/
lemma part_of_blob {parts : List Bytes} (small : parts.flatten.length < 2 ^ 32) {i : Nat}
    (h : i < parts.length) :
    slice parts.flatten (UInt32.ofNat (offsetOf parts i)).toNat
      (UInt32.ofNat parts[i].length).toNat = some parts[i] := by
  have hoff := offsetOf_le parts i
  have hnext := offsetOf_le parts (i + 1)
  rw [offsetOf_succ parts h] at hnext
  rw [toNat_of_lt (by omega), toNat_of_lt (by omega)]
  exact slice_flatten parts h

variable (fits : Fits z order args)
include fits

variable (built t)

lemma file_entry {i : Nat} (h : i < args.foundFiles.length) :
    fileTableCodec.entryAt (storedReader z args built t).fileTableBuf i =
        some (fileEntry args.foundFiles[i]
          (UInt32.ofNat (offsetOf (args.foundFiles.map FileInfo.name) i))) ∧
      slice (storedReader z args built t).fileNamesBuf
        (UInt32.ofNat (offsetOf (args.foundFiles.map FileInfo.name) i)).toNat
        (UInt32.ofNat args.foundFiles[i].name.length).toNat = some args.foundFiles[i].name := by
  have hentries : i < (fileEntries args.foundFiles).length := by
    rw [fileEntries, locate_length]
    exact h
  have hnames : i < (args.foundFiles.map FileInfo.name).length := by simpa using h
  constructor
  · rw [storedReader, Codec.entryAt_encodeAll _ _ hentries, fileEntries_getElem _ h]
  · have hslice := part_of_blob fits.fileNames hnames
    rw [List.getElem_map] at hslice
    exact hslice

lemma path_entry {i : Nat} (h : i < args.pathList.length) :
    pathIndexCodec.entryAt (storedReader z args built t).pathTableBuf i =
        some (pathEntry args.pathList[i] (UInt32.ofNat (offsetOf args.pathList i))) ∧
      slice (storedReader z args built t).pathNamesBuf
        (UInt32.ofNat (offsetOf args.pathList i)).toNat
        (UInt32.ofNat args.pathList[i].length).toNat = some args.pathList[i] := by
  have hentries : i < (pathEntries args.pathList).length := by
    rw [pathEntries, locate_length]
    exact h
  constructor
  · rw [storedReader, Codec.entryAt_encodeAll _ _ hentries, pathEntries_getElem _ h]
  · exact part_of_blob fits.pathNames h

/-- The entry of a symbol, its name, and its references one by one. -/
lemma symbol_entry {i : Nat} (h : i < args.symtable.entries.length) :
    ∃ entry, symbolIndexCodec.entryAt (storedReader z args built t).symbolIndexBuf i =
        some entry ∧
      slice (storedReader z args built t).symbolNamesBuf entry.nameOffset.toNat
        entry.nameLength.toNat = some args.symtable.entries[i].1 ∧
      entry.metadataLength.toNat / symbolRefCodec.width =
        args.symtable.entries[i].2.length ∧
      ∀ j (hj : j < args.symtable.entries[i].2.length),
        symbolRefCodec.entryAt ((storedReader z args built t).symbolMetadataBuf.drop
          entry.metadataOffset.toNat) j = some args.symtable.entries[i].2[j] := by
  have hentries : i < (symbolEntries args.symtable.entries).length := by
    rw [symbolEntries, locate_length]
    exact h
  have hnames : i < (args.symtable.entries.map Prod.fst).length := by simpa using h
  have hrefs : i < (args.symtable.entries.map refsBytes).length := by simpa using h
  have hget : (args.symtable.entries.map refsBytes)[i] =
      symbolRefCodec.encodeAll args.symtable.entries[i].2 := by
    rw [List.getElem_map, refsBytes]
  have hoff := offsetOf_le (args.symtable.entries.map refsBytes) i
  have hnext := offsetOf_le (args.symtable.entries.map refsBytes) (i + 1)
  rw [offsetOf_succ _ hrefs, hget] at hnext
  have small := fits.symbolMetadata
  refine ⟨_, Codec.entryAt_encodeAll _ _ hentries, ?_⟩
  rw [symbolEntries_getElem _ h]
  refine ⟨?_, ?_, ?_⟩
  · have hslice := part_of_blob fits.symbolNames hnames
    rw [List.getElem_map] at hslice
    exact hslice
  · change (UInt32.ofNat (symbolRefCodec.encodeAll _).length).toNat / _ = _
    rw [toNat_of_lt (by omega), Codec.encodeAll_count _ (by decide)]
  · intro j hj
    change symbolRefCodec.entryAt ((args.symtable.entries.map refsBytes).flatten.drop
      (UInt32.ofNat (offsetOf (args.symtable.entries.map refsBytes) i)).toNat) j = _
    rw [toNat_of_lt (by omega), drop_offsetOf _ hrefs, hget]
    exact Codec.entryAt_append _ _ _ hj

variable {built t}

lemma small_of_fits : args.foundFiles.length < 2 ^ 32 := by
  have small := fits.fileIndex
  rw [Codec.encodeAll_length, fileEntries, locate_length, fileTableCodec_width] at small
  omega

lemma filesCount_toNat :
    (storedReader z args built t).filesCount.toNat = args.foundFiles.length :=
  toNat_of_lt (small_of_fits fits)

lemma pathsCount_toNat :
    (storedReader z args built t).pathsCount.toNat = args.pathList.length := by
  have small := fits.pathIndex
  rw [Codec.encodeAll_length, pathEntries, locate_length, pathIndexCodec_width] at small
  exact toNat_of_lt (by omega)

lemma symbolsCount_toNat :
    (storedReader z args built t).symbolsCount.toNat = args.symtable.entries.length := by
  have small := fits.symbolIndex
  rw [Codec.encodeAll_length, symbolEntries, locate_length, symbolIndexCodec_width] at small
  exact toNat_of_lt (by omega)

theorem decodeFiles_stored :
    decodeFiles (storedReader z args built t) = some args.foundFiles := by
  rw [decodeFiles, filesCount_toNat fits]
  apply Codec.mapM_range
  intro i hi
  obtain ⟨hentry, hname⟩ := file_entry built t fits hi
  simp only [decodeFile, hentry, fileEntry, Option.bind_eq_bind, Option.bind_some, hname]
  rfl

theorem decodePaths_stored : decodePaths (storedReader z args built t) = some args.pathList := by
  rw [decodePaths, pathsCount_toNat fits]
  apply Codec.mapM_range
  intro i hi
  obtain ⟨hentry, hname⟩ := path_entry built t fits hi
  simp only [decodePath, hentry, pathEntry, Option.bind_eq_bind, Option.bind_some, hname]

theorem decodeSymbols_stored :
    decodeSymbols (storedReader z args built t) = some args.symtable.entries := by
  rw [decodeSymbols, symbolsCount_toNat fits]
  apply Codec.mapM_range
  intro i hi
  obtain ⟨entry, hentry, hname, hcount, hrefs⟩ := symbol_entry built t fits hi
  have hread : symbolRefCodec.readMany
      ((storedReader z args built t).symbolMetadataBuf.drop entry.metadataOffset.toNat) 0
      (entry.metadataLength.toNat / symbolRefCodec.width) =
        some args.symtable.entries[i].2 := by
    rw [hcount]
    apply Codec.mapM_range
    intro j hj
    rw [Nat.zero_add]
    exact hrefs j hj
  simp only [decodeSymbol, hentry, Option.bind_eq_bind, Option.bind_some, hname, hread]
  rfl

end Decoding

section Ranges

def blockHeaders (hdr : DatabaseHeader) : List BlockHeader :=
  [hdr.fileTableHdr.fileIndex, hdr.fileTableHdr.fileNames,
    hdr.pathTableHdr.pathIndex, hdr.pathTableHdr.pathNames,
    hdr.symIndexHdr.symbolIndex, hdr.symIndexHdr.symbolNames, hdr.symIndexHdr.symbolMetadata,
    hdr.trigramIndexHdr.trigramIndex, hdr.trigramIndexHdr.trigramPostings]

/-- Offset and length of the header, the configuration, the dictionary and the nine blocks. -/
def headerRanges (hdr : DatabaseHeader) : List (Nat × Nat) :=
  (0, databaseHeaderCodec.width) ::
    (hdr.confBlockOffset.toNat, hdr.confBlockLength.toNat) ::
    (hdr.zstdDictionaryOffset.toNat, hdr.zstdDictionaryLength.toNat) ::
    (blockHeaders hdr).map (fun b => (b.compressedOffset.toNat, b.compressedLength.toNat))

variable {z : Zstd} {order : IterationOrder (TrigramCode × List UInt32)} {args : StoreArgs}
  {built : BuiltTables} (fits : Fits z order args)
  (hbuilt : buildTables z order args (withDictOf z args) = .ok built)
include fits hbuilt

lemma blockRanges_eq :
    (blockHeaders (finalHeader z args built)).map
        (fun b => (b.compressedOffset.toNat, b.compressedLength.toNat)) =
      rangesFrom (leadParts z args).flatten.length (blockParts built) := by
  have total := total_fits fits hbuilt
  have hunfold : (blockHeaders (finalHeader z args built)).map
      (fun b => (b.compressedOffset.toNat, b.compressedLength.toNat)) =
      (List.range (blockParts built).length).map (fun i =>
        ((partOffset (tablesOffset z args) (blockParts built) i).toNat,
          (UInt32.ofNat ((blockParts built).getD i []).length).toNat)) := rfl
  rw [hunfold, rangesFrom_eq_map]
  apply List.map_congr_left
  intro i hi
  have hlt := List.mem_range.mp hi
  have hoff := offsetOf_le (blockParts built) i
  have hnext := offsetOf_le (blockParts built) (i + 1)
  rw [offsetOf_succ _ hlt] at hnext
  rw [partOffset_toNat _ _ _ (by rw [tablesOffset_toNat fits hbuilt]; omega),
    tablesOffset_toNat fits hbuilt, List.getD_eq_getElem?_getD, List.getElem?_eq_getElem hlt,
    Option.getD_some, toNat_of_lt (by omega)]

/-- The ranges of a finished run are disjoint and leave no byte of the file out. -/
theorem ranges_tile :
    Tiles (headerRanges (finalHeader z args built)) 0 (imageParts z args built).flatten.length := by
  obtain ⟨hoffset, hlength⟩ := confBlock_range fits hbuilt
  have hlead := lead_length z args
  rw [headerRanges, hoffset, hlength, dictionaryLength_toNat fits hbuilt,
    dictionaryOffset_toNat fits hbuilt, blockRanges_eq fits hbuilt]
  have tiles := tiles_rangesFrom 0 (imageParts z args built)
  rw [Nat.zero_add] at tiles
  cases hdict : args.dictBuilder with
  | some b =>
    simp only [imageParts, rangesFrom, Codec.encode_length, Nat.zero_add] at tiles
    rw [← hlead] at tiles
    exact tiles
  | none =>
    -- the range (0, 0) of the absent dictionary is empty
    have hnil : dictionaryOf z args = [] := by rw [dictionaryOf, hdict]
    rw [hnil, List.length_nil, Nat.add_zero] at hlead
    have short := tiles_rangesFrom 0 ([databaseHeaderCodec.encode (finalHeader z args built),
      args.conf.confBlock] ++ blockParts built)
    have hsame : ([databaseHeaderCodec.encode (finalHeader z args built),
        args.conf.confBlock] ++ blockParts built).flatten = (imageParts z args built).flatten := by
      rw [imageParts, hnil]
      rfl
    rw [hsame, rangesFrom_append, Nat.zero_add] at short
    have padded := tiles_insert_empty short (Nat.le_refl 0) (Nat.zero_le _)
    simp only [rangesFrom, Codec.encode_length, Nat.zero_add, List.flatten_cons,
      List.flatten_nil, List.append_nil, List.length_append, List.cons_append,
      List.nil_append] at padded
    rw [hlead, hnil]
    exact padded

end Ranges

section RoundTrip

/-- Everything that a reader finds in a file agrees with what was handed to the run. -/
structure ReadsBack (order : IterationOrder (TrigramCode × List UInt32)) (args : StoreArgs)
    (file : Bytes) (r : DatabaseReader) : Prop where
  conf : r.confBlock.bytes file = some args.conf.confBlock
  files : decodeFiles r = some args.foundFiles
  paths : decodePaths r = some args.pathList
  symbols : decodeSymbols r = some args.symtable.entries
  trigrams : ∃ t, buildTrigramTables order args.symtable.keys = .ok t ∧
    r.trigramSlotsBuf = trigramSlotCodec.encodeAll t.slots ∧
    r.trigramPostingsBuf = Codec.u32.encodeAll t.postings ∧
    r.trigramCapacity = t.capacity.toUInt32
  ranges : Tiles (headerRanges r.dbHdr) 0 file.length

/-- A run that returns true leaves a file from which everything is read back, under any
configuration of the reader. -/
theorem database_round_trip (z : Zstd) (undoes : z.Undoes)
    (order : IterationOrder (TrigramCode × List UInt32)) (args : StoreArgs)
    (fits : Fits z order args) (opened : Except Nat Unit) (disk disk' : Disk)
    (returned : Writing.on (storeDb z order opened args) disk = (.ok (), disk')) :
    ∃ data r, mappedFileOpen args.conf.databasePath (.ok disk'.file) = .ok data ∧
      (∀ conf, decompressDatabase z conf data = .ok r) ∧
      ReadsBack order args disk'.file r := by
  obtain ⟨built, hbuilt, hfile⟩ := stored_image fits returned
  obtain ⟨k, t, _, _, ht, _⟩ := build_filled order args.symtable.keys
  refine ⟨imageData z args built, storedReader z args built t, ?_,
    decompress_stored fits hbuilt undoes ht, ?_⟩
  · rw [hfile]
    exact image_mapped built
  · constructor
    · rw [hfile]
      exact conf_found fits hbuilt
    · exact decodeFiles_stored fits
    · exact decodePaths_stored fits
    · exact decodeSymbols_stored fits
    · exact ⟨t, ht, rfl, rfl, rfl⟩
    · rw [hfile]
      exact ranges_tile fits hbuilt

/-- Two files, three symbols of which two differ in case only, and a raw dictionary. -/
def sampleArgs : StoreArgs where
  foundFiles := [⟨text "libc.so", 0⟩, ⟨text "crt1.o", 1⟩]
  pathList := [text "/lib/", text "/usr/lib"]
  conf := { ConfigParser.new with confBlock := text "prune_bind_mounts" }
  symtable := record
    [(text "memcpy", ⟨0, ⟨true, .symtab, .func, .global, .default, 0⟩⟩),
      (text "main", ⟨1, ⟨true, .symtab, .func, .global, .default, 0⟩⟩),
      (text "MEMCPY", ⟨1, ⟨true, .dynsym, .func, .weak, .default, 0⟩⟩),
      (text "memcpy", ⟨1, ⟨false, .dynsym, .func, .global, .hidden, 0⟩⟩)]
  dictBuilder := some ⟨text "libc.so", [7], 16⟩

/-- A kernel that stores at most 300 bytes a call and interrupts once. -/
def sampleDisk : Disk where
  file := text "stale"
  pending := .stored 9 :: .failed eintr :: List.replicate 20 (.stored 299)
  lastErrno := 0

lemma sample_fits : Fits Zstd.stored (IterationOrder.insertion _) sampleArgs := by
  decide +kernel

lemma sample_returned : ∃ disk', Writing.on
    (storeDb Zstd.stored (IterationOrder.insertion _) (.ok ()) sampleArgs) sampleDisk =
      (.ok (), disk') := by
  have hok : (Writing.on (storeDb Zstd.stored (IterationOrder.insertion _) (.ok ()) sampleArgs)
      sampleDisk).1.isOk = true := by decide +kernel
  rcases hrun : Writing.on (storeDb Zstd.stored (IterationOrder.insertion _) (.ok ()) sampleArgs)
    sampleDisk with ⟨halt | u, disk'⟩
  · rw [hrun] at hok
    cases hok
  · exact ⟨disk', rfl⟩

theorem database_round_trip_sample :
    ∃ disk' data r,
      Writing.on (storeDb Zstd.stored (IterationOrder.insertion _) (.ok ()) sampleArgs)
        sampleDisk = (.ok (), disk') ∧
      mappedFileOpen sampleArgs.conf.databasePath (.ok disk'.file) = .ok data ∧
      (∀ conf, decompressDatabase Zstd.stored conf data = .ok r) ∧
      ReadsBack (IterationOrder.insertion _) sampleArgs disk'.file r := by
  obtain ⟨disk', hrun⟩ := sample_returned
  obtain ⟨data, r, found⟩ := database_round_trip Zstd.stored Zstd.stored_undoes
    (IterationOrder.insertion _) sampleArgs sample_fits (.ok ()) sampleDisk disk' hrun
  exact ⟨disk', data, r, hrun, found⟩

end RoundTrip
end DatabaseRoundTrip
