import SymFind.Config.ConfigParser
import SymFind.Database.DatabaseBlocks

/-!
# Reading a database file

The reader maps the file, checks the header, decompresses the nine blocks and
answers a query: the trigrams of the name give candidates, whose references are
resolved through the tables. An access outside a buffer is a fault; everything
else that goes wrong is a message.
-/
namespace DatabaseReading
open RecordCodec InsertionMap Machine SymbolData TrigramCodes DatabaseLayout TrigramTable
open Compression DatabaseBlocks Config

/-- `failed` stands for a false or empty return value with its message. -/
inductive ReadStop where
  | crashed (fault : Fault)
  | failed (errMsg : DbError)
  deriving DecidableEq

abbrev Reading := Except ReadStop

/-- A range of a buffer; of an empty range no byte is read, wherever it begins. -/
def rangeAt (data : Bytes) (offset length : Nat) : Option Bytes :=
  if length = 0 then some [] else slice data offset length

def bytesAt (data : Bytes) (offset length : Nat) : Reading Bytes :=
  match rangeAt data offset length with
  | some bs => .ok bs
  | none => .error (.crashed .outOfBounds)

def recordAt {α : Type} (c : Codec α) (data : Bytes) (i : Nat) : Reading α :=
  match c.entryAt data i with
  | some a => .ok a
  | none => .error (.crashed .outOfBounds)

def pageSize : Nat := 4096

/-- What `mmap` shows of a file: its bytes, and zeros up to the end of the last page. -/
def mappedPages (file : Bytes) : Bytes :=
  file ++ List.replicate ((pageSize - file.length % pageSize) % pageSize) 0

def einval : Nat := 22

def mappedFileOpen (path : Bytes) (file : Except Nat Bytes) : Reading Bytes :=
  match file with
  | .error errno => .error (.failed (.systemAt errno path))
  | .ok bytes =>
    if bytes.length = 0 then .error (.failed (.mmapFailed einval)) else .ok (mappedPages bytes)

def readHeader (data : Bytes) : Reading DatabaseHeader :=
  match databaseHeaderCodec.decode data with
  | none => .error (.crashed .outOfBounds)
  | some dbHdr =>
    if dbHdr.magic ≠ databaseHeaderMagic then
      .error (.failed (.text (text "DatabaseReader: Bad magic!")))
    else if dbHdr.version ≠ databaseHeaderVersionNumber then
      .error (.failed (.text (text "DatabaseReader: Bad version!")))
    else .ok dbHdr

lemma rangeAt_of_slice {data : Bytes} {offset length : Nat} {bs : Bytes}
    (h : slice data offset length = some bs) : rangeAt data offset length = some bs := by
  rw [rangeAt]
  split
  next hzero =>
    subst hzero
    rw [slice] at h
    split at h
    · rwa [List.take_zero] at h
    · cases h
  next => exact h

lemma rangeAt_append {data : Bytes} {offset length : Nat} {bs : Bytes}
    (h : rangeAt data offset length = some bs) (rest : Bytes) :
    rangeAt (data ++ rest) offset length = some bs := by
  rw [rangeAt] at h ⊢
  split at h
  next hzero => rwa [if_pos hzero]
  next hsome => rw [if_neg hsome, slice_of_prefix h rest]

lemma rangeAt_length {data : Bytes} {offset length : Nat} {bs : Bytes}
    (h : rangeAt data offset length = some bs) : bs.length = length := by
  rw [rangeAt] at h
  split at h
  next hzero =>
    cases h
    exact hzero.symm
  next =>
    rw [slice] at h
    split at h
    · cases h
      rw [List.length_take, List.length_drop]
      omega
    · cases h

/-- A `string_view` of the mapping: making it reads nothing, and it may reach out of the mapping. -/
structure View where
  offset : Nat
  length : Nat
  deriving DecidableEq

def View.bytes (view : View) (data : Bytes) : Option Bytes :=
  rangeAt data view.offset view.length

def confBlockView (dbHdr : DatabaseHeader) : View :=
  ⟨dbHdr.confBlockOffset.toNat, dbHdr.confBlockLength.toNat⟩

/-- Whether the change of the configuration is reported. Bytes are compared only if the sizes
agree. -/
def readConfBlock (data : Bytes) (dbHdr : DatabaseHeader) (conf : ConfigParser) : Reading Bool :=
  if dbHdr.confBlockLength.toNat ≠ conf.confBlock.length then .ok true
  else do
    let confBlock ← bytesAt data dbHdr.confBlockOffset.toNat dbHdr.confBlockLength.toNat
    pure (confBlock != conf.confBlock)

/-- Where the view lies in the mapping, the block in it is compared. -/
lemma readConfBlock_of_view {data : Bytes} {dbHdr : DatabaseHeader} {confBlock : Bytes}
    (view : (confBlockView dbHdr).bytes data = some confBlock) (conf : ConfigParser) :
    readConfBlock data dbHdr conf = .ok (confBlock != conf.confBlock) := by
  have hlength : confBlock.length = dbHdr.confBlockLength.toNat := rangeAt_length view
  rw [readConfBlock, ← hlength]
  split
  next hother =>
    have hne : confBlock ≠ conf.confBlock := fun heq => hother (heq ▸ rfl)
    rw [bne_iff_ne.mpr hne]
  next =>
    rw [View.bytes, confBlockView, ← hlength] at view
    rw [bytesAt, view]
    rfl

def readZstdDictionary (z : Zstd) (data : Bytes) (dbHdr : DatabaseHeader) :
    Reading (Option z.DDict) :=
  if dbHdr.zstdDictionaryLength > 0 then do
    let dictionary ← bytesAt data dbHdr.zstdDictionaryOffset.toNat dbHdr.zstdDictionaryLength.toNat
    pure (z.createDDict dictionary)
  else pure none

def decompressBlock (z : Zstd) (data : Bytes) (hdr : BlockHeader) (ddict : Option z.DDict) :
    Reading Bytes := do
  let input ← bytesAt data hdr.compressedOffset.toNat hdr.compressedLength.toNat
  match z.decompress ddict input hdr.uncompressedLength.toNat with
  | .ok output => pure output
  | .error errorName => throw (.failed (.zstd errorName))

structure DatabaseReader where
  dbHdr : DatabaseHeader
  confBlock : View
  fileTableBuf : Bytes
  fileNamesBuf : Bytes
  filesCount : UInt32
  pathTableBuf : Bytes
  pathNamesBuf : Bytes
  pathsCount : UInt32
  symbolIndexBuf : Bytes
  symbolNamesBuf : Bytes
  symbolMetadataBuf : Bytes
  symbolsCount : UInt32
  trigramSlotsBuf : Bytes
  trigramPostingsBuf : Bytes
  trigramCapacity : UInt32

/-- What `decompress_database` does behind `read_header`. -/
def readTables (z : Zstd) (conf : ConfigParser) (data : Bytes) (dbHdr : DatabaseHeader) :
    Reading DatabaseReader := do
  let _ ← readConfBlock data dbHdr conf
  let withDict ← readZstdDictionary z data dbHdr
  let fileTableBuf ← decompressBlock z data dbHdr.fileTableHdr.fileIndex none
  let fileNamesBuf ← decompressBlock z data dbHdr.fileTableHdr.fileNames withDict
  let pathTableBuf ← decompressBlock z data dbHdr.pathTableHdr.pathIndex none
  let pathNamesBuf ← decompressBlock z data dbHdr.pathTableHdr.pathNames withDict
  let symbolIndexBuf ← decompressBlock z data dbHdr.symIndexHdr.symbolIndex none
  let symbolNamesBuf ← decompressBlock z data dbHdr.symIndexHdr.symbolNames withDict
  let symbolMetadataBuf ← decompressBlock z data dbHdr.symIndexHdr.symbolMetadata none
  let trigramSlotsBuf ← decompressBlock z data dbHdr.trigramIndexHdr.trigramIndex none
  let trigramPostingsBuf ← decompressBlock z data dbHdr.trigramIndexHdr.trigramPostings none
  pure { dbHdr, confBlock := confBlockView dbHdr, fileTableBuf, fileNamesBuf
         filesCount := UInt32.ofNat (fileTableBuf.length / fileTableCodec.width)
         pathTableBuf, pathNamesBuf
         pathsCount := UInt32.ofNat (pathTableBuf.length / pathIndexCodec.width)
         symbolIndexBuf, symbolNamesBuf, symbolMetadataBuf
         symbolsCount := UInt32.ofNat (symbolIndexBuf.length / symbolIndexCodec.width)
         trigramSlotsBuf, trigramPostingsBuf
         trigramCapacity := dbHdr.trigramIndexHdr.trigramIndexCapacity.toUInt32 }

def decompressDatabase (z : Zstd) (conf : ConfigParser) (data : Bytes) :
    Reading DatabaseReader := do
  let dbHdr ← readHeader data
  readTables z conf data dbHdr

structure FileReference where
  fullPath : Bytes
  metadata : SymbolMetaData
  deriving DecidableEq

structure SymbolLookupResult where
  symbolName : Bytes
  references : List FileReference
  deriving DecidableEq

abbrev IgnoreEntryCallback := Bytes → SymbolMetaData → Bool

/-- A loop whose passes may skip their element. -/
def collect {α β : Type} (f : α → Reading (Option β)) : List α → Reading (List β)
  | [] => pure []
  | a :: rest => do
    let b ← f a
    let bs ← collect f rest
    pure (b.toList ++ bs)

/-- A non-empty directory name gets a `/` if it does not end in one. -/
def directoryPrefix (pathName : Bytes) : Bytes :=
  if pathName ≠ [] ∧ pathName.getLast? ≠ some 0x2F then pathName ++ [0x2F] else pathName

/-- The first field of a stored reference; the others may lie outside the buffer. -/
def refFileId (refs : Bytes) (i : Nat) : Reading UInt32 :=
  match Codec.u32.decode (refs.drop (i * symbolRefCodec.width)) with
  | some fileId => .ok fileId
  | none => .error (.crashed .outOfBounds)

lemma refFileId_of_entry {refs : Bytes} {i : Nat} {ref : SymbolRef}
    (h : symbolRefCodec.entryAt refs i = some ref) : refFileId refs i = .ok ref.fileId := by
  obtain ⟨fields, hfields, rfl⟩ := Option.map_eq_some_iff.mp h
  rw [refFileId, Codec.decode_pair_fst hfields]

namespace DatabaseReader

/-- Counts, per symbol id, the query's trigrams that the id is listed under. -/
def countMatches (r : DatabaseReader) (fuel : Nat) :
    Map UInt32 UInt32 → List TrigramCode → Reading (Map UInt32 UInt32)
  | counts, [] => pure counts
  | counts, code :: rest =>
    match lookupIds fuel r.trigramSlotsBuf r.trigramPostingsBuf r.trigramCapacity code with
    | .error fault => .error (.crashed fault)
    | .ok ids => countMatches r fuel (ids.foldl (fun m id => m.upsert id 0 (· + 1)) counts) rest

def directoryOf (r : DatabaseReader) (pathId : UInt32) : Reading Bytes :=
  if pathId < r.pathsCount then do
    let pathEntry ← recordAt pathIndexCodec r.pathTableBuf pathId.toNat
    let pathName ← bytesAt r.pathNamesBuf pathEntry.nameOffset.toNat pathEntry.nameLength.toNat
    pure (directoryPrefix pathName)
  else pure []

/-- A reference to a file of the table. -/
def resolveReference (r : DatabaseReader) (ignoreEntry : IgnoreEntryCallback) (name : Bytes)
    (ref : SymbolRef) : Reading (Option FileReference) :=
  if ignoreEntry name ref.metadata then pure none
  else do
    let fileEntry ← recordAt fileTableCodec r.fileTableBuf ref.fileId.toNat
    let fileName ← bytesAt r.fileNamesBuf fileEntry.nameOffset.toNat fileEntry.nameLength.toNat
    let directory ← r.directoryOf fileEntry.pathId
    pure (some ⟨directory ++ fileName, ref.metadata⟩)

/-- One pass of the loop over a candidate's references. -/
def resolveRef (r : DatabaseReader) (ignoreEntry : IgnoreEntryCallback) (name refs : Bytes)
    (i : Nat) : Reading (Option FileReference) := do
  let fileId ← refFileId refs i
  if fileId ≥ r.filesCount then pure none
  else
    let ref ← recordAt symbolRefCodec refs i
    r.resolveReference ignoreEntry name ref

/-- One pass of step 3. The name is not compared with the query: that test is commented out. -/
def resolveCandidate (r : DatabaseReader) (ignoreEntry : IgnoreEntryCallback) (symId : UInt32) :
    Reading (Option SymbolLookupResult) :=
  if symId ≥ r.symbolsCount then pure none
  else do
    let entry ← recordAt symbolIndexCodec r.symbolIndexBuf symId.toNat
    let name ← bytesAt r.symbolNamesBuf entry.nameOffset.toNat entry.nameLength.toNat
    let refs := r.symbolMetadataBuf.drop entry.metadataOffset.toNat
    let refCount := entry.metadataLength.toNat / symbolRefCodec.width
    let references ← collect (r.resolveRef ignoreEntry name refs) (List.range refCount)
    pure (some ⟨name, references⟩)

/-- Steps 1 to 3 of `find_symbol_references` on an opened database. -/
def find (r : DatabaseReader) (order : IterationOrder (UInt32 × UInt32)) (fuel : Nat)
    (symbolName : Bytes) (ignoreEntry : IgnoreEntryCallback) :
    Reading (List SymbolLookupResult) := do
  let foundTrigrams := distinctTrigrams symbolName
  if foundTrigrams = [] then
    throw (.failed (.text (text "DatabaseReader: Couldn't find trigram for \"" ++ symbolName ++
      text "\"")))
  let matchCounts ← r.countMatches fuel Map.empty foundTrigrams
  let candidateIds := (order.arrange matchCounts.entries).filterMap (fun (symId, shared) =>
    if shared.toNat = foundTrigrams.length then some symId else none)
  if candidateIds = [] then throw (.failed (.text (text "DatabaseReader: Symbol not found")))
  let results ← collect (r.resolveCandidate ignoreEntry) candidateIds
  if results = [] then
    throw (.failed (.text (text
      "DatabaseReader: Symbol not found (no exact-name match after verification)")))
  pure results

end DatabaseReader

def findSymbolReferences (z : Zstd) (order : IterationOrder (UInt32 × UInt32)) (fuel : Nat)
    (conf : ConfigParser) (file : Except Nat Bytes) (symbolName : Bytes)
    (ignoreEntry : IgnoreEntryCallback) : Reading (List SymbolLookupResult) := do
  let data ← mappedFileOpen conf.databasePath file
  let dbRdr ← decompressDatabase z conf data
  dbRdr.find order fuel symbolName ignoreEntry

end DatabaseReading
