import SymFind.Config.ConfigParser
import SymFind.Database.DatabaseBlocks
import SymFind.Lib.FilePatch

/-!
# Writing a database file

Every write goes through `pwrite`, which may store fewer bytes than asked for,
be interrupted, or fail; the process may die before any call. A run is a
computation on the file and the answers still to come from the kernel, which
goes on or halts: dead, crashed, or returning false.
-/
namespace DatabaseWriting
open RecordCodec InsertionMap Machine SymbolData TrigramCodes DatabaseLayout TrigramTable
open PathCache Compression DatabaseBlocks FilePatch Config

/-- The answer of one `pwrite`: at least one byte stored, or an error code. -/
inductive PwriteOutcome where
  | stored (more : Nat)
  | failed (errno : Nat)

def eintr : Nat := 4

/-- The file, the kernel's answers to come (the process dies when they run out), and errno. -/
structure Disk where
  file : Bytes
  pending : List PwriteOutcome
  lastErrno : Nat

/-- `failed none` leaves the caller's message as it was. -/
inductive Halt where
  | died
  | crashed (fault : Fault)
  | failed (errMsg : Option DbError)

abbrev Writing := ExceptT Halt (StateM Disk)

/-- A file that could be opened for writing is empty. -/
def Disk.opened (disk : Disk) : Except Nat Unit → Disk
  | .ok () => { disk with file := [] }
  | .error _ => disk

/-- The loop of `FileWrapper::write` over the remaining bytes. -/
def writeLoop : List PwriteOutcome → Bytes → UInt32 → Bytes → Nat → Except Halt Bool × Disk
  | pending, [], _, file, errno => (.ok true, ⟨file, pending, errno⟩)
  | [], _ :: _, _, file, errno => (.error .died, ⟨file, [], errno⟩)
  | .stored more :: rest, b :: bs, offset, file, errno =>
    let nwrite := min (more + 1) (b :: bs).length
    writeLoop rest ((b :: bs).drop nwrite) (offset + UInt32.ofNat nwrite)
      (patch file offset.toNat ((b :: bs).take nwrite)) errno
  | .failed code :: rest, b :: bs, offset, file, _ =>
    if code = eintr then writeLoop rest (b :: bs) offset file eintr
    else (.ok false, ⟨file, rest, code⟩)

def fileWrapperWrite (buf : Bytes) (offset : UInt32) : Writing Bool :=
  ExceptT.mk (fun disk => writeLoop disk.pending buf offset disk.file disk.lastErrno)

def writeDatabaseBuffer (buf : Bytes) (offset : UInt32) : Writing (Bool × UInt32) := do
  let writeRes ← fileWrapperWrite buf offset
  pure (writeRes, if writeRes then offset + UInt32.ofNat buf.length else offset)

/-- Write, or return false with a message made from the last error code. -/
def writeOrFail (buf : Bytes) (offset : UInt32) (errMsg : Nat → Option DbError) :
    Writing UInt32 := do
  let (writeRes, offset) ← writeDatabaseBuffer buf offset
  if writeRes then pure offset
  else throw (.failed (errMsg (← get).lastErrno))

/-- One block of a commit function. A failed write is passed on without a message. -/
def commitBlock (writeOffset : UInt32) (compressed : Bytes) (uncompressedLength : UInt64) :
    Writing (BlockHeader × UInt32) := do
  let hdr : BlockHeader :=
    { compressedOffset := writeOffset
      compressedLength := UInt32.ofNat compressed.length
      uncompressedLength := uncompressedLength.toUInt32 }
  let writeOffset ← writeOrFail compressed writeOffset (fun _ => none)
  pure (hdr, writeOffset)

def commitFileTable (writeOffset : UInt32) (built : FileTableBuildResult) :
    Writing (FileTableHeader × UInt32) := do
  let (fileIndex, writeOffset) ←
    commitBlock writeOffset built.fileIndexCompressed built.fileIndexUncompressedLength
  let (fileNames, writeOffset) ←
    commitBlock writeOffset built.fileNamesCompressed built.fileNamesUncompressedLength
  pure ({ fileIndex, fileNames
          totalCompressedLength := fileIndex.compressedLength + fileNames.compressedLength
          filesCount := built.filesCount.toUInt64 }, writeOffset)

def commitPathTable (writeOffset : UInt32) (built : PathTableBuildResult) :
    Writing (PathTableHeader × UInt32) := do
  let (pathIndex, writeOffset) ←
    commitBlock writeOffset built.pathIndexCompressed built.pathIndexUncompressedLength
  let (pathNames, writeOffset) ←
    commitBlock writeOffset built.pathNamesCompressed built.pathNamesUncompressedLength
  pure ({ pathIndex, pathNames
          totalCompressedLength := pathIndex.compressedLength + pathNames.compressedLength
          pathsCount := built.pathsCount.toUInt64 }, writeOffset)

def commitSymbolIndex (writeOffset : UInt32) (built : SymbolIndexBuildResult) :
    Writing (SymbolIndexHeader × UInt32) := do
  let (symbolIndex, writeOffset) ←
    commitBlock writeOffset built.symbolIndexCompressed built.symbolIndexUncompressedLength
  let (symbolNames, writeOffset) ←
    commitBlock writeOffset built.symbolNamesCompressed built.symbolNamesUncompressedLength
  let (symbolMetadata, writeOffset) ←
    commitBlock writeOffset built.symbolMetadataCompressed built.symbolMetadataUncompressedLength
  pure ({ symbolIndex, symbolNames, symbolMetadata
          totalCompressedLength := symbolIndex.compressedLength + symbolNames.compressedLength +
            symbolMetadata.compressedLength
          symbolsCount := built.symbolsCount.toUInt64 }, writeOffset)

def commitTrigramIndex (writeOffset : UInt32) (built : TrigramIndexBuildResult) :
    Writing (TrigramIndexHeader × UInt32) := do
  let (trigramIndex, writeOffset) ←
    commitBlock writeOffset built.trigramIndexCompressed built.trigramIndexUncompressedLength
  let (trigramPostings, writeOffset) ←
    commitBlock writeOffset built.trigramPostingsCompressed built.trigramPostingsUncompressedLength
  pure ({ trigramIndex
          trigramIndexCapacity := built.trigramIndexCapacity
          trigramPostings
          trigramPostingsCount := built.trigramPostingsCount
          trigramsCount := built.trigramsCount
          symbolsCount := built.symbolsCount.toUInt64 }, writeOffset)

/-- What the build phase hands over to the commit phase. -/
structure BuiltTables where
  fileTable : FileTableBuildResult
  pathTable : PathTableBuildResult
  symIndex : SymbolIndexBuildResult
  trigramIndex : TrigramIndexBuildResult

/-- What `store_db` is called with. -/
structure StoreArgs where
  foundFiles : List FileInfo
  pathList : List Bytes
  conf : ConfigParser
  symtable : HashMap
  dictBuilder : Option DictionaryBuilder

/-- The four builders; the first failed one in the order of the source gives the message. -/
def buildTables (z : Zstd) (order : IterationOrder (TrigramCode × List UInt32))
    (args : StoreArgs) (withDict : Option z.CDict) : Except Halt BuiltTables :=
  match buildTrigramIndex z order args.symtable with
  | .error fault => .error (.crashed fault)
  | .ok trigramBuilt =>
    match buildFileTable z args.foundFiles withDict, buildPathTable z args.pathList withDict,
        buildSymbolIndex z args.symtable withDict, trigramBuilt with
    | .error e, _, _, _ => .error (.failed (some (.zstd e)))
    | .ok _, .error e, _, _ => .error (.failed (some (.zstd e)))
    | .ok _, .ok _, .error e, _ => .error (.failed (some (.zstd e)))
    | .ok _, .ok _, .ok _, .error e => .error (.failed (some (.zstd e)))
    | .ok ft, .ok pt, .ok si, .ok tg => .ok ⟨ft, pt, si, tg⟩

/-- The header that is written before anything else. -/
def placeholderHeader : DatabaseHeader :=
  { DatabaseHeader.init with
    magic := databaseHeaderMagic
    version := databaseHeaderVersionNumber }

/-- The commit phase and the final header. -/
def commitTables (dbHdr : DatabaseHeader) (ftell : UInt32) (built : BuiltTables) :
    Writing Unit := do
  let (ftHdr, ftell) ← commitFileTable ftell built.fileTable
  let (ptHdr, ftell) ← commitPathTable ftell built.pathTable
  let (siHdr, ftell) ← commitSymbolIndex ftell built.symIndex
  let (tgHdr, _) ← commitTrigramIndex ftell built.trigramIndex
  let dbHdr := { dbHdr with
    fileTableHdr := ftHdr, pathTableHdr := ptHdr, symIndexHdr := siHdr, trigramIndexHdr := tgHdr }
  let _ ← writeOrFail (databaseHeaderCodec.encode dbHdr) 0 (fun _ => none)
  pure ()

def storeDb (z : Zstd) (order : IterationOrder (TrigramCode × List UInt32))
    (opened : Except Nat Unit) (args : StoreArgs) : Writing Unit := do
  match opened with
  | .error errno => throw (.failed (some (.systemAt errno args.conf.databasePath)))
  | .ok () => modify (fun disk => { disk with file := [] })
  let dbHdr := placeholderHeader
  let ftell ← writeOrFail (databaseHeaderCodec.encode dbHdr) 0 (fun errno => some (.system errno))
  let confBlockData := args.conf.confBlock
  let dbHdr := { dbHdr with
    confBlockOffset := ftell.toUInt64
    confBlockLength := UInt64.ofNat confBlockData.length }
  let ftell ← writeOrFail confBlockData ftell (fun errno => some (.system errno))
  let (dbHdr, withDict, ftell) ← match args.dictBuilder with
    | none => pure (dbHdr, none, ftell)
    | some dictBuilder => do
      let dictionary := (dictBuilder.train z).1
      let cdict := z.createCDict dictionary
      let dbHdr := { dbHdr with
        zstdDictionaryOffset := ftell.toUInt64
        zstdDictionaryLength := UInt64.ofNat dictionary.length }
      let ftell ← writeOrFail dictionary ftell (fun errno => some (.system errno))
      pure (dbHdr, cdict, ftell)
  let built ← ExceptT.mk (pure (buildTables z order args withDict))
  commitTables dbHdr ftell built

end DatabaseWriting
