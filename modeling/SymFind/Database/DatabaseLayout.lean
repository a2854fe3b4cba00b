import SymFind.Core.SymbolData

/-!
# The packed structures of a database file

Every structure of `Database.h` is packed, so its image is the concatenation of
its little-endian fields. A codec per structure gives its width, its bytes and
the way back. Counts and lengths of the tables follow from the widths.
-/
namespace DatabaseLayout
open RecordCodec SymbolData

def databaseHeaderMagic : UInt64 := 0x73796D66696E6400

/-- Major 0, minor 1, patch 0. -/
def databaseHeaderVersionNumber : UInt32 :=
  ((0 : UInt32) <<< 16) ||| ((1 : UInt32) <<< 8) ||| (0 : UInt32)

/-- Marks an empty slot; a code has only 24 bits. -/
def trigramEmptySlot : UInt32 := 0xFFFFFFFF

structure FileTable where
  pathId : UInt32
  nameOffset : UInt32
  nameLength : UInt32
  deriving DecidableEq

structure PathIndex where
  nameOffset : UInt32
  nameLength : UInt32
  deriving DecidableEq

structure SymbolIndex where
  nameOffset : UInt32
  nameLength : UInt32
  metadataOffset : UInt32
  metadataLength : UInt32
  deriving DecidableEq

structure TrigramSlot where
  trigramCode : UInt32
  postingOffset : UInt32
  postingCount : UInt32
  deriving DecidableEq

/-- Compressed offset and length and the uncompressed length of one block. -/
structure BlockHeader where
  compressedOffset : UInt32
  compressedLength : UInt32
  uncompressedLength : UInt32
  deriving DecidableEq

structure FileTableHeader where
  fileIndex : BlockHeader
  fileNames : BlockHeader
  totalCompressedLength : UInt32
  filesCount : UInt64
  deriving DecidableEq

structure PathTableHeader where
  pathIndex : BlockHeader
  pathNames : BlockHeader
  totalCompressedLength : UInt32
  pathsCount : UInt64
  deriving DecidableEq

structure SymbolIndexHeader where
  symbolIndex : BlockHeader
  symbolNames : BlockHeader
  symbolMetadata : BlockHeader
  totalCompressedLength : UInt32
  symbolsCount : UInt64
  deriving DecidableEq

structure TrigramIndexHeader where
  trigramIndex : BlockHeader
  trigramIndexCapacity : UInt64
  trigramPostings : BlockHeader
  trigramPostingsCount : UInt64
  trigramsCount : UInt64
  symbolsCount : UInt64
  deriving DecidableEq

structure DatabaseHeader where
  magic : UInt64
  version : UInt32
  confBlockOffset : UInt64
  confBlockLength : UInt64
  zstdDictionaryOffset : UInt64
  zstdDictionaryLength : UInt64
  fileTableHdr : FileTableHeader
  pathTableHdr : PathTableHeader
  symIndexHdr : SymbolIndexHeader
  trigramIndexHdr : TrigramIndexHeader
  deriving DecidableEq

def BlockHeader.zero : BlockHeader := ⟨0, 0, 0⟩

/-- The default member initialisers: everything zero, but version 1. -/
def DatabaseHeader.init : DatabaseHeader where
  magic := 0
  version := 1
  confBlockOffset := 0
  confBlockLength := 0
  zstdDictionaryOffset := 0
  zstdDictionaryLength := 0
  fileTableHdr := ⟨.zero, .zero, 0, 0⟩
  pathTableHdr := ⟨.zero, .zero, 0, 0⟩
  symIndexHdr := ⟨.zero, .zero, .zero, 0, 0⟩
  trigramIndexHdr := ⟨.zero, 0, .zero, 0, 0, 0⟩

section Codecs
open Codec

/-- A `bool` is stored as 0 or 1 and any other byte reads as true. -/
def boolCodec : Codec Bool :=
  byte.rename (fun b => b != 0) (fun b => if b then 1 else 0) (fun b => by cases b <;> rfl)

def symbolMetaDataCodec : Codec SymbolMetaData :=
  (boolCodec.pair (byte.pair (byte.pair (byte.pair (byte.pair u32))))).rename
    (fun (d, s, t, b, v, o) => ⟨d, ⟨s⟩, ⟨t⟩, ⟨b⟩, ⟨v⟩, o⟩)
    (fun m => (m.isDefined, m.sourceSection.code, m.type.code, m.bind.code, m.visibility.code,
      m.offset))
    (fun _ => rfl)

def symbolRefCodec : Codec SymbolRef :=
  (u32.pair symbolMetaDataCodec).rename (fun (i, m) => ⟨i, m⟩) (fun r => (r.fileId, r.metadata))
    (fun _ => rfl)

def fileTableCodec : Codec FileTable :=
  (u32.pair (u32.pair u32)).rename (fun (p, o, l) => ⟨p, o, l⟩)
    (fun e => (e.pathId, e.nameOffset, e.nameLength)) (fun _ => rfl)

def pathIndexCodec : Codec PathIndex :=
  (u32.pair u32).rename (fun (o, l) => ⟨o, l⟩) (fun e => (e.nameOffset, e.nameLength))
    (fun _ => rfl)

def symbolIndexCodec : Codec SymbolIndex :=
  (u32.pair (u32.pair (u32.pair u32))).rename (fun (o, l, mo, ml) => ⟨o, l, mo, ml⟩)
    (fun e => (e.nameOffset, e.nameLength, e.metadataOffset, e.metadataLength)) (fun _ => rfl)

def trigramSlotCodec : Codec TrigramSlot :=
  (u32.pair (u32.pair u32)).rename (fun (c, o, n) => ⟨c, o, n⟩)
    (fun s => (s.trigramCode, s.postingOffset, s.postingCount)) (fun _ => rfl)

def blockHeaderCodec : Codec BlockHeader :=
  (u32.pair (u32.pair u32)).rename (fun (o, c, u) => ⟨o, c, u⟩)
    (fun h => (h.compressedOffset, h.compressedLength, h.uncompressedLength)) (fun _ => rfl)

def fileTableHeaderCodec : Codec FileTableHeader :=
  (blockHeaderCodec.pair (blockHeaderCodec.pair (u32.pair u64))).rename
    (fun (i, n, t, c) => ⟨i, n, t, c⟩)
    (fun h => (h.fileIndex, h.fileNames, h.totalCompressedLength, h.filesCount)) (fun _ => rfl)

def pathTableHeaderCodec : Codec PathTableHeader :=
  (blockHeaderCodec.pair (blockHeaderCodec.pair (u32.pair u64))).rename
    (fun (i, n, t, c) => ⟨i, n, t, c⟩)
    (fun h => (h.pathIndex, h.pathNames, h.totalCompressedLength, h.pathsCount)) (fun _ => rfl)

def symbolIndexHeaderCodec : Codec SymbolIndexHeader :=
  (blockHeaderCodec.pair (blockHeaderCodec.pair (blockHeaderCodec.pair (u32.pair u64)))).rename
    (fun (i, n, m, t, c) => ⟨i, n, m, t, c⟩)
    (fun h => (h.symbolIndex, h.symbolNames, h.symbolMetadata, h.totalCompressedLength,
      h.symbolsCount))
    (fun _ => rfl)

def trigramIndexHeaderCodec : Codec TrigramIndexHeader :=
  (blockHeaderCodec.pair (u64.pair (blockHeaderCodec.pair (u64.pair (u64.pair u64))))).rename
    (fun (i, cap, p, pc, tc, sc) => ⟨i, cap, p, pc, tc, sc⟩)
    (fun h => (h.trigramIndex, h.trigramIndexCapacity, h.trigramPostings,
      h.trigramPostingsCount, h.trigramsCount, h.symbolsCount))
    (fun _ => rfl)

def databaseHeaderCodec : Codec DatabaseHeader :=
  (u64.pair (u32.pair (u64.pair (u64.pair (u64.pair (u64.pair
    (fileTableHeaderCodec.pair (pathTableHeaderCodec.pair
      (symbolIndexHeaderCodec.pair trigramIndexHeaderCodec))))))))).rename
    (fun (m, v, co, cl, zo, zl, f, p, s, t) => ⟨m, v, co, cl, zo, zl, f, p, s, t⟩)
    (fun h => (h.magic, h.version, h.confBlockOffset, h.confBlockLength,
      h.zstdDictionaryOffset, h.zstdDictionaryLength, h.fileTableHdr, h.pathTableHdr,
      h.symIndexHdr, h.trigramIndexHdr))
    (fun _ => rfl)

lemma databaseHeaderCodec_sized : databaseHeaderCodec.Sized := by
  have block : blockHeaderCodec.Sized := (sized_u32.pair (sized_u32.pair sized_u32)).rename _ _ _
  have file : fileTableHeaderCodec.Sized :=
    (block.pair (block.pair (sized_u32.pair sized_u64))).rename _ _ _
  have path : pathTableHeaderCodec.Sized :=
    (block.pair (block.pair (sized_u32.pair sized_u64))).rename _ _ _
  have symbol : symbolIndexHeaderCodec.Sized :=
    (block.pair (block.pair (block.pair (sized_u32.pair sized_u64)))).rename _ _ _
  have trigram : trigramIndexHeaderCodec.Sized :=
    (block.pair (sized_u64.pair (block.pair (sized_u64.pair
      (sized_u64.pair sized_u64))))).rename _ _ _
  exact (sized_u64.pair (sized_u32.pair (sized_u64.pair (sized_u64.pair (sized_u64.pair
    (sized_u64.pair (file.pair (path.pair (symbol.pair trigram))))))))).rename _ _ _

/-- Every 220 bytes read as a header. -/
lemma databaseHeaderCodec_total : databaseHeaderCodec.Total := databaseHeaderCodec_sized.total

end Codecs

/-! The `sizeof` of each packed structure. -/

@[simp] lemma symbolRefCodec_width : symbolRefCodec.width = 13 := rfl
@[simp] lemma fileTableCodec_width : fileTableCodec.width = 12 := rfl
@[simp] lemma pathIndexCodec_width : pathIndexCodec.width = 8 := rfl
@[simp] lemma symbolIndexCodec_width : symbolIndexCodec.width = 16 := rfl
@[simp] lemma trigramSlotCodec_width : trigramSlotCodec.width = 12 := rfl
@[simp] lemma databaseHeaderCodec_width : databaseHeaderCodec.width = 220 := rfl

/-- An error message; the texts of the system and of libzstd stay symbolic. -/
inductive DbError where
  | system (errno : Nat)
  | systemAt (errno : Nat) (path : Bytes)
  | mmapFailed (errno : Nat)
  | zstd (errorName : Bytes)
  | text (message : Bytes)
  deriving DecidableEq

end DatabaseLayout
