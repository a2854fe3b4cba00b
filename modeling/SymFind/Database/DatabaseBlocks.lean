import SymFind.Core.Compression
import SymFind.Database.TrigramTable
import SymFind.Filesystem.PathCache

/-!
# Building the blocks of a database

Each builder makes, in one pass, a table of fixed-width entries and a blob of
names or references behind the entries' offsets, and compresses them. Names and
paths are compressed with the trained dictionary, tables without.
-/
namespace DatabaseBlocks
open RecordCodec InsertionMap Machine SymbolData TrigramCodes DatabaseLayout TrigramTable
open PathCache Compression

abbrev SymbolRefs := List SymbolRef

/-- The symbol table: names in insertion order, each with its references. -/
abbrev HashMap := Map SymbolName SymbolRefs

/-- A loop over a table meets its entries in the order that the container has for them. -/
def iterated (tableOrder : IterationOrder (SymbolName × SymbolRefs)) (symtable : HashMap) :
    HashMap where
  entries := tableOrder.arrange symtable.entries
  nodup := ((tableOrder.perm _).map Prod.fst).nodup_iff.mpr symtable.nodup

lemma get_iterated (tableOrder : IterationOrder (SymbolName × SymbolRefs)) (symtable : HashMap)
    (name : SymbolName) : (iterated tableOrder symtable).get name = symtable.get name :=
  Map.get_of_perm (tableOrder.perm _) name

lemma mem_keys_iterated (tableOrder : IterationOrder (SymbolName × SymbolRefs))
    (symtable : HashMap) (name : SymbolName) :
    name ∈ (iterated tableOrder symtable).keys ↔ name ∈ symtable.keys :=
  ((tableOrder.perm _).map Prod.fst).mem_iff

/-- The container keeps its entries in the order of their insertion. -/
def InsertionOrdered (tableOrder : IterationOrder (SymbolName × SymbolRefs)) : Prop :=
  ∀ symtable : HashMap, iterated tableOrder symtable = symtable

lemma insertion_ordered : InsertionOrdered (IterationOrder.insertion _) := fun _ => rfl

lemma InsertionOrdered.tables {tableOrder : IterationOrder (SymbolName × SymbolRefs)}
    (inserted : InsertionOrdered tableOrder) (symtables : List HashMap) :
    symtables.map (iterated tableOrder) = symtables :=
  (List.map_congr_left fun symtable _ => inserted symtable).trans (List.map_id' _)

structure FileTableBuildResult where
  fileIndexCompressed : Bytes
  fileNamesCompressed : Bytes
  fileIndexUncompressedLength : UInt64
  fileNamesUncompressedLength : UInt64
  filesCount : UInt32

structure PathTableBuildResult where
  pathIndexCompressed : Bytes
  pathNamesCompressed : Bytes
  pathIndexUncompressedLength : UInt64
  pathNamesUncompressedLength : UInt64
  pathsCount : UInt32

structure SymbolIndexBuildResult where
  symbolIndexCompressed : Bytes
  symbolNamesCompressed : Bytes
  symbolMetadataCompressed : Bytes
  symbolIndexUncompressedLength : UInt64
  symbolNamesUncompressedLength : UInt64
  symbolMetadataUncompressedLength : UInt64
  symbolsCount : UInt32

structure TrigramIndexBuildResult where
  trigramIndexCompressed : Bytes
  trigramPostingsCompressed : Bytes
  trigramIndexUncompressedLength : UInt64
  trigramPostingsUncompressedLength : UInt64
  trigramPostingsCount : UInt64
  trigramIndexCapacity : UInt64
  symbolsCount : UInt32
  trigramsCount : UInt64

section FileTable

/-- The variables of the loop over the found files. -/
structure FileTablePass where
  fileNameOffset : UInt32
  fileIndexBlock : Bytes
  fileNamesBlob : Bytes
  filesCount : UInt32

def addFile (p : FileTablePass) (fileInfo : FileInfo) : FileTablePass :=
  let fileNameLength := UInt32.ofNat fileInfo.name.length
  { fileNameOffset := p.fileNameOffset + fileNameLength
    fileIndexBlock := p.fileIndexBlock ++
      fileTableCodec.encode ⟨fileInfo.pathId, p.fileNameOffset, fileNameLength⟩
    fileNamesBlob := p.fileNamesBlob ++ fileInfo.name
    filesCount := p.filesCount + 1 }

def filePass (foundFiles : List FileInfo) : FileTablePass := foundFiles.foldl addFile ⟨0, [], [], 0⟩

def buildFileTable (z : Zstd) (foundFiles : List FileInfo) (compOpts : Option z.CDict) :
    Except Bytes FileTableBuildResult := do
  let p := filePass foundFiles
  let fileIndexCompressed ← compress z p.fileIndexBlock p.fileIndexBlock.length none
  let fileNamesCompressed ← compress z p.fileNamesBlob p.fileNamesBlob.length compOpts
  pure { fileIndexCompressed, fileNamesCompressed
         fileIndexUncompressedLength := UInt64.ofNat p.fileIndexBlock.length
         fileNamesUncompressedLength := UInt64.ofNat p.fileNamesBlob.length
         filesCount := p.filesCount }

/-- The entry that the pass writes for a file. -/
def fileEntry (fileInfo : FileInfo) (offset : UInt32) : FileTable :=
  ⟨fileInfo.pathId, offset, UInt32.ofNat fileInfo.name.length⟩

def fileEntries (foundFiles : List FileInfo) : List FileTable :=
  locate fileEntry (fun off f => off + UInt32.ofNat f.name.length) 0 foundFiles

end FileTable

section PathTable

structure PathTablePass where
  pathNameOffset : UInt32
  pathIndexBlock : Bytes
  pathNamesBlob : Bytes
  pathsCount : UInt32

def addPath (p : PathTablePass) (pathName : Bytes) : PathTablePass :=
  let pathNameLength := UInt32.ofNat pathName.length
  { pathNameOffset := p.pathNameOffset + pathNameLength
    pathIndexBlock := p.pathIndexBlock ++ pathIndexCodec.encode ⟨p.pathNameOffset, pathNameLength⟩
    pathNamesBlob := p.pathNamesBlob ++ pathName
    pathsCount := p.pathsCount + 1 }

def pathPass (pathList : List Bytes) : PathTablePass := pathList.foldl addPath ⟨0, [], [], 0⟩

def buildPathTable (z : Zstd) (pathList : List Bytes) (compOpts : Option z.CDict) :
    Except Bytes PathTableBuildResult := do
  let p := pathPass pathList
  let pathIndexCompressed ← compress z p.pathIndexBlock p.pathIndexBlock.length none
  let pathNamesCompressed ← compress z p.pathNamesBlob p.pathNamesBlob.length compOpts
  pure { pathIndexCompressed, pathNamesCompressed
         pathIndexUncompressedLength := UInt64.ofNat p.pathIndexBlock.length
         pathNamesUncompressedLength := UInt64.ofNat p.pathNamesBlob.length
         pathsCount := p.pathsCount }

def pathEntry (pathName : Bytes) (offset : UInt32) : PathIndex :=
  ⟨offset, UInt32.ofNat pathName.length⟩

def pathEntries (pathList : List Bytes) : List PathIndex :=
  locate pathEntry (fun off p => off + UInt32.ofNat p.length) 0 pathList

end PathTable

section SymbolIndex

structure SymbolIndexPass where
  symNameOffset : UInt32
  symMetadataOffset : UInt32
  symIndexBlock : Bytes
  symMetadataBlob : Bytes
  symNamesBlob : Bytes
  symbolsCount : UInt32

/-- The inner loop: the length of the references and the blob with them appended. -/
def addRefs (blob : Bytes) (symRefs : SymbolRefs) : UInt32 × Bytes :=
  symRefs.foldl (fun (length, blob) symRef =>
    (length + UInt32.ofNat symbolRefCodec.width, blob ++ symbolRefCodec.encode symRef)) (0, blob)

def addSymbol (p : SymbolIndexPass) (sym : SymbolName × SymbolRefs) : SymbolIndexPass :=
  let symNameLength := UInt32.ofNat sym.1.length
  let (symMetadataLength, symMetadataBlob) := addRefs p.symMetadataBlob sym.2
  { symNameOffset := p.symNameOffset + symNameLength
    symMetadataOffset := p.symMetadataOffset + symMetadataLength
    symIndexBlock := p.symIndexBlock ++ symbolIndexCodec.encode
      ⟨p.symNameOffset, symNameLength, p.symMetadataOffset, symMetadataLength⟩
    symMetadataBlob
    symNamesBlob := p.symNamesBlob ++ sym.1
    symbolsCount := p.symbolsCount + 1 }

def symbolPass (symtable : HashMap) : SymbolIndexPass :=
  symtable.entries.foldl addSymbol ⟨0, 0, [], [], [], 0⟩

def buildSymbolIndex (z : Zstd) (symtable : HashMap) (compOpts : Option z.CDict) :
    Except Bytes SymbolIndexBuildResult := do
  let p := symbolPass symtable
  let symbolIndexCompressed ← compress z p.symIndexBlock p.symIndexBlock.length none
  let symbolNamesCompressed ← compress z p.symNamesBlob p.symNamesBlob.length compOpts
  let symbolMetadataCompressed ← compress z p.symMetadataBlob p.symMetadataBlob.length none
  pure { symbolIndexCompressed, symbolNamesCompressed, symbolMetadataCompressed
         symbolIndexUncompressedLength := UInt64.ofNat p.symIndexBlock.length
         symbolNamesUncompressedLength := UInt64.ofNat p.symNamesBlob.length
         symbolMetadataUncompressedLength := UInt64.ofNat p.symMetadataBlob.length
         symbolsCount := p.symbolsCount }

def symbolEntry (sym : SymbolName × SymbolRefs) (offsets : UInt32 × UInt32) : SymbolIndex :=
  ⟨offsets.1, UInt32.ofNat sym.1.length, offsets.2,
    UInt32.ofNat (symbolRefCodec.encodeAll sym.2).length⟩

def symbolEntries (symbols : List (SymbolName × SymbolRefs)) : List SymbolIndex :=
  locate symbolEntry
    (fun offsets sym => (offsets.1 + UInt32.ofNat sym.1.length,
      offsets.2 + UInt32.ofNat (symbolRefCodec.encodeAll sym.2).length)) (0, 0) symbols

end SymbolIndex

section TrigramIndex

def buildTrigramIndex (z : Zstd) (order : IterationOrder (TrigramCode × List UInt32))
    (symtable : HashMap) : Except Fault (Except Bytes TrigramIndexBuildResult) := do
  let t ← buildTrigramTables order symtable.keys
  let trigramIndexBlock := trigramSlotCodec.encodeAll t.slots
  let totalPostingsLength := UInt32.ofNat (t.totalPostingsCount * 4).toNat
  pure (do
    let trigramIndexCompressed ← compress z trigramIndexBlock trigramIndexBlock.length none
    let trigramPostingsCompressed ←
      compress z (Codec.u32.encodeAll t.postings) totalPostingsLength.toNat none
    pure { trigramIndexCompressed, trigramPostingsCompressed
           trigramIndexUncompressedLength := UInt64.ofNat trigramIndexBlock.length
           trigramPostingsUncompressedLength := totalPostingsLength.toUInt64
           trigramPostingsCount := t.totalPostingsCount
           trigramIndexCapacity := t.capacity
           symbolsCount := t.symbolsCount.toUInt32
           trigramsCount := t.trigramsCount })

end TrigramIndex

section Passes

lemma foldl_lengths {α : Type} (part : α → Bytes) (xs : List α) (start : UInt32) :
    xs.foldl (fun off a => off + UInt32.ofNat (part a).length) start =
      start + UInt32.ofNat (xs.map part).flatten.length := by
  induction xs generalizing start with
  | nil => simp
  | cons a rest ih =>
    rw [List.foldl_cons, ih, List.map_cons, List.flatten_cons, List.length_append,
      UInt32.ofNat_add, UInt32.add_assoc]

/-- The running offset before the `i`-th part is where the part starts in the blob. -/
lemma foldl_take_lengths {α : Type} (part : α → Bytes) (xs : List α) (i : Nat) :
    (xs.take i).foldl (fun off a => off + UInt32.ofNat (part a).length) 0 =
      UInt32.ofNat (offsetOf (xs.map part) i) := by
  rw [foldl_lengths, UInt32.zero_add, List.map_take, offsetOf]

theorem filePass_eq (foundFiles : List FileInfo) :
    filePass foundFiles =
      { fileNameOffset := UInt32.ofNat (foundFiles.map FileInfo.name).flatten.length
        fileIndexBlock := fileTableCodec.encodeAll (fileEntries foundFiles)
        fileNamesBlob := (foundFiles.map FileInfo.name).flatten
        filesCount := UInt32.ofNat foundFiles.length } := by
  induction foundFiles using List.reverseRecOn with
  | nil => rfl
  | append_singleton files f ih =>
    have hentries : fileEntries (files ++ [f]) = fileEntries files ++
        [fileEntry f (UInt32.ofNat (files.map FileInfo.name).flatten.length)] := by
      rw [fileEntries, locate_append, foldl_lengths, UInt32.zero_add]
      rfl
    rw [filePass] at ih ⊢
    rw [List.foldl_append, ih, hentries, Codec.encodeAll_append]
    simp [addFile, fileEntry, UInt32.ofNat_add]

theorem pathPass_eq (pathList : List Bytes) :
    pathPass pathList =
      { pathNameOffset := UInt32.ofNat pathList.flatten.length
        pathIndexBlock := pathIndexCodec.encodeAll (pathEntries pathList)
        pathNamesBlob := pathList.flatten
        pathsCount := UInt32.ofNat pathList.length } := by
  induction pathList using List.reverseRecOn with
  | nil => rfl
  | append_singleton paths p ih =>
    have hentries : pathEntries (paths ++ [p]) = pathEntries paths ++
        [pathEntry p (UInt32.ofNat paths.flatten.length)] := by
      rw [pathEntries, locate_append, foldl_lengths (fun q => q), UInt32.zero_add, List.map_id']
      rfl
    rw [pathPass] at ih ⊢
    rw [List.foldl_append, ih, hentries, Codec.encodeAll_append]
    simp [addPath, pathEntry, UInt32.ofNat_add]

lemma addRefs_eq (blob : Bytes) (symRefs : SymbolRefs) :
    addRefs blob symRefs = (UInt32.ofNat (symbolRefCodec.encodeAll symRefs).length,
      blob ++ symbolRefCodec.encodeAll symRefs) := by
  induction symRefs using List.reverseRecOn with
  | nil => simp [addRefs]
  | append_singleton refs r ih =>
    rw [addRefs] at ih ⊢
    rw [List.foldl_append, ih, Codec.encodeAll_append]
    simp [UInt32.ofNat_add]

/-- The bytes of a symbol's references. -/
def refsBytes (sym : SymbolName × SymbolRefs) : Bytes := symbolRefCodec.encodeAll sym.2

lemma symbolOffsets_eq (syms : List (SymbolName × SymbolRefs)) :
    syms.foldl (fun (offsets : UInt32 × UInt32) sym =>
        (offsets.1 + UInt32.ofNat sym.1.length,
          offsets.2 + UInt32.ofNat (symbolRefCodec.encodeAll sym.2).length)) (0, 0) =
      (UInt32.ofNat (syms.map Prod.fst).flatten.length,
        UInt32.ofNat (syms.map refsBytes).flatten.length) := by
  have split : ∀ start : UInt32 × UInt32,
      syms.foldl (fun (offsets : UInt32 × UInt32) sym =>
        (offsets.1 + UInt32.ofNat sym.1.length,
          offsets.2 + UInt32.ofNat (symbolRefCodec.encodeAll sym.2).length)) start =
      (syms.foldl (fun off sym => off + UInt32.ofNat sym.1.length) start.1,
        syms.foldl (fun off sym => off + UInt32.ofNat (refsBytes sym).length) start.2) := by
    induction syms with
    | nil => intro start; rfl
    | cons sym rest ih => intro start; exact ih _
  rw [split, foldl_lengths Prod.fst, foldl_lengths refsBytes, UInt32.zero_add, UInt32.zero_add]

theorem symbolPass_eq (symtable : HashMap) :
    symbolPass symtable =
      { symNameOffset := UInt32.ofNat (symtable.entries.map Prod.fst).flatten.length
        symMetadataOffset := UInt32.ofNat (symtable.entries.map refsBytes).flatten.length
        symIndexBlock := symbolIndexCodec.encodeAll (symbolEntries symtable.entries)
        symMetadataBlob := (symtable.entries.map refsBytes).flatten
        symNamesBlob := (symtable.entries.map Prod.fst).flatten
        symbolsCount := UInt32.ofNat symtable.entries.length } := by
  rw [symbolPass]
  induction symtable.entries using List.reverseRecOn with
  | nil => rfl
  | append_singleton syms sym ih =>
    have hentries : symbolEntries (syms ++ [sym]) = symbolEntries syms ++
        [symbolEntry sym (UInt32.ofNat (syms.map Prod.fst).flatten.length,
          UInt32.ofNat (syms.map refsBytes).flatten.length)] := by
      rw [symbolEntries, locate_append, symbolOffsets_eq]
      rfl
    rw [List.foldl_append, ih, hentries, Codec.encodeAll_append]
    simp [addSymbol, addRefs_eq, symbolEntry, refsBytes, UInt32.ofNat_add]

lemma fileEntries_getElem (foundFiles : List FileInfo) {i : Nat} (h : i < foundFiles.length)
    (h' : i < (fileEntries foundFiles).length) :
    (fileEntries foundFiles)[i] = fileEntry foundFiles[i]
      (UInt32.ofNat (offsetOf (foundFiles.map FileInfo.name) i)) := by
  simp only [fileEntries]
  rw [locate_getElem _ _ _ _ h, foldl_take_lengths]

lemma pathEntries_getElem (pathList : List Bytes) {i : Nat} (h : i < pathList.length)
    (h' : i < (pathEntries pathList).length) :
    (pathEntries pathList)[i] = pathEntry pathList[i] (UInt32.ofNat (offsetOf pathList i)) := by
  simp only [pathEntries]
  rw [locate_getElem _ _ _ _ h, foldl_take_lengths (fun q => q), List.map_id']

lemma symbolEntries_getElem (symbols : List (SymbolName × SymbolRefs)) {i : Nat}
    (h : i < symbols.length) (h' : i < (symbolEntries symbols).length) :
    (symbolEntries symbols)[i] = symbolEntry symbols[i]
      (UInt32.ofNat (offsetOf (symbols.map Prod.fst) i),
        UInt32.ofNat (offsetOf (symbols.map refsBytes) i)) := by
  simp only [symbolEntries]
  rw [locate_getElem _ _ _ _ h, symbolOffsets_eq, List.map_take, List.map_take, offsetOf, offsetOf]

end Passes
end DatabaseBlocks
