import SymFind.Database.DatabaseWriting

/-!
# The writes of a run as a list

What a run of `store_db` writes is fixed before its first write: the placeholder
header, the configuration, the dictionary and the nine blocks one behind
another, and the final header over the placeholder. The monadic program performs
exactly this list, and the file it leaves is the list's effect up to the bytes
that the kernel accepted.
-/
namespace WritePlan
open RecordCodec InsertionMap Machine SymbolData TrigramCodes DatabaseLayout TrigramTable
open PathCache Compression DatabaseBlocks FilePatch Config DatabaseWriting

section Runs

def Writing.on {α : Type} (x : Writing α) (disk : Disk) : Except Halt α × Disk := x.run.run disk

lemma on_ext {α : Type} {x y : Writing α} (h : ∀ disk, Writing.on x disk = Writing.on y disk) :
    x = y := funext h

lemma on_pure {α : Type} (a : α) (disk : Disk) : Writing.on (pure a) disk = (.ok a, disk) := rfl

lemma on_throw {α : Type} (halt : Halt) (disk : Disk) :
    Writing.on (throw halt : Writing α) disk = (.error halt, disk) := rfl

lemma on_result {α : Type} (r : Except Halt α) (disk : Disk) :
    Writing.on (ExceptT.mk (pure r)) disk = (r, disk) := rfl

lemma on_bind {α β : Type} (x : Writing α) (f : α → Writing β) (disk : Disk) :
    Writing.on (x >>= f) disk = match Writing.on x disk with
      | (.ok a, disk') => Writing.on (f a) disk'
      | (.error halt, disk') => (.error halt, disk') := by
  simp only [Writing.on, ExceptT.run_bind, StateT.run_bind]
  rcases x.run.run disk with ⟨r, disk'⟩
  cases r with
  | ok a => rfl
  | error halt => rfl

/-- A sequence that returns has returned from its first part. -/
lemma on_bind_ok {α β : Type} {x : Writing α} {f : α → Writing β} {disk disk' : Disk} {b : β}
    (h : Writing.on (x >>= f) disk = (.ok b, disk')) :
    ∃ a between, Writing.on x disk = (.ok a, between) ∧
      Writing.on (f a) between = (.ok b, disk') := by
  rw [on_bind] at h
  rcases hx : Writing.on x disk with ⟨r, between⟩
  rw [hx] at h
  cases r with
  | ok a => exact ⟨a, between, rfl, h⟩
  | error halt => cases h

lemma on_fileWrapperWrite (buf : Bytes) (off : UInt32) (disk : Disk) :
    Writing.on (fileWrapperWrite buf off) disk =
      writeLoop disk.pending buf off disk.file disk.lastErrno := rfl

lemma on_writeDatabaseBuffer (buf : Bytes) (off : UInt32) (disk : Disk) :
    Writing.on (writeDatabaseBuffer buf off) disk =
      match writeLoop disk.pending buf off disk.file disk.lastErrno with
      | (.ok writeRes, disk') =>
        (.ok (writeRes, if writeRes then off + UInt32.ofNat buf.length else off), disk')
      | (.error halt, disk') => (.error halt, disk') := by
  rw [writeDatabaseBuffer, on_bind, on_fileWrapperWrite]
  rcases writeLoop disk.pending buf off disk.file disk.lastErrno with ⟨r, disk'⟩
  cases r with
  | ok writeRes => rfl
  | error halt => rfl

lemma on_writeOrFail (buf : Bytes) (off : UInt32) (errMsg : Nat → Option DbError) (disk : Disk) :
    Writing.on (writeOrFail buf off errMsg) disk =
      match writeLoop disk.pending buf off disk.file disk.lastErrno with
      | (.ok true, disk') => (.ok (off + UInt32.ofNat buf.length), disk')
      | (.ok false, disk') => (.error (.failed (errMsg disk'.lastErrno)), disk')
      | (.error halt, disk') => (.error halt, disk') := by
  rw [writeOrFail, on_bind, on_writeDatabaseBuffer]
  rcases writeLoop disk.pending buf off disk.file disk.lastErrno with ⟨r, disk'⟩
  rcases r with halt | writeRes
  · rfl
  · cases writeRes <;> rfl

end Runs

section Plan

structure PlannedWrite where
  offset : UInt32
  bytes : Bytes
  errMsg : Nat → Option DbError

def perform (w : PlannedWrite) : Writing Unit := do
  let _ ← writeOrFail w.bytes w.offset w.errMsg
  pure ()

def performAll : List PlannedWrite → Writing Unit
  | [] => pure ()
  | w :: ws => do
    perform w
    performAll ws

/-- The running 32-bit offset before the `i`-th part. -/
def partOffset (base : UInt32) (parts : List Bytes) (i : Nat) : UInt32 :=
  (parts.take i).foldl (fun off p => off + UInt32.ofNat p.length) base

/-- Writes of a list of parts, each at the offset that its predecessors reached. -/
def writesFrom (errMsg : Nat → Option DbError) : UInt32 → List Bytes → List PlannedWrite
  | _, [] => []
  | off, part :: rest =>
    ⟨off, part, errMsg⟩ :: writesFrom errMsg (off + UInt32.ofNat part.length) rest

/-- The dictionary bytes in the file; none are there without a dictionary builder. -/
def dictionaryOf (z : Zstd) (args : StoreArgs) : Bytes :=
  match args.dictBuilder with
  | none => []
  | some dictBuilder => (dictBuilder.train z).1

def withDictOf (z : Zstd) (args : StoreArgs) : Option z.CDict :=
  match args.dictBuilder with
  | none => none
  | some dictBuilder => z.createCDict (dictBuilder.train z).1

def leadParts (z : Zstd) (args : StoreArgs) : List Bytes :=
  [databaseHeaderCodec.encode placeholderHeader, args.conf.confBlock, dictionaryOf z args]

def blockParts (built : BuiltTables) : List Bytes :=
  [built.fileTable.fileIndexCompressed, built.fileTable.fileNamesCompressed,
    built.pathTable.pathIndexCompressed, built.pathTable.pathNamesCompressed,
    built.symIndex.symbolIndexCompressed, built.symIndex.symbolNamesCompressed,
    built.symIndex.symbolMetadataCompressed,
    built.trigramIndex.trigramIndexCompressed, built.trigramIndex.trigramPostingsCompressed]

def blockHeaderAt (base : UInt32) (parts : List Bytes) (i : Nat) (uncompressedLength : UInt64) :
    BlockHeader where
  compressedOffset := partOffset base parts i
  compressedLength := UInt32.ofNat (parts.getD i []).length
  uncompressedLength := uncompressedLength.toUInt32

/-- A header completed with the places of nine blocks that start at `base`. -/
def locateTables (dbHdr : DatabaseHeader) (base : UInt32) (built : BuiltTables) : DatabaseHeader :=
  let at_ := blockHeaderAt base (blockParts built)
  { dbHdr with
    fileTableHdr :=
      { fileIndex := at_ 0 built.fileTable.fileIndexUncompressedLength
        fileNames := at_ 1 built.fileTable.fileNamesUncompressedLength
        totalCompressedLength := UInt32.ofNat built.fileTable.fileIndexCompressed.length +
          UInt32.ofNat built.fileTable.fileNamesCompressed.length
        filesCount := built.fileTable.filesCount.toUInt64 }
    pathTableHdr :=
      { pathIndex := at_ 2 built.pathTable.pathIndexUncompressedLength
        pathNames := at_ 3 built.pathTable.pathNamesUncompressedLength
        totalCompressedLength := UInt32.ofNat built.pathTable.pathIndexCompressed.length +
          UInt32.ofNat built.pathTable.pathNamesCompressed.length
        pathsCount := built.pathTable.pathsCount.toUInt64 }
    symIndexHdr :=
      { symbolIndex := at_ 4 built.symIndex.symbolIndexUncompressedLength
        symbolNames := at_ 5 built.symIndex.symbolNamesUncompressedLength
        symbolMetadata := at_ 6 built.symIndex.symbolMetadataUncompressedLength
        totalCompressedLength := UInt32.ofNat built.symIndex.symbolIndexCompressed.length +
          UInt32.ofNat built.symIndex.symbolNamesCompressed.length +
            UInt32.ofNat built.symIndex.symbolMetadataCompressed.length
        symbolsCount := built.symIndex.symbolsCount.toUInt64 }
    trigramIndexHdr :=
      { trigramIndex := at_ 7 built.trigramIndex.trigramIndexUncompressedLength
        trigramIndexCapacity := built.trigramIndex.trigramIndexCapacity
        trigramPostings := at_ 8 built.trigramIndex.trigramPostingsUncompressedLength
        trigramPostingsCount := built.trigramIndex.trigramPostingsCount
        trigramsCount := built.trigramIndex.trigramsCount
        symbolsCount := built.trigramIndex.symbolsCount.toUInt64 } }

/-- The header when the parts before the tables are written. -/
def leadHeader (z : Zstd) (args : StoreArgs) : DatabaseHeader :=
  { placeholderHeader with
    confBlockOffset := (partOffset 0 (leadParts z args) 1).toUInt64
    confBlockLength := UInt64.ofNat args.conf.confBlock.length
    zstdDictionaryOffset :=
      if args.dictBuilder.isSome then (partOffset 0 (leadParts z args) 2).toUInt64 else 0
    zstdDictionaryLength := UInt64.ofNat (dictionaryOf z args).length }

def tablesOffset (z : Zstd) (args : StoreArgs) : UInt32 := partOffset 0 (leadParts z args) 3

/-- The header that locates everything. -/
def finalHeader (z : Zstd) (args : StoreArgs) (built : BuiltTables) : DatabaseHeader :=
  locateTables (leadHeader z args) (tablesOffset z args) built

def leadWrites (z : Zstd) (args : StoreArgs) : List PlannedWrite :=
  writesFrom (fun errno => some (.system errno)) 0 (leadParts z args)

def tableWrites (z : Zstd) (args : StoreArgs) (built : BuiltTables) : List PlannedWrite :=
  writesFrom (fun _ => none) (tablesOffset z args) (blockParts built) ++
    [⟨0, databaseHeaderCodec.encode (finalHeader z args built), fun _ => none⟩]

end Plan

section Refinement

lemma on_perform (w : PlannedWrite) (disk : Disk) :
    Writing.on (perform w) disk =
      match writeLoop disk.pending w.bytes w.offset disk.file disk.lastErrno with
      | (.ok true, disk') => (.ok (), disk')
      | (.ok false, disk') => (.error (.failed (w.errMsg disk'.lastErrno)), disk')
      | (.error halt, disk') => (.error halt, disk') := by
  rw [perform, on_bind, on_writeOrFail]
  rcases writeLoop disk.pending w.bytes w.offset disk.file disk.lastErrno with ⟨r, disk'⟩
  rcases r with halt | writeRes
  · rfl
  · cases writeRes <;> rfl

/-- The offset that a successful write hands on depends on nothing but its arguments. -/
lemma writeOrFail_eq (buf : Bytes) (off : UInt32) (errMsg : Nat → Option DbError) :
    writeOrFail buf off errMsg =
      (perform ⟨off, buf, errMsg⟩ >>= fun _ => pure (off + UInt32.ofNat buf.length)) := by
  apply on_ext
  intro disk
  rw [on_bind, on_perform, on_writeOrFail]
  rcases writeLoop disk.pending buf off disk.file disk.lastErrno with ⟨r, disk'⟩
  rcases r with halt | writeRes
  · rfl
  · cases writeRes <;> rfl

lemma performAll_append (ws vs : List PlannedWrite) :
    performAll (ws ++ vs) = (performAll ws >>= fun _ => performAll vs) := by
  induction ws with
  | nil => simp [performAll]
  | cons w rest ih => simp [performAll, ih]

lemma performAll_singleton (w : PlannedWrite) : performAll [w] = perform w := by
  simp [performAll]

lemma perform_nil (off : UInt32) (errMsg : Nat → Option DbError) :
    perform ⟨off, [], errMsg⟩ = pure () := by
  apply on_ext
  intro disk
  rw [on_perform, on_pure]
  simp [writeLoop]

lemma commitTables_eq (dbHdr : DatabaseHeader) (ftell : UInt32) (built : BuiltTables) :
    commitTables dbHdr ftell built =
      performAll (writesFrom (fun _ => none) ftell (blockParts built) ++
        [⟨0, databaseHeaderCodec.encode (locateTables dbHdr ftell built), fun _ => none⟩]) := by
  simp only [commitTables, writeOrFail_eq, commitFileTable, commitPathTable, commitSymbolIndex,
    commitTrigramIndex, commitBlock, bind_assoc, pure_bind, writesFrom, blockParts,
    List.cons_append, List.nil_append, performAll]
  rfl

theorem storeDb_eq_plan (z : Zstd) (order : IterationOrder (TrigramCode × List UInt32))
    (args : StoreArgs) :
    storeDb z order (.ok ()) args = (do
      modify (fun disk => { disk with file := [] })
      performAll (leadWrites z args)
      let built ← ExceptT.mk (pure (buildTables z order args (withDictOf z args)))
      performAll (tableWrites z args built)) := by
  obtain ⟨files, paths, conf, symtable, dict⟩ := args
  cases dict with
  | none =>
    have hskip : tablesOffset z ⟨files, paths, conf, symtable, none⟩ =
        partOffset 0 [databaseHeaderCodec.encode placeholderHeader, conf.confBlock] 2 :=
      UInt32.add_zero _
    simp only [storeDb, writeOrFail_eq, commitTables_eq, bind_assoc, pure_bind, leadWrites,
      leadParts, writesFrom, performAll, dictionaryOf, withDictOf, perform_nil, tableWrites,
      finalHeader, hskip]
    rfl
  | some b =>
    simp only [storeDb, writeOrFail_eq, commitTables_eq, bind_assoc, pure_bind, leadWrites,
      leadParts, writesFrom, performAll, dictionaryOf, withDictOf]
    rfl

end Refinement

section Acceptance

/-- The bytes of one buffer that the kernel stores, and the answers left if it stores all. -/
def accept : List PwriteOutcome → Nat → Nat × Option (List PwriteOutcome)
  | pending, 0 => (0, some pending)
  | [], _ + 1 => (0, none)
  | .stored more :: rest, len + 1 =>
    let nwrite := min (more + 1) (len + 1)
    let next := accept rest (len + 1 - nwrite)
    (nwrite + next.1, next.2)
  | .failed code :: rest, len + 1 =>
    if code = eintr then accept rest (len + 1) else (0, none)

/-- The bytes that the kernel stores of buffers of the given lengths, until it stops. -/
def acceptAll : List PwriteOutcome → List Nat → Nat × Option (List PwriteOutcome)
  | pending, [] => (0, some pending)
  | pending, len :: lens =>
    match accept pending len with
    | (m, none) => (m, none)
    | (m, some rest) => (m + (acceptAll rest lens).1, (acceptAll rest lens).2)

lemma accept_bounds (pending : List PwriteOutcome) (len : Nat) :
    (∀ rest, (accept pending len).2 = some rest → (accept pending len).1 = len) ∧
      ((accept pending len).2 = none → (accept pending len).1 < len) := by
  induction pending generalizing len with
  | nil => cases len <;> simp [accept]
  | cons answer rest ih =>
    cases len with
    | zero => simp [accept]
    | succ len =>
      cases answer with
      | stored more =>
        obtain ⟨hall, hsome⟩ := ih (len + 1 - min (more + 1) (len + 1))
        simp only [accept]
        constructor
        · intro rest' h
          rw [hall rest' h]
          omega
        · intro h
          have := hsome h
          omega
      | failed code =>
        simp only [accept]
        split
        · exact ih (len + 1)
        · simp

section Stored
/-! The kernel stores some of a buffer that is not empty. -/
variable (more : Nat) (rest : List PwriteOutcome) (b : UInt8) (bs : Bytes)

lemma writeLoop_stored (off : UInt32) (file : Bytes) (errno : Nat) :
    writeLoop (.stored more :: rest) (b :: bs) off file errno =
      writeLoop rest ((b :: bs).drop (min (more + 1) (b :: bs).length))
        (off + UInt32.ofNat (min (more + 1) (b :: bs).length))
        (patch file off.toNat ((b :: bs).take (min (more + 1) (b :: bs).length))) errno := rfl

lemma accept_stored :
    accept (.stored more :: rest) (b :: bs).length =
      (min (more + 1) (b :: bs).length +
          (accept rest ((b :: bs).drop (min (more + 1) (b :: bs).length)).length).1,
        (accept rest ((b :: bs).drop (min (more + 1) (b :: bs).length)).length).2) := by
  rw [List.length_drop]
  rfl

end Stored

/-- One buffer: the accepted bytes are in place, and the write succeeds if all are accepted. -/
theorem writeLoop_accept (pending : List PwriteOutcome) (buf : Bytes) (off : UInt32)
    (file : Bytes) (errno : Nat) (fits : off.toNat + buf.length < 2 ^ 32)
    (inside : off.toNat ≤ file.length) :
    (writeLoop pending buf off file errno).2.file =
        patch file off.toNat (buf.take (accept pending buf.length).1) ∧
      (∀ rest, (accept pending buf.length).2 = some rest →
        (writeLoop pending buf off file errno).1 = .ok true ∧
          (writeLoop pending buf off file errno).2.pending = rest) ∧
      ((accept pending buf.length).2 = none →
        (writeLoop pending buf off file errno).1 ≠ .ok true) := by
  induction pending generalizing buf off file errno with
  | nil =>
    cases buf with
    | nil => simp [writeLoop, accept, patch_nil inside]
    | cons b bs => simp [writeLoop, accept, patch_nil inside]
  | cons answer rest ih =>
    cases buf with
    | nil => simp [writeLoop, accept, patch_nil inside]
    | cons b bs =>
      cases answer with
      | failed code =>
        by_cases h : code = eintr
        · simp only [writeLoop, accept, List.length_cons, if_pos h]
          exact ih (b :: bs) off file eintr fits inside
        · simp [writeLoop, accept, h, patch_nil inside]
      | stored more =>
        have hle : min (more + 1) (b :: bs).length ≤ (b :: bs).length := Nat.min_le_right _ _
        rw [writeLoop_stored, accept_stored]
        generalize min (more + 1) (b :: bs).length = nwrite at hle ⊢
        have hnext : (off + UInt32.ofNat nwrite).toNat = off.toNat + nwrite := by
          rw [UInt32.toNat_add, UInt32.toNat_ofNat', Nat.mod_eq_of_lt (by omega : nwrite < 2 ^ 32)]
          exact Nat.mod_eq_of_lt (by omega)
        have hrest : ((b :: bs).drop nwrite).length = (b :: bs).length - nwrite := List.length_drop
        have hpatched : off.toNat + nwrite ≤
            (patch file off.toNat ((b :: bs).take nwrite)).length := by
          rw [patch_length, List.length_take]
          omega
        obtain ⟨hfile, hdone, hstop⟩ := ih ((b :: bs).drop nwrite) (off + UInt32.ofNat nwrite)
          (patch file off.toNat ((b :: bs).take nwrite)) errno
          (by rw [hnext, hrest]; omega) (by rw [hnext]; exact hpatched)
        refine ⟨?_, hdone, hstop⟩
        rw [hfile, hnext, patch_take_drop file off.toNat hle]

lemma acceptAll_bounds (pending : List PwriteOutcome) (lens : List Nat) :
    (∀ rest, (acceptAll pending lens).2 = some rest → (acceptAll pending lens).1 = lens.sum) ∧
      ((acceptAll pending lens).2 = none → (acceptAll pending lens).1 < lens.sum) := by
  induction lens generalizing pending with
  | nil => simp [acceptAll]
  | cons len lens ih =>
    have bounds := accept_bounds pending len
    rcases h : accept pending len with ⟨m, _ | rest⟩
    · rw [h] at bounds
      have hlt : m < len := bounds.2 rfl
      simp only [acceptAll, h, List.sum_cons]
      constructor
      · intro rest hrest
        cases hrest
      · intro _
        omega
    · rw [h] at bounds
      have heq : m = len := bounds.1 rest rfl
      obtain ⟨hall, hnone⟩ := ih rest
      simp only [acceptAll, h, List.sum_cons]
      constructor
      · intro rest' hrest
        rw [hall rest' hrest, heq]
      · intro hstop
        have := hnone hstop
        omega

lemma acceptAll_le (pending : List PwriteOutcome) (lens : List Nat) :
    (acceptAll pending lens).1 ≤ lens.sum := by
  have bounds := acceptAll_bounds pending lens
  cases h : (acceptAll pending lens).2 with
  | none => exact Nat.le_of_lt (bounds.2 h)
  | some rest => exact Nat.le_of_eq (bounds.1 rest h)

lemma acceptAll_singleton (pending : List PwriteOutcome) (len : Nat) :
    acceptAll pending [len] = accept pending len := by
  rcases h : accept pending len with ⟨m, _ | rest⟩
  · simp [acceptAll, h]
  · simp [acceptAll, h]

lemma acceptAll_append (pending : List PwriteOutcome) (lens more : List Nat) :
    acceptAll pending (lens ++ more) = match acceptAll pending lens with
      | (m, none) => (m, none)
      | (m, some rest) => (m + (acceptAll rest more).1, (acceptAll rest more).2) := by
  induction lens generalizing pending with
  | nil => simp [acceptAll]
  | cons len lens ih =>
    rcases h : accept pending len with ⟨m, _ | rest⟩
    · simp [acceptAll, h]
    · simp only [List.cons_append, acceptAll, h, ih rest]
      rcases acceptAll rest lens with ⟨m', _ | rest'⟩
      · rfl
      · simp [Nat.add_assoc]

/-- What a sequence of writes leaves of a run: how far it came, and how it went on. -/
structure Outcome (x : Except Halt Unit × Disk) (left : Option (List PwriteOutcome))
    (file : Bytes) : Prop where
  file_eq : x.2.file = file
  goes_on : ∀ rest, left = some rest → x.1 = .ok () ∧ x.2.pending = rest
  halts : left = none → x.1 ≠ .ok ()

lemma perform_outcome (w : PlannedWrite) (disk : Disk)
    (fits : w.offset.toNat + w.bytes.length < 2 ^ 32) (inside : w.offset.toNat ≤ disk.file.length) :
    Outcome (Writing.on (perform w) disk) (accept disk.pending w.bytes.length).2
      (patch disk.file w.offset.toNat
        (w.bytes.take (accept disk.pending w.bytes.length).1)) := by
  obtain ⟨hfile, hdone, hstop⟩ := writeLoop_accept disk.pending w.bytes w.offset disk.file
    disk.lastErrno fits inside
  rw [on_perform]
  rcases hloop : writeLoop disk.pending w.bytes w.offset disk.file disk.lastErrno with ⟨r, disk'⟩
  rw [hloop] at hfile hdone hstop
  rcases r with halt | _ | _
  · refine ⟨hfile, fun rest h => ?_, fun _ => by simp⟩
    cases (hdone rest h).1
  · refine ⟨hfile, fun rest h => ?_, fun _ => by simp⟩
    cases (hdone rest h).1
  · exact ⟨hfile, fun rest h => ⟨rfl, (hdone rest h).2⟩, fun h => absurd rfl (hstop h)⟩

lemma bind_outcome {x y : Writing Unit} {disk : Disk} {left : Option (List PwriteOutcome)}
    {file : Bytes} (first : Outcome (Writing.on x disk) left file) :
    (left = none → Outcome (Writing.on (x >>= fun _ => y) disk) none file) ∧
      (∀ rest, left = some rest →
        ∃ disk', disk'.file = file ∧ disk'.pending = rest ∧
          Writing.on (x >>= fun _ => y) disk = Writing.on y disk') := by
  rcases hx : Writing.on x disk with ⟨r, disk'⟩
  rw [hx] at first
  constructor
  · intro hleft
    rw [on_bind, hx]
    rcases r with halt | u
    · exact ⟨first.file_eq, fun rest h => (by cases h), fun _ => (by simp)⟩
    · exact absurd rfl (first.halts hleft)
  · intro rest hleft
    obtain ⟨hok, hpending⟩ := first.goes_on rest hleft
    refine ⟨disk', first.file_eq, hpending, ?_⟩
    rw [on_bind, hx]
    cases r with
    | error halt => cases hok
    | ok u => rfl

/-- Consecutive writes from the end of the file append what the kernel accepts. -/
theorem writesFrom_outcome (errMsg : Nat → Option DbError) (parts : List Bytes) (off : UInt32)
    (disk : Disk) (atEnd : off.toNat = disk.file.length)
    (fits : disk.file.length + parts.flatten.length < 2 ^ 32) :
    Outcome (Writing.on (performAll (writesFrom errMsg off parts)) disk)
      (acceptAll disk.pending (parts.map List.length)).2
      (disk.file ++ parts.flatten.take (acceptAll disk.pending (parts.map List.length)).1) := by
  induction parts generalizing off disk with
  | nil =>
    refine ⟨by simp [writesFrom, performAll, on_pure, acceptAll], ?_, ?_⟩
    · intro rest h
      simp only [List.map_nil, acceptAll, Option.some.injEq] at h
      exact ⟨rfl, h⟩
    · intro h
      cases h
  | cons part rest ih =>
    rw [List.flatten_cons, List.length_append] at fits
    have first := perform_outcome ⟨off, part, errMsg⟩ disk
      (by change off.toNat + part.length < _; omega) (by change off.toNat ≤ _; omega)
    have bounds := accept_bounds disk.pending part.length
    obtain ⟨halts, goes_on⟩ := bind_outcome
      (y := performAll (writesFrom errMsg (off + UInt32.ofNat part.length) rest)) first
    simp only [writesFrom, performAll, List.map_cons, acceptAll, List.flatten_cons]
    rcases hacc : accept disk.pending part.length with ⟨m, _ | left⟩
    · rw [hacc] at bounds halts
      have hlt : m < part.length := bounds.2 rfl
      have hpatch : patch disk.file off.toNat (part.take m) =
          disk.file ++ (part ++ rest.flatten).take m := by
        rw [atEnd, patch_end, List.take_append_of_le_length (by omega)]
      rw [← hpatch]
      exact halts rfl
    · rw [hacc] at bounds goes_on
      have hall : m = part.length := bounds.1 left rfl
      obtain ⟨disk', hfile, hpending, hrun⟩ := goes_on left rfl
      have hfile' : disk'.file = disk.file ++ part := by
        rw [hfile, atEnd, hall, List.take_length, patch_end]
      have hoff : (off + UInt32.ofNat part.length).toNat = disk'.file.length := by
        rw [UInt32.toNat_add, UInt32.toNat_ofNat',
          Nat.mod_eq_of_lt (by omega : part.length < 2 ^ 32), hfile', List.length_append,
          Nat.mod_eq_of_lt (by omega), atEnd]
      have later := ih (off + UInt32.ofNat part.length) disk' hoff
        (by rw [hfile', List.length_append]; omega)
      rw [hpending] at later
      rw [hrun]
      have hjoin : disk.file ++ (part ++ rest.flatten).take
          (m + (acceptAll left (rest.map List.length)).1) =
          disk'.file ++ rest.flatten.take (acceptAll left (rest.map List.length)).1 := by
        rw [hfile', hall, List.take_length_add_append, List.append_assoc]
      rw [hjoin]
      exact later

/-- Two computations in sequence, when one function of the stored bytes describes both files. -/
lemma seq_outcome {x y : Writing Unit} {disk : Disk} {lens more : List Nat} {G : Nat → Bytes}
    (first : Outcome (Writing.on x disk) (acceptAll disk.pending lens).2
      (G (acceptAll disk.pending lens).1))
    (second : ∀ disk', disk'.file = G lens.sum →
      Outcome (Writing.on y disk') (acceptAll disk'.pending more).2
        (G (lens.sum + (acceptAll disk'.pending more).1))) :
    Outcome (Writing.on (x >>= fun _ => y) disk) (acceptAll disk.pending (lens ++ more)).2
      (G (acceptAll disk.pending (lens ++ more)).1) := by
  have bounds := acceptAll_bounds disk.pending lens
  obtain ⟨halts, goes_on⟩ := bind_outcome (y := y) first
  rw [acceptAll_append]
  rcases hacc : acceptAll disk.pending lens with ⟨m, _ | left⟩
  · rw [hacc] at halts
    exact halts rfl
  · rw [hacc] at bounds goes_on
    have hall : m = lens.sum := bounds.1 left rfl
    obtain ⟨disk', hfile, hpending, hrun⟩ := goes_on left rfl
    rw [hrun, hall]
    have later := second disk' (by rw [hfile, hall])
    rw [hpending] at later
    exact later

end Acceptance

section StoredRun

lemma partOffset_toNat (base : UInt32) (parts : List Bytes) (i : Nat)
    (fits : base.toNat + offsetOf parts i < 2 ^ 32) :
    (partOffset base parts i).toNat = base.toNat + offsetOf parts i := by
  have hsum := foldl_lengths (fun p : Bytes => p) (parts.take i) base
  rw [List.map_id'] at hsum
  rw [partOffset, hsum, UInt32.toNat_add, UInt32.toNat_ofNat']
  change (base.toNat + offsetOf parts i % 2 ^ 32) % 2 ^ 32 = _
  rw [Nat.mod_eq_of_lt (by omega : offsetOf parts i < 2 ^ 32), Nat.mod_eq_of_lt fits]

variable (z : Zstd) (order : IterationOrder (TrigramCode × List UInt32)) (args : StoreArgs)

/-- Everything that is written before the final header, in file order. -/
def storedParts (built : BuiltTables) : List Bytes := leadParts z args ++ blockParts built

/-- The file when the kernel has stored `m` bytes of the run. -/
def imageAfter (built : BuiltTables) (m : Nat) : Bytes :=
  patch ((storedParts z args built).flatten.take m) 0
    ((databaseHeaderCodec.encode (finalHeader z args built)).take
      (m - (storedParts z args built).flatten.length))

/-- The lengths of the writes of a run whose tables could be built. -/
def runLengths (built : BuiltTables) : List Nat :=
  (storedParts z args built).map List.length ++ [databaseHeaderCodec.width]

lemma imageAfter_before {built : BuiltTables} {m : Nat}
    (h : m ≤ (storedParts z args built).flatten.length) :
    imageAfter z args built m = (storedParts z args built).flatten.take m := by
  rw [imageAfter, Nat.sub_eq_zero_of_le h, List.take_zero]
  exact patch_nil (Nat.zero_le _)

lemma sum_lengths (parts : List Bytes) : (parts.map List.length).sum = parts.flatten.length := by
  rw [List.length_flatten]

variable {z args}

lemma storedParts_length (built : BuiltTables) : (storedParts z args built).flatten.length =
    (leadParts z args).flatten.length + (blockParts built).flatten.length := by
  rw [storedParts, List.flatten_append, List.length_append]

lemma tablesOffset_eq (fits : (leadParts z args).flatten.length < 2 ^ 32) :
    (tablesOffset z args).toNat = (leadParts z args).flatten.length := by
  have htake : offsetOf (leadParts z args) 3 = (leadParts z args).flatten.length := rfl
  have hstart : (0 : UInt32).toNat + offsetOf (leadParts z args) 3 < 2 ^ 32 := by
    rw [htake]
    exact (Nat.zero_add _).trans_lt fits
  rw [tablesOffset, partOffset_toNat 0 (leadParts z args) 3 hstart, htake]
  exact Nat.zero_add _

/-- The placeholder, the configuration and the dictionary, written to an empty file. -/
lemma lead_outcome {built : BuiltTables} (fits : (storedParts z args built).flatten.length < 2 ^ 32)
    {disk : Disk} (empty : disk.file = []) :
    Outcome (Writing.on (performAll (leadWrites z args)) disk)
      (acceptAll disk.pending ((leadParts z args).map List.length)).2
      (imageAfter z args built
        (acceptAll disk.pending ((leadParts z args).map List.length)).1) := by
  have htotal := @storedParts_length z args built
  have lead := writesFrom_outcome (fun errno => some (.system errno)) (leadParts z args) 0 disk
    (by rw [empty]; rfl) (by rw [empty, List.length_nil]; omega)
  have hle : (acceptAll disk.pending ((leadParts z args).map List.length)).1 ≤
      (leadParts z args).flatten.length := by
    rw [← sum_lengths]
    exact acceptAll_le _ _
  rw [imageAfter_before z args (by omega), storedParts, List.flatten_append,
    List.take_append_of_le_length hle]
  simpa only [leadWrites, empty, List.nil_append] using lead

/-- The nine blocks, written behind them. -/
lemma blocks_outcome {built : BuiltTables}
    (fits : (storedParts z args built).flatten.length < 2 ^ 32) {disk : Disk}
    (behind : disk.file = imageAfter z args built ((leadParts z args).map List.length).sum) :
    Outcome (Writing.on
        (performAll (writesFrom (fun _ => none) (tablesOffset z args) (blockParts built))) disk)
      (acceptAll disk.pending ((blockParts built).map List.length)).2
      (imageAfter z args built (((leadParts z args).map List.length).sum +
        (acceptAll disk.pending ((blockParts built).map List.length)).1)) := by
  have htotal := @storedParts_length z args built
  rw [sum_lengths, imageAfter_before z args (by omega), storedParts, List.flatten_append,
    List.take_left] at behind
  have blocks := writesFrom_outcome (fun _ => none) (blockParts built) (tablesOffset z args) disk
    (by rw [tablesOffset_eq (by omega), behind]) (by rw [behind]; omega)
  have hle : (acceptAll disk.pending ((blockParts built).map List.length)).1 ≤
      (blockParts built).flatten.length := by
    rw [← sum_lengths]
    exact acceptAll_le _ _
  rw [behind] at blocks
  rw [sum_lengths, imageAfter_before z args (by omega), storedParts, List.flatten_append,
    List.take_length_add_append]
  exact blocks

/-- The final header, written over the placeholder. -/
lemma header_outcome {built : BuiltTables} {disk : Disk}
    (behind : disk.file = imageAfter z args built
      ((storedParts z args built).map List.length).sum) :
    Outcome (Writing.on (perform
        ⟨0, databaseHeaderCodec.encode (finalHeader z args built), fun _ => none⟩) disk)
      (acceptAll disk.pending [databaseHeaderCodec.width]).2
      (imageAfter z args built (((storedParts z args built).map List.length).sum +
        (acceptAll disk.pending [databaseHeaderCodec.width]).1)) := by
  rw [sum_lengths] at behind ⊢
  rw [imageAfter_before z args (Nat.le_refl _), List.take_length] at behind
  have header := perform_outcome
    ⟨0, databaseHeaderCodec.encode (finalHeader z args built), fun _ => none⟩ disk
    (by rw [Codec.encode_length]; exact (by decide : 0 + databaseHeaderCodec.width < 2 ^ 32))
    (Nat.zero_le _)
  rw [Codec.encode_length, behind] at header
  have himage : imageAfter z args built ((storedParts z args built).flatten.length +
      (accept disk.pending databaseHeaderCodec.width).1) =
      patch (storedParts z args built).flatten 0
        ((databaseHeaderCodec.encode (finalHeader z args built)).take
          (accept disk.pending databaseHeaderCodec.width).1) := by
    rw [imageAfter, List.take_of_length_le (by omega), Nat.add_sub_cancel_left]
  rw [acceptAll_singleton, himage]
  exact header

variable (z args)

/-- A run whose tables are built leaves the image of the bytes that the kernel stored. -/
theorem storeDb_built {built : BuiltTables}
    (hbuilt : buildTables z order args (withDictOf z args) = .ok built)
    (fits : (storedParts z args built).flatten.length < 2 ^ 32) (disk : Disk) :
    Outcome (Writing.on (storeDb z order (.ok ()) args) disk)
      (acceptAll disk.pending (runLengths z args built)).2
      (imageAfter z args built (acceptAll disk.pending (runLengths z args built)).1) := by
  have hplan : storeDb z order (.ok ()) args =
      (modify (fun disk => { disk with file := [] }) >>= fun _ =>
        (performAll (leadWrites z args) >>= fun _ =>
          performAll (writesFrom (fun _ => none) (tablesOffset z args) (blockParts built))) >>=
            fun _ => perform ⟨0, databaseHeaderCodec.encode (finalHeader z args built),
              fun _ => none⟩) := by
    have hpure : (ExceptT.mk (pure (.ok built)) : Writing BuiltTables) = pure built := rfl
    rw [storeDb_eq_plan, hbuilt, hpure]
    simp only [pure_bind, tableWrites, performAll_append, performAll_singleton, bind_assoc]
  have hlens : (storedParts z args built).map List.length =
      (leadParts z args).map List.length ++ (blockParts built).map List.length := by
    rw [storedParts, List.map_append]
  rw [hplan, on_bind, runLengths]
  apply seq_outcome
  · rw [hlens]
    apply seq_outcome
    · exact @lead_outcome z args built fits { disk with file := [] } rfl
    · exact fun disk' behind => blocks_outcome fits behind
  · exact fun disk' behind => header_outcome behind

end StoredRun
end WritePlan
