import SymFind.Database.DatabaseRoundTrip

/-!
# Databases that a run left unfinished

A run may stop at any byte: the kernel refuses a write, or the process dies. The
placeholder header already carries the magic and the version, so a reader
accepts the file from its tenth byte on, long before the blocks are there.
-/
namespace InterruptedStore
open RecordCodec InsertionMap Machine SymbolData TrigramCodes DatabaseLayout TrigramTable
open PathCache Compression DatabaseBlocks FilePatch Config DatabaseWriting WritePlan
open DatabaseReading DatabaseRoundTrip

section Stopping

variable (z : Zstd) (order : IterationOrder (TrigramCode × List UInt32)) (args : StoreArgs)

/-- Everything that a run writes before the final header, if it gets there. -/
def partsBefore : List Bytes :=
  match buildTables z order args (withDictOf z args) with
  | .ok built => storedParts z args built
  | .error _ => leadParts z args

/-- The lengths of all writes of a run. -/
def writeLengths : List Nat :=
  match buildTables z order args (withDictOf z args) with
  | .ok built => runLengths z args built
  | .error _ => (leadParts z args).map List.length

/-- The bytes that the kernel stores before the run stops. -/
def storedBytes (pending : List PwriteOutcome) : Nat :=
  (acceptAll pending (writeLengths z order args)).1

/-- The file that a run leaves, wherever it stops. -/
def fileLeft (disk : Disk) : Bytes := (Writing.on (storeDb z order (.ok ()) args) disk).2.file

lemma writeLengths_first :
    ∃ lens, writeLengths z order args = databaseHeaderCodec.width :: lens := by
  rw [writeLengths]
  cases buildTables z order args (withDictOf z args) with
  | ok built =>
    exact ⟨_, by
      simp only [runLengths, storedParts, leadParts, List.cons_append, List.map_cons,
        Codec.encode_length]
      rfl⟩
  | error halt => exact ⟨_, by rw [leadParts, List.map_cons, Codec.encode_length]⟩

/-- The write of the placeholder header. -/
def firstWrite : PlannedWrite :=
  ⟨0, databaseHeaderCodec.encode placeholderHeader, fun errno => some (.system errno)⟩

lemma storeDb_first : ∃ rest : Writing Unit, storeDb z order (.ok ()) args =
    (modify (fun disk => { disk with file := [] }) >>= fun _ =>
      perform firstWrite >>= fun _ => rest) := by
  rw [storeDb_eq_plan]
  simp only [leadWrites, leadParts, writesFrom, performAll, bind_assoc]
  exact ⟨_, rfl⟩

variable {z order args}

lemma acceptAll_first {pending : List PwriteOutcome} {len : Nat} {lens : List Nat}
    (h : (acceptAll pending (len :: lens)).1 < len) :
    accept pending len = ((acceptAll pending (len :: lens)).1, none) := by
  have bounds := accept_bounds pending len
  rcases hacc : accept pending len with ⟨m, _ | rest⟩
  · simp [acceptAll, hacc]
  · rw [hacc] at bounds
    have hall : m = len := bounds.1 rest rfl
    simp only [acceptAll, hacc] at h
    omega

/-- A run that stops in its first write leaves the front of the placeholder header. -/
lemma fileLeft_first {disk : Disk}
    (short : storedBytes z order args disk.pending < databaseHeaderCodec.width) :
    fileLeft z order args disk = (databaseHeaderCodec.encode placeholderHeader).take
      (storedBytes z order args disk.pending) := by
  obtain ⟨lens, hlens⟩ := writeLengths_first z order args
  rw [storedBytes, hlens] at short ⊢
  have hacc := acceptAll_first short
  have first := perform_outcome firstWrite { disk with file := [] }
    (by rw [firstWrite, Codec.encode_length]; decide) (Nat.zero_le _)
  rw [firstWrite, Codec.encode_length] at first
  simp only [hacc] at first
  obtain ⟨rest, hplan⟩ := storeDb_first z order args
  have stopped := (bind_outcome (y := rest) first).1 rfl
  rw [fileLeft, hplan, on_bind]
  exact stopped.file_eq.trans ((patch_end [] _).trans (List.nil_append _))

/-- A run whose tables cannot be built leaves a front part of the first three writes. -/
lemma fileLeft_unbuilt {halt : Halt}
    (hbuilt : buildTables z order args (withDictOf z args) = .error halt)
    (fits : (leadParts z args).flatten.length < 2 ^ 32) (disk : Disk) :
    fileLeft z order args disk =
      (leadParts z args).flatten.take (storedBytes z order args disk.pending) := by
  have lead := writesFrom_outcome (fun errno => some (.system errno)) (leadParts z args) 0
    { disk with file := [] } rfl (by simp only [List.length_nil]; omega)
  have hplan : storeDb z order (.ok ()) args =
      (modify (fun disk => { disk with file := [] }) >>= fun _ =>
        performAll (leadWrites z args) >>= fun _ => (throw halt : Writing Unit)) := by
    rw [storeDb_eq_plan, hbuilt]
    rfl
  obtain ⟨halts, goes_on⟩ := bind_outcome (y := (throw halt : Writing Unit)) lead
  rw [fileLeft, hplan, on_bind, storedBytes, writeLengths, hbuilt]
  rw [List.nil_append] at halts goes_on
  cases hleft : (acceptAll disk.pending ((leadParts z args).map List.length)).2 with
  | none => exact (halts hleft).file_eq
  | some rest =>
    obtain ⟨disk', hfile, _, hrun⟩ := goes_on rest hleft
    change (Writing.on (performAll (leadWrites z args) >>= _) _).2.file = _
    rw [leadWrites, hrun, on_throw]
    exact hfile

/-- A run whose tables are built leaves the image of the stored bytes. -/
lemma fileLeft_built {built : BuiltTables}
    (hbuilt : buildTables z order args (withDictOf z args) = .ok built)
    (fits : (storedParts z args built).flatten.length < 2 ^ 32) (disk : Disk) :
    fileLeft z order args disk =
      imageAfter z args built (storedBytes z order args disk.pending) := by
  rw [fileLeft, (storeDb_built z order args hbuilt fits disk).file_eq, storedBytes, writeLengths,
    hbuilt]

/-- The final header over the placeholder, as far as the kernel has stored it. -/
lemma imageAfter_late {built : BuiltTables} {n : Nat} (h : n ≤ databaseHeaderCodec.width) :
    imageAfter z args built ((storedParts z args built).flatten.length + n) =
      (databaseHeaderCodec.encode (finalHeader z args built)).take n ++
        ((databaseHeaderCodec.encode placeholderHeader).drop n ++
          (args.conf.confBlock :: dictionaryOf z args :: blockParts built).flatten) := by
  have hlen : ((databaseHeaderCodec.encode (finalHeader z args built)).take n).length = n := by
    rw [List.length_take, Codec.encode_length, Nat.min_eq_left h]
  rw [imageAfter, List.take_of_length_le (Nat.le_add_right _ _), Nat.add_sub_cancel_left,
    patch_front, hlen, storedParts, leadParts, List.cons_append, List.flatten_cons,
    List.drop_append_of_le_length (by rw [Codec.encode_length]; exact h)]
  rfl

end Stopping

section Acceptance

/-- `read_header` accepts the file. -/
def Accepted (path file : Bytes) : Prop :=
  ∃ data hdr, mappedFileOpen path (.ok file) = .ok data ∧ readHeader data = .ok hdr

/-- The magic and the version, with which every header of a run begins. -/
def marks : Bytes :=
  Codec.u64.encode databaseHeaderMagic ++ Codec.u32.encode databaseHeaderVersionNumber

lemma encode_marks {hdr : DatabaseHeader} (hmagic : hdr.magic = databaseHeaderMagic)
    (hversion : hdr.version = databaseHeaderVersionNumber) :
    ∃ rest, databaseHeaderCodec.encode hdr = marks ++ rest := by
  obtain ⟨magic, version, _⟩ := hdr
  cases hmagic
  cases hversion
  exact ⟨_, (List.append_assoc _ _ _).symm⟩

lemma readHeader_marks (rest : Bytes)
    (long : databaseHeaderCodec.width ≤ (marks ++ rest).length) :
    ∃ hdr, readHeader (marks ++ rest) = .ok hdr := by
  obtain ⟨hdr, hdecode⟩ := databaseHeaderCodec_total _ long
  refine ⟨hdr, ?_⟩
  have hfields : hdr.magic = databaseHeaderMagic ∧ hdr.version = databaseHeaderVersionNumber := by
    rw [marks, List.append_assoc] at hdecode
    simp only [databaseHeaderCodec, Codec.rename, Codec.decode_pair_encode, Option.map_map,
      Option.map_eq_some_iff] at hdecode
    obtain ⟨fields, _, rfl⟩ := hdecode
    exact ⟨rfl, rfl⟩
  exact readHeader_marked hdecode hfields.1 hfields.2

lemma mappedPages_length {file : Bytes} (h : file.length ≠ 0) :
    pageSize ≤ (mappedPages file).length := by
  rw [mappedPages, List.length_append, List.length_replicate, pageSize]
  omega

/-- Ten bytes are enough: the mapping fills the last two bytes of the version with zeros. -/
lemma accepted_of_marks (path : Bytes) {file : Bytes} (long : 10 ≤ file.length)
    (hmarks : file.take 12 = marks.take file.length) : Accepted path file := by
  have hne : file.length ≠ 0 := by omega
  have hpages := mappedPages_length hne
  have hfront : (mappedPages file).take 12 = marks := by
    by_cases h : 12 ≤ file.length
    · rw [mappedPages, List.take_append_of_le_length h, hmarks, List.take_of_length_le h]
    · have hfile : file = marks.take file.length := by
        rw [← hmarks, List.take_of_length_le (by omega)]
      have hsize : file.length = 10 ∨ file.length = 11 := by omega
      rcases hsize with h10 | h11
      · rw [hfile, h10]
        decide +kernel
      · rw [hfile, h11]
        decide +kernel
  have hdata : mappedPages file = marks ++ (mappedPages file).drop 12 := by
    rw [← hfront, List.take_append_drop]
  obtain ⟨hdr, hread⟩ := readHeader_marks ((mappedPages file).drop 12) (by
    rw [← hdata, databaseHeaderCodec_width]
    exact Nat.le_trans (by decide) hpages)
  rw [← hdata] at hread
  exact ⟨_, hdr, if_neg hne, hread⟩

/-- With fewer than ten bytes of the placeholder the magic or the version is wrong. -/
lemma not_accepted_short (path : Bytes) {m : Nat} (short : m < 10) :
    ¬ Accepted path ((databaseHeaderCodec.encode placeholderHeader).take m) := by
  have hall : ∀ n ∈ List.range 10, (readHeader (mappedPages
      ((databaseHeaderCodec.encode placeholderHeader).take n))).isOk = false := by decide +kernel
  rintro ⟨data, hdr, hdata, hread⟩
  rw [mappedFileOpen] at hdata
  split at hdata
  · cases hdata
  · cases hdata
    have hno := hall m (List.mem_range.mpr short)
    rw [hread] at hno
    cases hno

end Acceptance

section Completeness

variable (z : Zstd) (order : IterationOrder (TrigramCode × List UInt32)) (args : StoreArgs)

/-- If a reader accepts the file that a run leaves, all blocks of the run are in place and the
header in front of them is the final one. -/
def MarksComplete (disk : Disk) : Prop :=
  Accepted args.conf.databasePath (fileLeft z order args disk) →
    ∃ built, buildTables z order args (withDictOf z args) = .ok built ∧
      fileLeft z order args disk = (imageParts z args built).flatten

/-- From its `n`-th byte on, the final header is the placeholder. -/
def SettledFrom (built : BuiltTables) (n : Nat) : Prop :=
  (databaseHeaderCodec.encode (finalHeader z args built)).drop n =
    (databaseHeaderCodec.encode placeholderHeader).drop n

instance (built : BuiltTables) (n : Nat) : Decidable (SettledFrom z args built n) :=
  inferInstanceAs (Decidable (_ = _))

/-- The kernel stores less than the magic and the version, or everything up to the final header
and of that header all bytes in which it differs from the placeholder. -/
def StopsSafely (pending : List PwriteOutcome) : Prop :=
  storedBytes z order args pending < 10 ∨
    ∃ built, buildTables z order args (withDictOf z args) = .ok built ∧
      (partsBefore z order args).flatten.length < 2 ^ 32 ∧
      (partsBefore z order args).flatten.length ≤ storedBytes z order args pending ∧
      SettledFrom z args built
        (storedBytes z order args pending - (partsBefore z order args).flatten.length)

variable {z order args}

lemma partsBefore_built {built : BuiltTables}
    (hbuilt : buildTables z order args (withDictOf z args) = .ok built) :
    partsBefore z order args = storedParts z args built := by
  rw [partsBefore, hbuilt]

lemma partsBefore_unbuilt {halt : Halt}
    (hbuilt : buildTables z order args (withDictOf z args) = .error halt) :
    partsBefore z order args = leadParts z args := by
  rw [partsBefore, hbuilt]

lemma storedBytes_le {built : BuiltTables}
    (hbuilt : buildTables z order args (withDictOf z args) = .ok built)
    (pending : List PwriteOutcome) :
    storedBytes z order args pending ≤
      (storedParts z args built).flatten.length + databaseHeaderCodec.width := by
  have hle := acceptAll_le pending (writeLengths z order args)
  have hsum : (writeLengths z order args).sum =
      (storedParts z args built).flatten.length + databaseHeaderCodec.width := by
    simp only [writeLengths, hbuilt, runLengths, List.sum_append, sum_lengths, List.sum_singleton]
  rw [hsum] at hle
  exact hle

/-- Where the kernel stores everything before the final header, that header decides. -/
lemma fileLeft_late {built : BuiltTables}
    (hbuilt : buildTables z order args (withDictOf z args) = .ok built)
    (fits : (storedParts z args built).flatten.length < 2 ^ 32) {disk : Disk}
    (late : (storedParts z args built).flatten.length ≤ storedBytes z order args disk.pending) :
    ∃ n, n ≤ databaseHeaderCodec.width ∧
      n = storedBytes z order args disk.pending - (storedParts z args built).flatten.length ∧
      fileLeft z order args disk = (databaseHeaderCodec.encode (finalHeader z args built)).take n ++
        ((databaseHeaderCodec.encode placeholderHeader).drop n ++
          (args.conf.confBlock :: dictionaryOf z args :: blockParts built).flatten) := by
  have hle := storedBytes_le hbuilt disk.pending
  obtain ⟨n, hn⟩ := Nat.le.dest late
  refine ⟨n, by omega, by omega, ?_⟩
  rw [fileLeft_built hbuilt fits, ← hn, imageAfter_late (by omega)]

lemma finalHeader_marks (z : Zstd) (args : StoreArgs) (built : BuiltTables) :
    ∃ rest, databaseHeaderCodec.encode (finalHeader z args built) = marks ++ rest :=
  encode_marks rfl rfl

lemma placeholder_marks : ∃ rest, databaseHeaderCodec.encode placeholderHeader = marks ++ rest :=
  encode_marks rfl rfl

lemma take_marks (rest : Bytes) {m : Nat} (long : 10 ≤ m) :
    10 ≤ ((marks ++ rest).take m).length ∧
      ((marks ++ rest).take m).take 12 = marks.take ((marks ++ rest).take m).length := by
  have hmarks : marks.length = 12 := rfl
  rw [List.length_take, List.length_append, hmarks]
  constructor
  · omega
  · rw [List.take_take, List.take_append_of_le_length (by omega)]
    by_cases h : m ≤ 12
    · rw [Nat.min_eq_right h, Nat.min_eq_left (by omega)]
    · rw [List.take_of_length_le (by omega), List.take_of_length_le (by omega)]

/-- Two headers that carry the marks carry them when they are mixed. -/
lemma mixed_marks (f g tail : Bytes) (n : Nat) :
    ∃ rest, (marks ++ f).take n ++ ((marks ++ g).drop n ++ tail) = marks ++ rest := by
  have hmarks : marks.length = 12 := rfl
  by_cases h : n ≤ 12
  · refine ⟨g ++ tail, ?_⟩
    rw [List.take_append_of_le_length (by omega), List.drop_append_of_le_length (by omega),
      List.append_assoc, ← List.append_assoc, List.take_append_drop]
  · rw [List.take_append, List.take_of_length_le (by omega), List.append_assoc]
    exact ⟨_, rfl⟩

/-- Every run that stores ten bytes leaves a file that is accepted. -/
lemma fileLeft_accepted (fits : (partsBefore z order args).flatten.length < 2 ^ 32) {disk : Disk}
    (long : 10 ≤ storedBytes z order args disk.pending) (path : Bytes) :
    Accepted path (fileLeft z order args disk) := by
  obtain ⟨ph, hph⟩ := placeholder_marks
  have growing : ∀ parts : List Bytes, Accepted path ((leadParts z args ++ parts).flatten.take
      (storedBytes z order args disk.pending)) := by
    intro parts
    rw [leadParts, List.cons_append, List.flatten_cons, hph, List.append_assoc]
    obtain ⟨hlong, hmarks⟩ := take_marks _ long
    exact accepted_of_marks path hlong hmarks
  cases hbuilt : buildTables z order args (withDictOf z args) with
  | error halt =>
    rw [partsBefore_unbuilt hbuilt] at fits
    rw [fileLeft_unbuilt hbuilt fits]
    have hlead := growing []
    rwa [List.append_nil] at hlead
  | ok built =>
    rw [partsBefore_built hbuilt] at fits
    by_cases late : (storedParts z args built).flatten.length ≤
        storedBytes z order args disk.pending
    · obtain ⟨n, _, _, hfile⟩ := fileLeft_late hbuilt fits late
      obtain ⟨fh, hfh⟩ := finalHeader_marks z args built
      rw [hfh, hph] at hfile
      obtain ⟨rest, hrest⟩ := mixed_marks fh ph
        (args.conf.confBlock :: dictionaryOf z args :: blockParts built).flatten n
      rw [hfile, hrest]
      obtain ⟨hlong, hmarks⟩ := take_marks rest (m := (marks ++ rest).length) (by
        rw [List.length_append]
        exact Nat.le_add_right_of_le (by decide))
      rw [List.take_length] at hlong hmarks
      exact accepted_of_marks path hlong hmarks
    · rw [fileLeft_built hbuilt fits, imageAfter_before z args (Nat.le_of_not_le late)]
      exact growing _

/-- Within 32-bit offsets, the final header is on disk in full exactly when its unstored bytes
are the placeholder's. -/
lemma complete_iff {built : BuiltTables}
    (hbuilt : buildTables z order args (withDictOf z args) = .ok built)
    (fits : (storedParts z args built).flatten.length < 2 ^ 32) (disk : Disk) :
    fileLeft z order args disk = (imageParts z args built).flatten ↔
      (storedParts z args built).flatten.length ≤ storedBytes z order args disk.pending ∧
        SettledFrom z args built (storedBytes z order args disk.pending -
          (storedParts z args built).flatten.length) := by
  by_cases late : (storedParts z args built).flatten.length ≤
      storedBytes z order args disk.pending
  · obtain ⟨n, hn, hdiff, hfile⟩ := fileLeft_late hbuilt fits late
    have himage : (imageParts z args built).flatten =
        (databaseHeaderCodec.encode (finalHeader z args built)).take n ++
          ((databaseHeaderCodec.encode (finalHeader z args built)).drop n ++
            (args.conf.confBlock :: dictionaryOf z args :: blockParts built).flatten) := by
      rw [imageParts, List.flatten_cons, ← List.append_assoc, List.take_append_drop]
    rw [hfile, ← hdiff, himage, List.append_right_inj, List.append_left_inj]
    exact ⟨fun heq => ⟨late, heq.symm⟩, fun h => h.2.symm⟩
  · constructor
    · intro hfile
      have hlen := congrArg List.length hfile
      rw [fileLeft_built hbuilt fits, imageAfter_before z args (Nat.le_of_not_le late),
        List.length_take, image_length] at hlen
      omega
    · rintro ⟨hlate, -⟩
      exact absurd hlate late

/-- A run that stops safely leaves no file that is accepted too early, and only such a run: the
magic and the version are stamped before the first block. -/
theorem header_marks_complete (z : Zstd) (order : IterationOrder (TrigramCode × List UInt32))
    (args : StoreArgs) (disk : Disk) :
    (StopsSafely z order args disk.pending → MarksComplete z order args disk) ∧
      ((partsBefore z order args).flatten.length < 2 ^ 32 → MarksComplete z order args disk →
        StopsSafely z order args disk.pending) := by
  constructor
  · rintro (short | ⟨built, hbuilt, fits, late, settled⟩) accepted
    · rw [fileLeft_first (Nat.lt_trans short (by decide))] at accepted
      exact absurd accepted (not_accepted_short _ short)
    · rw [partsBefore_built hbuilt] at fits late settled
      exact ⟨built, hbuilt, (complete_iff hbuilt fits disk).mpr ⟨late, settled⟩⟩
  · intro fits complete
    by_cases short : storedBytes z order args disk.pending < 10
    · exact Or.inl short
    · obtain ⟨built, hbuilt, hfile⟩ :=
        complete (fileLeft_accepted fits (Nat.le_of_not_lt short) _)
      refine Or.inr ⟨built, hbuilt, fits, ?_⟩
      rw [partsBefore_built hbuilt] at fits ⊢
      exact (complete_iff hbuilt fits disk).mp hfile

/-- All writes of the sample run succeed. -/
theorem header_marks_complete_sample :
    MarksComplete Zstd.stored (IterationOrder.insertion _) sampleArgs sampleDisk := by
  apply (header_marks_complete Zstd.stored (IterationOrder.insertion _) sampleArgs sampleDisk).1
  have hsafe : (buildTables Zstd.stored (IterationOrder.insertion _) sampleArgs
      (withDictOf Zstd.stored sampleArgs)).toOption.any (fun built =>
        decide ((partsBefore Zstd.stored (IterationOrder.insertion _)
            sampleArgs).flatten.length < 2 ^ 32 ∧
          (partsBefore Zstd.stored (IterationOrder.insertion _) sampleArgs).flatten.length ≤
            storedBytes Zstd.stored (IterationOrder.insertion _) sampleArgs sampleDisk.pending ∧
          SettledFrom Zstd.stored sampleArgs built
            (storedBytes Zstd.stored (IterationOrder.insertion _) sampleArgs sampleDisk.pending -
              (partsBefore Zstd.stored (IterationOrder.insertion _)
                sampleArgs).flatten.length))) = true := by decide +kernel
  cases hbuilt : buildTables Zstd.stored (IterationOrder.insertion _) sampleArgs
      (withDictOf Zstd.stored sampleArgs) with
  | error halt =>
    rw [hbuilt] at hsafe
    cases hsafe
  | ok built =>
    rw [hbuilt, Except.toOption, Option.any_some, decide_eq_true_eq] at hsafe
    exact Or.inr ⟨built, hbuilt, hsafe⟩

/-- The process dies right after its first write: the file is accepted and has no block. -/
theorem placeholder_accepted :
    ¬ MarksComplete Zstd.stored (IterationOrder.insertion _) sampleArgs ⟨[], [.stored 219], 0⟩ := by
  intro complete
  have haccepted : Accepted sampleArgs.conf.databasePath (fileLeft Zstd.stored
      (IterationOrder.insertion _) sampleArgs ⟨[], [.stored 219], 0⟩) :=
    fileLeft_accepted (by decide +kernel) (by decide +kernel) _
  obtain ⟨built, _, hfile⟩ := complete haccepted
  have hleft : (fileLeft Zstd.stored (IterationOrder.insertion _) sampleArgs
      ⟨[], [.stored 219], 0⟩).length = 220 := by decide +kernel
  have hconf : sampleArgs.conf.confBlock.length = 17 := by decide +kernel
  rw [hfile, imageParts, List.flatten_cons, List.flatten_cons, List.length_append,
    List.length_append, Codec.encode_length, databaseHeaderCodec_width] at hleft
  rw [hconf] at hleft
  omega

end Completeness
end InterruptedStore
