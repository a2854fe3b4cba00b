import SymFind.Database.DatabaseRoundTrip

/-!
# Training that failed

The buffer of a training that failed keeps its full size, and it is stored as a
dictionary. A database written so differs from one without a dictionary at least in
the length that its header gives to the dictionary.
-/
namespace FailedTraining
open RecordCodec Machine SymbolData TrigramCodes DatabaseLayout Compression DatabaseBlocks
open FilePatch DatabaseWriting WritePlan DatabaseRoundTrip

section Completed

variable {z : Zstd} {order : IterationOrder (TrigramCode × List UInt32)} {args : StoreArgs}
  {file : Bytes}

/-- A run of `store_db` that returns true leaves the file. -/
def Completed (z : Zstd) (order : IterationOrder (TrigramCode × List UInt32)) (args : StoreArgs)
    (file : Bytes) : Prop :=
  ∃ opened disk disk', Writing.on (storeDb z order opened args) disk = (.ok (), disk') ∧
    disk'.file = file

/-- The write of the final header puts it in front, wherever the parts before it went. -/
lemma header_in_front (hdr : DatabaseHeader) (errMsg : Nat → Option DbError) {disk disk' : Disk}
    (h : Writing.on (perform ⟨0, databaseHeaderCodec.encode hdr, errMsg⟩) disk = (.ok (), disk')) :
    databaseHeaderCodec.decode disk'.file = some hdr := by
  have outcome := perform_outcome ⟨0, databaseHeaderCodec.encode hdr, errMsg⟩ disk
    (by rw [Codec.encode_length]; exact (by decide : 0 + databaseHeaderCodec.width < 2 ^ 32))
    (Nat.zero_le _)
  rw [h] at outcome
  have bounds := accept_bounds disk.pending (databaseHeaderCodec.encode hdr).length
  cases hleft : (accept disk.pending (databaseHeaderCodec.encode hdr).length).2 with
  | none => exact absurd rfl (outcome.halts hleft)
  | some rest =>
    have hfile : disk'.file = _ := outcome.file_eq
    rw [hfile, bounds.1 rest hleft, List.take_length]
    change databaseHeaderCodec.decode (patch disk.file 0 (databaseHeaderCodec.encode hdr)) = _
    rw [patch_front, Codec.decode_encode]

lemma completed_header (h : Completed z order args file) :
    ∃ built, databaseHeaderCodec.decode file = some (finalHeader z args built) := by
  obtain ⟨opened, disk, disk', hrun, rfl⟩ := h
  cases opened with
  | error errno => cases hrun
  | ok u =>
    rw [storeDb_eq_plan] at hrun
    obtain ⟨_, _, _, hrun⟩ := on_bind_ok hrun
    obtain ⟨_, _, _, hrun⟩ := on_bind_ok hrun
    obtain ⟨built, _, _, hrun⟩ := on_bind_ok hrun
    rw [tableWrites, performAll_append, performAll_singleton] at hrun
    obtain ⟨_, _, _, hrun⟩ := on_bind_ok hrun
    exact ⟨built, header_in_front _ _ hrun⟩

def dictionaryLength (file : Bytes) : Option UInt64 :=
  (databaseHeaderCodec.decode file).map DatabaseHeader.zstdDictionaryLength

lemma completed_length (h : Completed z order args file) :
    dictionaryLength file = some (UInt64.ofNat (dictionaryOf z args).length) := by
  obtain ⟨built, hheader⟩ := completed_header h
  rw [dictionaryLength, hheader]
  rfl

end Completed

section Training

/-- Training works in the buffer that it is given. -/
def TrainsInPlace (z : Zstd) : Prop :=
  ∀ buffer samples sizes, (z.trainFromBuffer buffer samples sizes).1.length = buffer.length

lemma resize_length (bs : Bytes) (n : Nat) : (DictionaryBuilder.resize bs n).length = n := by
  rw [DictionaryBuilder.resize, List.length_append, List.length_take, List.length_replicate]
  omega

lemma train_failed_length {z : Zstd} (inPlace : TrainsInPlace z) {b : DictionaryBuilder}
    {e : Bytes} (fails : (b.train z).2 = .error e) :
    (b.train z).1.length = b.maxDictionarySize := by
  have hlength := inPlace (DictionaryBuilder.resize [] b.maxDictionarySize) b.samples b.handedSizes
  rw [resize_length] at hlength
  rw [DictionaryBuilder.train] at fails ⊢
  rcases htrain : z.trainFromBuffer (DictionaryBuilder.resize [] b.maxDictionarySize) b.samples
    b.handedSizes with ⟨dictionary, errorName | dictSize⟩
  · rw [htrain] at hlength
    exact hlength
  · rw [htrain] at fails
    cases fails

/-- The builder of the program with the samples of a scan. -/
def builderOf (samples : List Bytes) : DictionaryBuilder :=
  samples.foldl DictionaryBuilder.addSample DictionaryBuilder.new

lemma addSamples_size (samples : List Bytes) (b : DictionaryBuilder) :
    (samples.foldl DictionaryBuilder.addSample b).maxDictionarySize = b.maxDictionarySize := by
  induction samples generalizing b with
  | nil => rfl
  | cons sample samples ih =>
    rw [List.foldl_cons, ih, DictionaryBuilder.addSample]
    split <;> rfl

lemma builderOf_size (samples : List Bytes) :
    (builderOf samples).maxDictionarySize = 128 * 1024 := addSamples_size samples _

def withBuilder (args : StoreArgs) (samples : List Bytes) : StoreArgs :=
  { args with dictBuilder := some (builderOf samples) }

def withoutBuilder (args : StoreArgs) : StoreArgs := { args with dictBuilder := none }

variable {z : Zstd} {order : IterationOrder (TrigramCode × List UInt32)} {args : StoreArgs}
  {samples : List Bytes} {e file file' : Bytes}

lemma trained_length (inPlace : TrainsInPlace z)
    (fails : ((builderOf samples).train z).2 = .error e)
    (stored : Completed z order (withBuilder args samples) file) :
    dictionaryLength file = some (128 * 1024) := by
  have hdictionary : (dictionaryOf z (withBuilder args samples)).length = 128 * 1024 :=
    (train_failed_length inPlace fails).trans (builderOf_size samples)
  rw [completed_length stored, hdictionary]
  rfl

lemma untrained_length (stored : Completed z order (withoutBuilder args) file) :
    dictionaryLength file = some 0 := completed_length stored

end Training

section Runs

/-- A kernel whose every call stores a whole buffer. -/
lemma acceptAll_whole {lens : List Nat} {n k : Nat} (whole : lens.sum ≤ n)
    (enough : lens.length ≤ k) :
    ∃ rest, (acceptAll (List.replicate k (.stored n)) lens).2 = some rest := by
  induction lens generalizing k with
  | nil => exact ⟨_, rfl⟩
  | cons len lens ih =>
    rw [List.sum_cons] at whole
    rw [List.length_cons] at enough
    cases len with
    | zero =>
      obtain ⟨rest, hall⟩ := ih (by omega) (by omega : lens.length ≤ k)
      refine ⟨rest, ?_⟩
      simp only [acceptAll, accept]
      exact hall
    | succ len =>
      obtain ⟨k, rfl⟩ : ∃ m, k = m + 1 := ⟨k - 1, by omega⟩
      obtain ⟨rest, hall⟩ := ih (by omega) (by omega : lens.length ≤ k)
      have hwrite : min (n + 1) (len + 1) = len + 1 := by omega
      refine ⟨rest, ?_⟩
      simp only [acceptAll, List.replicate_succ, accept, hwrite, Nat.sub_self]
      exact hall

/-- With such a kernel a run completes when its tables can be built. -/
lemma completes {z : Zstd} {order : IterationOrder (TrigramCode × List UInt32)} {args : StoreArgs}
    {built : BuiltTables} (hbuilt : buildTables z order args (withDictOf z args) = .ok built)
    (fits : (storedParts z args built).flatten.length < 2 ^ 32) :
    ∃ file, Completed z order args file := by
  obtain ⟨rest, hall⟩ := acceptAll_whole (Nat.le_refl (runLengths z args built).sum)
    (Nat.le_refl (runLengths z args built).length)
  have outcome := storeDb_built z order args hbuilt fits
    ⟨[], List.replicate (runLengths z args built).length (.stored (runLengths z args built).sum), 0⟩
  rcases hrun : Writing.on (storeDb z order (.ok ()) args) ⟨[], List.replicate
    (runLengths z args built).length (.stored (runLengths z args built).sum), 0⟩ with ⟨r, disk'⟩
  rw [hrun] at outcome
  have hok := (outcome.goes_on rest hall).1
  exact ⟨disk'.file, .ok (), _, disk', hrun.trans (congrArg (·, disk') hok), rfl⟩

/-- The sample data are stored with any dictionary that leaves room for their tables. -/
lemma sample_completes {builder : Option DictionaryBuilder}
    (room : (dictionaryOf Zstd.stored { sampleArgs with dictBuilder := builder }).length ≤ 2 ^ 31) :
    ∃ file, Completed Zstd.stored (IterationOrder.insertion _)
      { sampleArgs with dictBuilder := builder } file := by
  have hsmall : ∀ withDict ∈ [none, some ()], (buildTables Zstd.stored (IterationOrder.insertion _)
      sampleArgs withDict).toOption.any (fun built =>
        decide ((blockParts built).flatten.length < 2 ^ 30)) = true := by decide +kernel
  have hwithDict : withDictOf Zstd.stored { sampleArgs with dictBuilder := builder } ∈
      [none, some ()] := by
    cases builder with
    | none => exact List.mem_cons_self
    | some b => exact List.mem_cons_of_mem _ List.mem_cons_self
  have hblocks := hsmall _ hwithDict
  cases hbuilt : buildTables Zstd.stored (IterationOrder.insertion _) sampleArgs
      (withDictOf Zstd.stored { sampleArgs with dictBuilder := builder }) with
  | error halt =>
    rw [hbuilt] at hblocks
    cases hblocks
  | ok built =>
    rw [hbuilt, Except.toOption, Option.any_some, decide_eq_true_eq] at hblocks
    refine completes hbuilt ?_
    have hconf : sampleArgs.conf.confBlock.length = 17 := by decide +kernel
    rw [storedParts_length, lead_length, databaseHeaderCodec_width]
    change 220 + sampleArgs.conf.confBlock.length + _ + _ < _
    omega

end Runs

section Stored

variable {z : Zstd} {order : IterationOrder (TrigramCode × List UInt32)} {args : StoreArgs}
  {samples : List Bytes} {e file file' : Bytes}

/-- Whenever training fails, the databases of a run with the builder and of a run without one
differ: the header of the first one gives the untrained buffer for a dictionary. -/
theorem failed_training_stored (inPlace : TrainsInPlace z)
    (fails : ((builderOf samples).train z).2 = .error e)
    (stored : Completed z order (withBuilder args samples) file)
    (plain : Completed z order (withoutBuilder args) file') :
    dictionaryLength file = some (128 * 1024) ∧ dictionaryLength file' = some 0 ∧
      file ≠ file' := by
  have htrained := trained_length inPlace fails stored
  have huntrained := untrained_length plain
  refine ⟨htrained, huntrained, ?_⟩
  rintro rfl
  rw [htrained] at huntrained
  exact absurd huntrained (by decide)

/-- A compressor whose training fails works in place. -/
lemma stored_inPlace : TrainsInPlace Zstd.stored := fun _ _ _ => rfl

lemma stored_fails (b : DictionaryBuilder) :
    (b.train Zstd.stored).2 = .error (text "Src size is incorrect") := rfl

lemma sample_both (samples : List Bytes) :
    (∃ file, Completed Zstd.stored (IterationOrder.insertion _)
        (withBuilder sampleArgs samples) file) ∧
      ∃ file, Completed Zstd.stored (IterationOrder.insertion _) (withoutBuilder sampleArgs)
        file := by
  constructor
  · refine @sample_completes (some (builderOf samples)) ?_
    have hlength := train_failed_length stored_inPlace (stored_fails (builderOf samples))
    rw [builderOf_size] at hlength
    change ((builderOf samples).train Zstd.stored).1.length ≤ 2 ^ 31
    omega
  · exact @sample_completes none (Nat.zero_le _)

theorem failed_training_stored_sample :
    ∃ file file', Completed Zstd.stored (IterationOrder.insertion _)
        (withBuilder sampleArgs [text "libc.so"]) file ∧
      Completed Zstd.stored (IterationOrder.insertion _) (withoutBuilder sampleArgs) file' ∧
      dictionaryLength file = some (128 * 1024) ∧ dictionaryLength file' = some 0 ∧
        file ≠ file' := by
  obtain ⟨⟨file, stored⟩, file', plain⟩ := sample_both [text "libc.so"]
  exact ⟨file, file', stored, plain,
    failed_training_stored stored_inPlace (stored_fails _) stored plain⟩

/-- One sample of seven bytes is too little to train on, and the databases differ. -/
theorem untrained_differs :
    ¬ ∀ (z : Zstd) (order : IterationOrder (TrigramCode × List UInt32)) (args : StoreArgs)
        (samples : List Bytes) (e file file' : Bytes), TrainsInPlace z →
      ((builderOf samples).train z).2 = .error e →
      Completed z order (withBuilder args samples) file →
      Completed z order (withoutBuilder args) file' → file = file' := by
  intro hall
  obtain ⟨⟨file, stored⟩, file', plain⟩ := sample_both [text "libc.so"]
  have hsame := hall Zstd.stored (IterationOrder.insertion _) sampleArgs _ _ file file'
    stored_inPlace (stored_fails _) stored plain
  have htrained := trained_length stored_inPlace (stored_fails _) stored
  rw [hsame, untrained_length plain] at htrained
  exact absurd htrained (by decide)

end Stored
end FailedTraining
