import SymFind.Build.ReproducibleBuild
import SymFind.Lib.OverlappingWriters

/-!
# Builds that write the database at the same time

Nothing keeps a second build from opening the database while the first one is
still writing it. Each truncates the file when its builder is made and again
before it writes, at its own offsets, and the calls of the two may come in any
order. Builds of the same files that all return
true leave what one of them leaves alone. Builds of different files may leave the
header of the one over the tables of the other.
-/
namespace OverlappingBuilds
open RecordCodec FilePatch OverlappingWriters Shuffle
open InsertionMap Machine SymbolData TrigramCodes PathCache Compression DatabaseLayout
open DatabaseBlocks Config DatabaseWriting WritePlan DatabaseReading DatabaseRoundTrip
open ParallelBuild SearchAgreement ReproducibleBuild

section Calls

/-- The calls of `pwrite` that store something of one buffer. -/
def writeCalls : List PwriteOutcome → Bytes → UInt32 → List FileOp
  | _, [], _ => []
  | [], _ :: _, _ => []
  | .stored more :: rest, b :: bs, offset =>
    let nwrite := min (more + 1) (b :: bs).length
    .write offset.toNat ((b :: bs).take nwrite) ::
      writeCalls rest ((b :: bs).drop nwrite) (offset + UInt32.ofNat nwrite)
  | .failed code :: rest, b :: bs, offset =>
    if code = eintr then writeCalls rest (b :: bs) offset else []

/-- The calls for a list of writes, which ends with the first one that is not stored whole. -/
def planCalls : List PwriteOutcome → List PlannedWrite → List FileOp
  | _, [] => []
  | pending, w :: ws =>
    writeCalls pending w.bytes w.offset ++
      ((accept pending w.bytes.length).2.elim [] fun rest => planCalls rest ws)

/-- The writes of a run, as far as the tables can be built. -/
def storeWrites (z : Zstd) (order : IterationOrder (TrigramCode × List UInt32))
    (args : StoreArgs) : List PlannedWrite :=
  leadWrites z args ++
    match buildTables z order args (withDictOf z args) with
    | .ok built => tableWrites z args built
    | .error _ => []

/-- What a run of `store_db` does to the file, given the answers of the kernel. -/
def storeCalls (z : Zstd) (order : IterationOrder (TrigramCode × List UInt32))
    (args : StoreArgs) (pending : List PwriteOutcome) : List FileOp :=
  .truncate :: planCalls pending (storeWrites z order args)

lemma writeLoop_calls (pending : List PwriteOutcome) (buf : Bytes) (off : UInt32) (file : Bytes)
    (errno : Nat) :
    (writeLoop pending buf off file errno).2.file = applyAll file (writeCalls pending buf off) ∧
      (∀ rest, (accept pending buf.length).2 = some rest →
        (writeLoop pending buf off file errno).1 = .ok true ∧
          (writeLoop pending buf off file errno).2.pending = rest) ∧
      ((accept pending buf.length).2 = none →
        (writeLoop pending buf off file errno).1 ≠ .ok true) := by
  induction pending generalizing buf off file errno with
  | nil =>
    cases buf with
    | nil => simp [writeLoop, accept, writeCalls, applyAll]
    | cons b bs => simp [writeLoop, accept, writeCalls, applyAll]
  | cons answer rest ih =>
    cases buf with
    | nil => simp [writeLoop, accept, writeCalls, applyAll]
    | cons b bs =>
      cases answer with
      | failed code =>
        by_cases h : code = eintr
        · simp only [writeLoop, accept, writeCalls, List.length_cons, if_pos h]
          exact ih (b :: bs) off file eintr
        · simp [writeLoop, accept, writeCalls, applyAll, h]
      | stored more =>
        rw [writeLoop_stored, accept_stored]
        exact ih _ _ _ errno

/-- The calls make up the effect of the writes, whatever is in the file before. -/
lemma performAll_calls (ws : List PlannedWrite) (disk : Disk) :
    (Writing.on (performAll ws) disk).2.file =
      applyAll disk.file (planCalls disk.pending ws) := by
  induction ws generalizing disk with
  | nil => rfl
  | cons w ws ih =>
    obtain ⟨hfile, hdone, hstop⟩ :=
      writeLoop_calls disk.pending w.bytes w.offset disk.file disk.lastErrno
    rw [performAll, on_bind, on_perform, planCalls, applyAll_append, ← hfile]
    rcases hloop : writeLoop disk.pending w.bytes w.offset disk.file disk.lastErrno with ⟨r, disk'⟩
    rw [hloop] at hdone hstop
    cases haccept : (accept disk.pending w.bytes.length).2 with
    | none =>
      rcases r with halt | _ | _
      · rfl
      · rfl
      · exact absurd rfl (hstop haccept)
    | some rest =>
      obtain ⟨hok, hpending⟩ := hdone rest haccept
      rcases r with halt | _ | _
      · cases hok
      · cases hok
      · exact (ih disk').trans (by rw [hpending]; rfl)

/-- A run of `store_db` on an open file does to it what its calls do. -/
theorem storeDb_calls (z : Zstd) (order : IterationOrder (TrigramCode × List UInt32))
    (args : StoreArgs) (disk : Disk) :
    (Writing.on (storeDb z order (.ok ()) args) disk).2.file =
      applyAll disk.file (storeCalls z order args disk.pending) := by
  have hrun := performAll_calls (storeWrites z order args) { disk with file := [] }
  rw [storeDb_eq_plan, on_bind, storeCalls]
  refine Eq.trans ?_ hrun
  rw [storeWrites]
  cases buildTables z order args (withDictOf z args) with
  | ok built =>
    rw [performAll_append]
    rfl
  | error halt =>
    rw [List.append_nil]
    change (Writing.on (performAll (leadWrites z args) >>= fun _ => throw halt) _).2.file = _
    rw [on_bind]
    rcases Writing.on (performAll (leadWrites z args)) { disk with file := [] } with ⟨r, disk'⟩
    cases r with
    | ok u => rfl
    | error halt' => rfl

end Calls

section Complete

lemma toNat_behind {off : UInt32} {n : Nat} (fits : off.toNat + n < 2 ^ 32) :
    (off + UInt32.ofNat n).toNat = off.toNat + n := by
  rw [UInt32.toNat_add, UInt32.toNat_ofNat', Nat.mod_eq_of_lt (by omega : n < 2 ^ 32)]
  exact Nat.mod_eq_of_lt fits

lemma writeCalls_lays {content buf : Bytes} {off : UInt32} {pending rest : List PwriteOutcome}
    (whole : (accept pending buf.length).2 = some rest) (part : buf <+: content.drop off.toNat)
    (fits : off.toNat + buf.length < 2 ^ 32) :
    Lays content off.toNat (writeCalls pending buf off) (off.toNat + buf.length) := by
  induction pending generalizing buf off with
  | nil =>
    cases buf with
    | nil => exact .done _
    | cons b bs => cases whole
  | cons answer pending ih =>
    cases buf with
    | nil => exact .done _
    | cons b bs =>
      cases answer with
      | failed code =>
        by_cases h : code = eintr
        · simp only [writeCalls, if_pos h]
          rw [List.length_cons, accept, if_pos h] at whole
          exact ih whole part fits
        · rw [List.length_cons, accept, if_neg h] at whole
          cases whole
      | stored more =>
        rw [accept_stored] at whole
        rw [writeCalls]
        have hle : min (more + 1) (b :: bs).length ≤ (b :: bs).length := Nat.min_le_right _ _
        generalize min (more + 1) (b :: bs).length = nwrite at whole hle ⊢
        have htake : ((b :: bs).take nwrite).length = nwrite := by
          rw [List.length_take, Nat.min_eq_left hle]
        have hnext := @toNat_behind off nwrite (by omega)
        have hbehind : (b :: bs).drop nwrite <+: content.drop (off.toNat + nwrite) := by
          rw [← List.drop_drop]
          exact part.drop nwrite
        have hstop : off.toNat + nwrite + ((b :: bs).drop nwrite).length =
            off.toNat + (b :: bs).length := by
          rw [List.length_drop]
          omega
        have hrest := ih whole (by rw [hnext]; exact hbehind) (by rw [hnext, hstop]; exact fits)
        rw [hnext, hstop] at hrest
        refine .write ((List.take_prefix _ _).trans part) ?_
        rw [htake]
        exact hrest

lemma planCalls_append {ws : List PlannedWrite} {pending rest : List PwriteOutcome}
    (whole : (acceptAll pending (ws.map fun w => w.bytes.length)).2 = some rest)
    (vs : List PlannedWrite) :
    planCalls pending (ws ++ vs) = planCalls pending ws ++ planCalls rest vs := by
  induction ws generalizing pending with
  | nil =>
    cases whole
    rfl
  | cons w ws ih =>
    rw [List.map_cons, acceptAll] at whole
    rw [List.cons_append, planCalls, planCalls]
    rcases haccept : accept pending w.bytes.length with ⟨m, _ | between⟩
    · rw [haccept] at whole
      cases whole
    · rw [haccept] at whole
      rw [List.append_assoc]
      exact congrArg _ (ih whole)

lemma writesFrom_lengths (errMsg : Nat → Option DbError) (off : UInt32) (parts : List Bytes) :
    (writesFrom errMsg off parts).map (fun w => w.bytes.length) = parts.map List.length := by
  induction parts generalizing off with
  | nil => rfl
  | cons part parts ih => exact congrArg _ (ih _)

lemma writesFrom_lays {content : Bytes} (errMsg : Nat → Option DbError) {parts : List Bytes}
    {off : UInt32} {pending rest : List PwriteOutcome}
    (whole : (acceptAll pending (parts.map List.length)).2 = some rest)
    (place : parts.flatten <+: content.drop off.toNat)
    (fits : off.toNat + parts.flatten.length < 2 ^ 32) :
    Lays content off.toNat (planCalls pending (writesFrom errMsg off parts))
      (off.toNat + parts.flatten.length) := by
  induction parts generalizing off pending with
  | nil => exact .done _
  | cons part parts ih =>
    rw [List.flatten_cons] at place fits ⊢
    rw [List.length_append] at fits ⊢
    rw [List.map_cons, acceptAll] at whole
    rw [writesFrom, planCalls]
    rcases haccept : accept pending part.length with ⟨m, _ | between⟩
    · rw [haccept] at whole
      cases whole
    · rw [haccept] at whole
      have hsome : (accept pending part.length).2 = some between := by rw [haccept]
      have hpart := writeCalls_lays hsome ((List.prefix_append _ _).trans place) (by omega)
      have hnext := @toNat_behind off part.length (by omega)
      have hplace := place.drop part.length
      rw [List.drop_left, List.drop_drop, ← hnext] at hplace
      have hrest := ih whole hplace (by omega)
      rw [hnext, Nat.add_assoc] at hrest
      exact hpart.append hrest

lemma planCalls_singleton (pending : List PwriteOutcome) (w : PlannedWrite) :
    planCalls pending [w] = writeCalls pending w.bytes w.offset := by
  rw [planCalls]
  cases (accept pending w.bytes.length).2 with
  | none => exact List.append_nil _
  | some rest => exact List.append_nil _

lemma acceptAll_split {pending rest : List PwriteOutcome} {lens more : List Nat}
    (whole : (acceptAll pending (lens ++ more)).2 = some rest) :
    ∃ between, (acceptAll pending lens).2 = some between ∧
      (acceptAll between more).2 = some rest := by
  rw [acceptAll_append] at whole
  rcases hlens : acceptAll pending lens with ⟨m, _ | between⟩
  · rw [hlens] at whole
    cases whole
  · rw [hlens] at whole
    exact ⟨between, rfl, whole⟩

variable {z : Zstd} {order : IterationOrder (TrigramCode × List UInt32)} {args : StoreArgs}
  {built : BuiltTables}

/-- Behind the header the image is what was written before it. -/
lemma image_agrees {p : Nat} (behind : databaseHeaderCodec.width ≤ p) :
    (storedParts z args built).flatten[p]? = (imageParts z args built).flatten[p]? := by
  rw [storedParts, leadParts, List.cons_append, List.flatten_cons, imageParts, List.flatten_cons,
    List.getElem?_append_right (by rw [Codec.encode_length]; exact behind),
    List.getElem?_append_right (by rw [Codec.encode_length]; exact behind),
    Codec.encode_length, Codec.encode_length]
  rfl

/-- The parts before the final header, laid one behind another. -/
lemma parts_laid (fits : (storedParts z args built).flatten.length < 2 ^ 32)
    {pending between rest : List PwriteOutcome}
    (lead : (acceptAll pending ((leadParts z args).map List.length)).2 = some between)
    (blocks : (acceptAll between ((blockParts built).map List.length)).2 = some rest) :
    Lays (storedParts z args built).flatten 0
      (planCalls pending (leadWrites z args) ++
        planCalls between (writesFrom (fun _ => none) (tablesOffset z args) (blockParts built)))
      (storedParts z args built).flatten.length := by
  have htotal := @storedParts_length z args built
  have hoffset := @tablesOffset_eq z args (by omega)
  have hparts : (storedParts z args built).flatten =
      (leadParts z args).flatten ++ (blockParts built).flatten := by
    rw [storedParts, List.flatten_append]
  have hlead := @writesFrom_lays (storedParts z args built).flatten
    (fun errno => some (.system errno)) (leadParts z args) 0 pending between lead
    (by rw [hparts]; exact List.prefix_append _ _)
    (by change 0 + _ < _; omega)
  have hblocks := @writesFrom_lays (storedParts z args built).flatten (fun _ => none)
    (blockParts built) (tablesOffset z args) between rest blocks
    (by rw [hoffset, hparts, List.drop_left])
    (by rw [hoffset]; omega)
  rw [hoffset, ← htotal] at hblocks
  rw [UInt32.toNat_zero, Nat.zero_add] at hlead
  exact hlead.append hblocks

/-- The final header, laid over the placeholder. -/
lemma header_laid {pending rest : List PwriteOutcome}
    (header : (acceptAll pending [databaseHeaderCodec.width]).2 = some rest) :
    Lays (imageParts z args built).flatten 0
      (writeCalls pending (databaseHeaderCodec.encode (finalHeader z args built)) 0)
      databaseHeaderCodec.width := by
  have hlength := databaseHeaderCodec.encode_length (finalHeader z args built)
  have hlays := @writeCalls_lays (imageParts z args built).flatten
    (databaseHeaderCodec.encode (finalHeader z args built)) 0 pending rest
    (by rw [hlength, ← acceptAll_singleton]; exact header) (List.prefix_append _ _)
    (by rw [hlength]; exact (by decide : 0 + databaseHeaderCodec.width < 2 ^ 32))
  rw [hlength, UInt32.toNat_zero, Nat.zero_add] at hlays
  exact hlays

/-- The calls of a run that returns true: all parts of the draft, and then the final header. -/
lemma storeCalls_parts (fits : Fits z order args) {disk disk' : Disk}
    (returned : Writing.on (storeDb z order (.ok ()) args) disk = (.ok (), disk')) :
    ∃ built parts header, disk'.file = (imageParts z args built).flatten ∧
      storeCalls z order args disk.pending = .truncate :: (parts ++ header) ∧
      Lays (storedParts z args built).flatten 0 parts (storedParts z args built).flatten.length ∧
      Lays (imageParts z args built).flatten 0 header databaseHeaderCodec.width := by
  obtain ⟨built, hbuilt, hfile⟩ := stored_image fits returned
  have outcome := storeDb_built z order args hbuilt (fits.image built hbuilt) disk
  rw [returned] at outcome
  cases hwhole : (acceptAll disk.pending (runLengths z args built)).2 with
  | none => exact absurd rfl (outcome.halts hwhole)
  | some rest =>
    rw [runLengths, storedParts, List.map_append] at hwhole
    obtain ⟨behind, hparts, hheader⟩ := acceptAll_split hwhole
    obtain ⟨between, hlead, hblocks⟩ := acceptAll_split hparts
    have hwrites : storeWrites z order args = leadWrites z args ++
        (writesFrom (fun _ => none) (tablesOffset z args) (blockParts built) ++
          [⟨0, databaseHeaderCodec.encode (finalHeader z args built), fun _ => none⟩]) := by
      rw [storeWrites, hbuilt]
      rfl
    refine ⟨built, _, _, hfile, ?_, parts_laid (fits.image built hbuilt) hlead hblocks,
      header_laid hheader⟩
    rw [storeCalls, hwrites,
      planCalls_append (by rw [leadWrites, writesFrom_lengths]; exact hlead),
      planCalls_append (by rw [writesFrom_lengths]; exact hblocks), planCalls_singleton,
      ← List.append_assoc]

/-- They settle its image. -/
lemma storeCalls_settles (fits : Fits z order args) {disk disk' : Disk}
    (returned : Writing.on (storeDb z order (.ok ()) args) disk = (.ok (), disk')) :
    Settles disk'.file (storeCalls z order args disk.pending) := by
  obtain ⟨built, parts, header, hfile, hcalls, hparts, hheader⟩ := storeCalls_parts fits returned
  rw [hfile, hcalls]
  exact settles_relaid hparts hheader (image_length z args built).symm
    (fun p behind => image_agrees behind)

end Complete

section Builds

variable {z : Zstd} {order : IterationOrder (TrigramCode × List UInt32)}
  {tableOrder : IterationOrder (SymbolName × SymbolRefs)} {shared : Shared}
  {conf : ConfigParser} {dictBuilder : Option DictionaryBuilder}

/-- Opening a database for writing truncates its file. -/
def openCalls : Except Nat Unit → List FileOp
  | .ok () => [.truncate]
  | .error _ => []

/-- What a build does to the file of the database. -/
def BuildRun.calls (run : BuildRun z order tableOrder shared conf dictBuilder) : List FileOp :=
  openCalls run.existing ++
    storeCalls z order (buildArgs tableOrder shared conf run.merging) run.before.pending

lemma BuildRun.on_open (run : BuildRun z order tableOrder shared conf dictBuilder) :
    Writing.on (storeDb z order (.ok ()) (buildArgs tableOrder shared conf run.merging))
      run.before = (.ok (), run.after) := by
  have returned := run.returned
  cases hopened : run.opened with
  | error errno =>
    rw [hopened] at returned
    cases returned
  | ok u =>
    rw [hopened] at returned
    exact returned

/-- A build leaves its image, whatever was in the file when it came. -/
lemma BuildRun.leaves (run : BuildRun z order tableOrder shared conf dictBuilder) (file : Bytes) :
    applyAll file (BuildRun.calls run) = run.after.file := by
  have heffect := storeDb_calls z order (buildArgs tableOrder shared conf run.merging) run.before
  rw [BuildRun.on_open run] at heffect
  rw [BuildRun.calls, applyAll_append]
  exact heffect.symm

/-- It truncates the file first and settles its image. -/
lemma BuildRun.settles (run : BuildRun z order tableOrder shared conf dictBuilder)
    (fits : Fits z order (buildArgs tableOrder shared conf run.merging)) :
    ∃ ops, BuildRun.calls run = .truncate :: ops ∧
      Settles run.after.file (BuildRun.calls run) := by
  have hsettles := storeCalls_settles fits (BuildRun.on_open run)
  rw [BuildRun.calls]
  rcases run.existing with errno | ⟨⟩
  · exact ⟨_, rfl, hsettles⟩
  · exact ⟨_, rfl, Settles.truncate hsettles⟩

/-- Builds of the same files that all return true leave what each of them leaves alone, in whatever
order their calls reach the file and whatever was in it before. -/
theorem overlapping_builds (runs : List (BuildRun z order tableOrder shared conf dictBuilder))
    (inserted : InsertionOrdered tableOrder)
    (fits : Fits z order (settledArgs shared conf dictBuilder)) {out : List FileOp}
    (shuffles : Shuffles (runs.map BuildRun.calls) out) (file : Bytes) :
    ∀ run ∈ runs, applyAll run.before.file (BuildRun.calls run) = run.after.file ∧
      applyAll file out = run.after.file := by
  intro run hrun
  constructor
  · exact BuildRun.leaves run run.before.file
  · refine overlapping_settled shuffles (List.ne_nil_of_mem (List.mem_map_of_mem hrun)) ?_ file
    intro calls hcalls
    obtain ⟨other, -, rfl⟩ := List.mem_map.mp hcalls
    -- all of them settle the one image
    obtain ⟨built, hbuilt, hfile⟩ := BuildRun.image run inserted fits
    obtain ⟨built', hbuilt', hfile'⟩ := BuildRun.image other inserted fits
    obtain rfl : built = built' := Except.ok.inj (hbuilt.symm.trans hbuilt')
    rw [hfile, ← hfile']
    exact BuildRun.settles other (BuildRun.args_eq other inserted (small_of_fits fits) ▸ fits)

/-- A build with two threads that runs between the first calls of a build with one and its rest. -/
theorem overlapping_builds_sample :
    ∃ run run' : BuildRun Zstd.stored (IterationOrder.insertion _) (IterationOrder.insertion _)
        sampleShared ConfigParser.new none,
      run.threadCount = 1 ∧ run'.threadCount = 2 ∧
        applyAll [] ((BuildRun.calls run).take 2 ++
          (BuildRun.calls run' ++ (BuildRun.calls run).drop 2)) = run.after.file := by
  obtain ⟨run, hone⟩ := exists_sampleBuild (Nat.le_refl 1)
  obtain ⟨run', htwo⟩ := exists_sampleBuild (by decide : 1 ≤ 2)
  have shuffles := shuffles_within ((BuildRun.calls run).take 2) ((BuildRun.calls run).drop 2)
    (BuildRun.calls run')
  rw [List.take_append_drop] at shuffles
  exact ⟨run, run', hone, htwo,
    (overlapping_builds [run, run'] insertion_ordered (by decide +kernel) shuffles [] run
      (by simp)).2⟩

end Builds

section Mixtures

/-- The header of one database over the rest of another. -/
def mixed (first second : Bytes) : Bytes :=
  first.take databaseHeaderCodec.width ++ second.drop databaseHeaderCodec.width

lemma mixed_self (file : Bytes) : mixed file file = file := List.take_append_drop _ file

lemma mixed_eq_first_iff (first second : Bytes) :
    mixed first second = first ↔
      second.drop databaseHeaderCodec.width = first.drop databaseHeaderCodec.width := by
  conv_lhs => rhs; rw [← mixed_self first]
  exact List.append_right_inj _

lemma mixed_eq_second_iff (first second : Bytes) :
    mixed first second = second ↔
      first.take databaseHeaderCodec.width = second.take databaseHeaderCodec.width := by
  conv_lhs => rhs; rw [← mixed_self second]
  exact List.append_left_inj _

/-- Whatever stands behind a header, a reader takes it for the header of the database. -/
lemma header_accepted {dbHdr : DatabaseHeader} (hmagic : dbHdr.magic = databaseHeaderMagic)
    (hversion : dbHdr.version = databaseHeaderVersionNumber) (path behind : Bytes) :
    (mappedFileOpen path (.ok (databaseHeaderCodec.encode dbHdr ++ behind)) >>= readHeader) =
      .ok dbHdr := by
  have hnonempty : (databaseHeaderCodec.encode dbHdr ++ behind).length ≠ 0 := by
    have hwidth : 0 < databaseHeaderCodec.width := by decide
    rw [List.length_append, Codec.encode_length]
    omega
  have hdecode : databaseHeaderCodec.decode
      (mappedPages (databaseHeaderCodec.encode dbHdr ++ behind)) = some dbHdr := by
    rw [mappedPages, List.append_assoc]
    exact databaseHeaderCodec.decode_encode _ _
  rw [mappedFileOpen_some path hnonempty]
  exact (pure_bind _ readHeader).trans (readHeader_marked hdecode hmagic hversion)

lemma mixed_accepted (z : Zstd) (args : StoreArgs) (built : BuiltTables) (second path : Bytes) :
    (mappedFileOpen path (.ok (mixed (imageParts z args built).flatten second)) >>= readHeader) =
      .ok (finalHeader z args built) := by
  have hfront : (imageParts z args built).flatten.take databaseHeaderCodec.width =
      databaseHeaderCodec.encode (finalHeader z args built) := by
    rw [imageParts, List.flatten_cons]
    exact List.take_left' (databaseHeaderCodec.encode_length _)
  rw [mixed, hfront]
  exact header_accepted rfl rfl path _

lemma image_long (z : Zstd) (args : StoreArgs) (built : BuiltTables) :
    databaseHeaderCodec.width ≤ (imageParts z args built).flatten.length := by
  rw [imageParts, List.flatten_cons, List.length_append, Codec.encode_length]
  exact Nat.le_add_right _ _

variable {z z' : Zstd} {order order' : IterationOrder (TrigramCode × List UInt32)}
  {tableOrder tableOrder' : IterationOrder (SymbolName × SymbolRefs)}
  {shared shared' : Shared} {conf conf' : ConfigParser}
  {dictBuilder dictBuilder' : Option DictionaryBuilder}

/-- Nothing keeps a build from writing its header over the tables of another one. Any two builds
that return true may leave such a file, which is one of theirs only if they agree in their headers
or behind them, and which a reader takes for the database of the first. -/
theorem overlapping_builds_mix (run : BuildRun z order tableOrder shared conf dictBuilder)
    (run' : BuildRun z' order' tableOrder' shared' conf' dictBuilder')
    (fits : Fits z order (buildArgs tableOrder shared conf run.merging))
    (fits' : Fits z' order' (buildArgs tableOrder' shared' conf' run'.merging)) :
    ∃ out, Shuffles [BuildRun.calls run, BuildRun.calls run'] out ∧ ∀ file,
      applyAll file out = mixed run.after.file run'.after.file ∧
      (applyAll file out = run.after.file ↔ run'.after.file.drop databaseHeaderCodec.width =
        run.after.file.drop databaseHeaderCodec.width) ∧
      (applyAll file out = run'.after.file ↔ run.after.file.take databaseHeaderCodec.width =
        run'.after.file.take databaseHeaderCodec.width) ∧
      ∃ dbHdr, ∀ path,
        (mappedFileOpen path (.ok run.after.file) >>= readHeader) = .ok dbHdr ∧
        (mappedFileOpen path (.ok (applyAll file out)) >>= readHeader) = .ok dbHdr := by
  obtain ⟨built, parts, header, hfile, hcalls, -, hheader⟩ :=
    storeCalls_parts fits (BuildRun.on_open run)
  obtain ⟨built', -, hfile'⟩ := stored_image fits' run'.returned
  have hsplit : BuildRun.calls run = (openCalls run.existing ++ .truncate :: parts) ++ header := by
    rw [BuildRun.calls, hcalls, List.append_assoc]
    rfl
  -- the other build comes and goes when only the final header of the first is missing
  refine ⟨(openCalls run.existing ++ .truncate :: parts) ++ (BuildRun.calls run' ++ header), ?_, ?_⟩
  · rw [hsplit]
    exact shuffles_within _ _ _
  intro file
  have hmixed : applyAll file ((openCalls run.existing ++ .truncate :: parts) ++
      (BuildRun.calls run' ++ header)) = mixed run.after.file run'.after.file := by
    rw [applyAll_append, applyAll_append, BuildRun.leaves, mixed, hfile]
    exact hheader.applied_front (image_long ..) (hfile' ▸ image_long ..)
  rw [hmixed]
  refine ⟨rfl, mixed_eq_first_iff _ _, mixed_eq_second_iff _ _, ?_⟩
  rw [hfile]
  have hself := mixed_accepted z (buildArgs tableOrder shared conf run.merging) built
    (imageParts z (buildArgs tableOrder shared conf run.merging) built).flatten
  rw [mixed_self] at hself
  exact ⟨_, fun path => ⟨hself path, mixed_accepted z _ built _ path⟩⟩

/-- The three files of the sample without the last one. -/
def fewerShared : Shared := { sampleShared with foundFiles := sampleShared.foundFiles.dropLast }

/-- What a build of the files stores with no configuration file and no dictionary. -/
def plainArgs (shared : Shared) : StoreArgs := settledArgs shared ConfigParser.new none

lemma sample_images_differ :
    ∀ built, buildTables Zstd.stored (IterationOrder.insertion _) (plainArgs sampleShared)
        (withDictOf Zstd.stored (plainArgs sampleShared)) = .ok built →
      ∀ built', buildTables Zstd.stored (IterationOrder.insertion _) (plainArgs fewerShared)
          (withDictOf Zstd.stored (plainArgs fewerShared)) = .ok built' →
        (imageParts Zstd.stored (plainArgs sampleShared) built).flatten.take
            databaseHeaderCodec.width ≠
          (imageParts Zstd.stored (plainArgs fewerShared) built').flatten.take
            databaseHeaderCodec.width ∧
        (imageParts Zstd.stored (plainArgs fewerShared) built').flatten.drop
            databaseHeaderCodec.width ≠
          (imageParts Zstd.stored (plainArgs sampleShared) built).flatten.drop
            databaseHeaderCodec.width := by decide +kernel

/-- A build after the last file was removed comes between the tables and the header of another. -/
theorem overlapping_builds_mix_sample :
    ∃ (run : BuildRun Zstd.stored (IterationOrder.insertion _) (IterationOrder.insertion _)
        sampleShared ConfigParser.new none)
      (run' : BuildRun Zstd.stored (IterationOrder.insertion _) (IterationOrder.insertion _)
        fewerShared ConfigParser.new none)
      (out : List FileOp), Shuffles [BuildRun.calls run, BuildRun.calls run'] out ∧
        applyAll [] out ≠ run.after.file ∧ applyAll [] out ≠ run'.after.file := by
  obtain ⟨run, -⟩ := exists_sampleBuild (Nat.le_refl 1)
  obtain ⟨run', -⟩ := @exists_build Zstd.stored (IterationOrder.insertion _)
    (IterationOrder.insertion _) fewerShared ConfigParser.new none insertion_ordered (by decide) _
    (Nat.le_refl 1) sampleDisk (by decide +kernel)
  have fits : Fits Zstd.stored (IterationOrder.insertion _) (plainArgs sampleShared) := by
    decide +kernel
  have fits' : Fits Zstd.stored (IterationOrder.insertion _) (plainArgs fewerShared) := by
    decide +kernel
  have hargs := BuildRun.args_eq run insertion_ordered (by decide)
  have hargs' := BuildRun.args_eq run' insertion_ordered (by decide)
  obtain ⟨out, shuffles, hmix⟩ := overlapping_builds_mix run run' (hargs ▸ fits) (hargs' ▸ fits')
  obtain ⟨-, hfirst, hsecond, -⟩ := hmix []
  obtain ⟨built, hbuilt, hfile⟩ := BuildRun.image run insertion_ordered fits
  obtain ⟨built', hbuilt', hfile'⟩ := BuildRun.image run' insertion_ordered fits'
  obtain ⟨hheader, hrest⟩ := sample_images_differ built hbuilt built' hbuilt'
  rw [hfile, hfile'] at hfirst hsecond
  refine ⟨run, run', out, shuffles, ?_, ?_⟩
  · rw [hfile]
    exact mt hfirst.mp hrest
  · rw [hfile']
    exact mt hsecond.mp hheader

end Mixtures

end OverlappingBuilds
