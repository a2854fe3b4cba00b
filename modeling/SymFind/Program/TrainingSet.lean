import SymFind.Lib.CappedStream
import SymFind.Program.ReadAfterBuild

/-!
# What the dictionary of a database is trained from

The scan offers the names of the found files and of the entered directories while
it walks, and the merge offers the names of the symbols behind it. Of each kind
only the first ones are taken. Neither the threads of the build nor the order of
their steps is among what decides.
-/
namespace TrainingSet
open RecordCodec InsertionMap Machine SymbolData TrigramCodes Compression Config PathStrings
open PathCache TreeScan ScanSelection CappedStream ParallelBuild SearchAgreement DatabaseLayout
open MergeTables DatabaseWriting WritePlan DatabaseReading DatabaseRoundTrip FailedTraining
open ElfParser SearchPipeline SymbolLookup
open DatabaseBlocks (InsertionOrdered insertion_ordered)
open ReproducibleBuild MainProgram ProgramRuns ReadAfterBuild FreeRunOutput

section Walk

inductive Offered where
  | file
  | directory
  deriving DecidableEq

def maxOffered : Offered → Nat
  | .file => maxFileNameSamples
  | .directory => maxPathNameSamples

/-- The names that a walk offers before it stops. -/
def offersOf : List Event → List (Offered × Bytes)
  | [] => []
  | .found _ name :: es => (.file, name) :: offersOf es
  | .entered name :: es => (.directory, name) :: offersOf es
  | .stopped _ :: _ => []

/-- The counters of a scanner. -/
def counted (st : ScanState) : Offered → Nat
  | .file => st.fileNameSamples.toNat
  | .directory => st.pathNameSamples.toNat

lemma addSamples_cons (b : DictionaryBuilder) (name : Bytes) (names : List Bytes) :
    (name :: names).foldl DictionaryBuilder.addSample b =
      names.foldl DictionaryBuilder.addSample (b.addSample name) := rfl

/-- A counter below its limit lets a name pass, another one does not. -/
lemma succ_toNat_le {n : UInt32} {limit : Nat} (room : n.toNat + 1 < 2 ^ 32) :
    (n + 1).toNat = n.toNat + 1 ∧ ((n + 1).toNat ≤ limit ↔ n.toNat < limit) := by
  have h : (n + 1).toNat = n.toNat + 1 := by
    rw [UInt32.toNat_add, UInt32.toNat_one]
    omega
  exact ⟨h, by omega⟩

/-- The counters do not come round within these offers. -/
def Room (seen : Offered → Nat) (offers : List (Offered × Bytes)) : Prop :=
  ∀ kind, seen kind + (ofKind kind offers).length < 2 ^ 32

lemma Room.head {seen : Offered → Nat} {kind : Offered} {name : Bytes}
    {offers : List (Offered × Bytes)} (room : Room seen ((kind, name) :: offers)) :
    seen kind + 1 < 2 ^ 32 ∧ Room (Function.update seen kind (seen kind + 1)) offers := by
  constructor
  · have h := room kind
    rw [ofKind_cons_same, List.length_cons] at h
    omega
  · intro other
    have h := room other
    by_cases hother : kind = other
    · subst hother
      rw [ofKind_cons_same, List.length_cons] at h
      rw [Function.update_self]
      omega
    · rw [ofKind_cons_other hother] at h
      rwa [Function.update_of_ne (fun heq => hother heq.symm)]

/-- A name that is offered is counted, and taken below the limit. -/
structure Takes (st st' : ScanState) (b : DictionaryBuilder) (kind : Offered) (name : Bytes) :
    Prop where
  counters : counted st' = Function.update (counted st) kind (counted st kind + 1)
  builder : st'.dictBuilder =
    some (if counted st kind < maxOffered kind then b.addSample name else b)

lemma storeFile_takes {st : ScanState} {b : DictionaryBuilder} (hb : st.dictBuilder = some b)
    (directory name : Bytes) (room : counted st .file + 1 < 2 ^ 32) :
    Takes st (st.storeFile directory name) b .file name := by
  obtain ⟨hnext, hlimit⟩ := @succ_toNat_le st.fileNameSamples maxFileNameSamples room
  constructor
  · funext kind
    cases kind with
    | file => simpa [counted, ScanState.storeFile, ScanState.addFileNameSample, hb] using hnext
    | directory => simp [counted, ScanState.storeFile, ScanState.addFileNameSample, hb]
  · simp only [ScanState.storeFile, ScanState.addFileNameSample, hb, hlimit]
    rfl

lemma addPathNameSample_takes {st : ScanState} {b : DictionaryBuilder}
    (hb : st.dictBuilder = some b) (name : Bytes) (room : counted st .directory + 1 < 2 ^ 32) :
    Takes st (st.addPathNameSample name) b .directory name := by
  obtain ⟨hnext, hlimit⟩ := @succ_toNat_le st.pathNameSamples maxPathNameSamples room
  constructor
  · funext kind
    cases kind with
    | file => simp [counted, ScanState.addPathNameSample, hb]
    | directory => simpa [counted, ScanState.addPathNameSample, hb] using hnext
  · simp only [ScanState.addPathNameSample, hb, hlimit]
    rfl

/-- The samples of a replay are what passes of the offers. -/
lemma replay_samples (es : List Event) {st : ScanState} {b : DictionaryBuilder}
    (hb : st.dictBuilder = some b) (room : Room (counted st) (offersOf es)) :
    (replay es st).2.dictBuilder =
      some (((passed maxOffered (counted st) (offersOf es)).map Prod.snd).foldl
        DictionaryBuilder.addSample b) := by
  induction es generalizing st b with
  | nil => exact hb
  | cons e rest ih =>
    have goOn : ∀ {st' : ScanState} {kind : Offered} {name : Bytes},
        Takes st st' b kind name → Room (counted st) ((kind, name) :: offersOf rest) →
        (replay rest st').2.dictBuilder =
          some (((passed maxOffered (counted st) ((kind, name) :: offersOf rest)).map
            Prod.snd).foldl DictionaryBuilder.addSample b) := by
      intro st' kind name takes hroom
      have hrest := ih takes.builder (takes.counters ▸ hroom.head.2)
      rw [hrest, takes.counters, passed]
      by_cases htaken : counted st kind < maxOffered kind
      · simp only [if_pos htaken, List.map_cons, addSamples_cons]
      · simp only [if_neg htaken]
    cases e with
    | found directory name => exact goOn (storeFile_takes hb directory name room.head.1) room
    | entered name => exact goOn (addPathNameSample_takes hb name room.head.1) room
    | stopped stop => exact hb

/-- What a scan of a root offers. -/
def offered (env : ScanEnv) (root : Root) : List (Offered × Bytes) :=
  match pruneCheck env (getDirPath root.realPath) with
  | .clear => offersOf (events env root.realPath root.device root.entries)
  | _ => []

def nothingYet : Offered → Nat := fun _ => 0

lemma scan_samples {env : ScanEnv} {root : Root} (b : DictionaryBuilder)
    (room : Room nothingYet (offered env root)) :
    (scan env (.ok root) (.new (some b))).2.dictBuilder =
      some (((passed maxOffered nothingYet (offered env root)).map Prod.snd).foldl
        DictionaryBuilder.addSample b) := by
  have start : counted (.new (some b)) = nothingYet := by
    funext kind
    cases kind <;> rfl
  cases hcheck : pruneCheck env (getDirPath root.realPath) with
  | clear =>
    simp only [offered, hcheck] at room ⊢
    rw [scan_events hcheck, ← start, ← replay_samples _ rfl (start ▸ room)]
    rcases replay (events env root.realPath root.device root.entries) (.new (some b)) with
      ⟨⟨_ | _, errMsg⟩ | _ | fault, st⟩ <;> rfl
  | prunePath => simp [scan, scanFs, offered, hcheck, passed, ScanState.new]
  | bindMount => simp [scan, scanFs, offered, hcheck, passed, ScanState.new]

end Walk

section Names

/-- The names that the files under some paths define or use, in the order of the files. -/
def namesIn (contents : Bytes → ObjectFile) (paths : List Bytes) : List SymbolName :=
  paths.flatMap (fun path =>
    match contents path with
    | .error _ => []
    | .ok syms => syms.map SymbolEntry.name)

lemma foldl_addKey_newOf (names known : List SymbolName) :
    names.foldl addKey known = known ++ newOf known names := by
  induction names generalizing known with
  | nil => simp [newOf]
  | cons name rest ih =>
    rw [List.foldl_cons, addKey]
    by_cases h : name ∈ known
    · rw [if_pos h, newOf_known h, ih]
    · rw [if_neg h, newOf_new h, ih, List.append_assoc, List.singleton_append]

/-- The names of a table are those that were recorded, each at its first place. -/
lemma keys_record (es : List (SymbolName × SymbolRef)) :
    (record es).keys = (es.map Prod.fst).eraseDups := by
  rw [record, keys_pushAll, Map.keys_empty, foldl_addKey_newOf]
  simp [newOf]

lemma reports_names (st : ScanState) (contents : Bytes → ObjectFile)
    (small : st.foundFiles.length < 2 ^ 32) :
    (reports (sharedOf st contents) (allFileIds st.foundFiles.length)).map Prod.fst =
      namesIn contents (st.foundFiles.map (getFileInfoFullPath st.cache)) := by
  rw [reports, allFileIds, List.flatMap_map, List.map_flatMap, namesIn, List.flatMap_map]
  apply flatMap_range_getElem?
  intro i file hfile
  have hlt := (List.getElem?_eq_some_iff.mp hfile).1
  have hid : (UInt32.ofNat i).toNat = i := UInt32.toNat_ofNat_of_lt' (hlt.trans small)
  have hget : (sharedOf st contents).foundFiles[(UInt32.ofNat i).toNat]? = some file :=
    hid.symm ▸ hfile
  simp only [reportedSymbols, hget, List.map_map]
  change List.map _ (match contents (getFileInfoFullPath st.cache file) with
    | .error _ => []
    | .ok syms => syms) = _
  cases contents (getFileInfoFullPath st.cache file) <;> rfl

/-- Offers behind others are taken up to the limit. -/
lemma foldl_offer (names : List SymbolName) {b : DictionaryBuilder} {samples : UInt64}
    (room : samples.toNat + names.length < 2 ^ 64) :
    (names.foldl offer (some b, samples)).1 =
      some ((names.take (maxSymbolNameSamples - samples.toNat)).foldl
        DictionaryBuilder.addSample b) := by
  induction names generalizing b samples with
  | nil => simp
  | cons name rest ih =>
    rw [List.length_cons] at room
    have hnext : (samples + 1).toNat = samples.toNat + 1 := by
      rw [UInt64.toNat_add, UInt64.toNat_one]
      omega
    rw [List.foldl_cons, offer, ih (by omega), hnext]
    by_cases htaken : samples.toNat + 1 ≤ maxSymbolNameSamples
    · obtain ⟨left, hleft⟩ : ∃ left, maxSymbolNameSamples - samples.toNat = left + 1 :=
        ⟨maxSymbolNameSamples - samples.toNat - 1, by omega⟩
      have hlater : maxSymbolNameSamples - (samples.toNat + 1) = left := by omega
      rw [if_pos htaken, hleft, hlater, List.take_succ_cons, addSamples_cons]
    · have hnone : maxSymbolNameSamples - samples.toNat = 0 := by omega
      have hlater : maxSymbolNameSamples - (samples.toNat + 1) = 0 := by omega
      rw [if_neg htaken, hnone, hlater, List.take_zero, List.take_zero]

end Names

section Dictionary

/-- The dictionary that a file stores. -/
def storedDictionary (path : Bytes) (file : Except Nat Bytes) : Reading Bytes := do
  let data ← mappedFileOpen path file
  let dbHdr ← readHeader data
  bytesAt data dbHdr.zstdDictionaryOffset.toNat dbHdr.zstdDictionaryLength.toNat

variable {z : Zstd} {order : IterationOrder (TrigramCode × List UInt32)} {args : StoreArgs}
  {built : BuiltTables} {b : DictionaryBuilder}

lemma image_dictionary (fits : Fits z order args)
    (hbuilt : buildTables z order args (withDictOf z args) = .ok built)
    (hb : args.dictBuilder = some b) (path : Bytes) :
    storedDictionary path (.ok (imageParts z args built).flatten) = .ok (b.train z).1 := by
  have hin : 2 < (imageParts z args built).length := by simp [imageParts]
  have hstart : offsetOf (imageParts z args built) 2 =
      databaseHeaderCodec.width + args.conf.confBlock.length := by
    simp [imageParts, offsetOf]
  have hpart : (imageParts z args built)[2] = dictionaryOf z args := rfl
  have hoffset := dictionaryOffset_toNat fits hbuilt
  have hfound := part_found z args built hin
  rw [hb, Option.isSome_some, if_pos rfl] at hoffset
  rw [hpart, hstart] at hfound
  rw [storedDictionary, image_mapped]
  simp only [bind, Except.bind, header_found, hoffset, dictionaryLength_toNat fits hbuilt]
  rw [hfound, dictionaryOf, hb]

/-- The builder that a build trains: its samples are those of the scan and the first names of the
symbols. -/
lemma settled_builder {w : Surroundings} {p : Prepared}
    (fits : Fits z order (settledArgs (p.shared w) p.conf p.scanned.dictBuilder))
    {walked : List Bytes}
    (hwalked : p.scanned.dictBuilder = some (walked.foldl DictionaryBuilder.addSample .new)) :
    (settledArgs (p.shared w) p.conf p.scanned.dictBuilder).dictBuilder =
      some (builderOf (walked ++
        (namesIn w.contents (pathsFound p)).eraseDups.take maxSymbolNameSamples)) := by
  have small : p.scanned.foundFiles.length < 2 ^ 32 := small_of_fits fits
  have hkeys : (settledArgs (p.shared w) p.conf p.scanned.dictBuilder).symtable.keys =
      (namesIn w.contents (pathsFound p)).eraseDups := by
    rw [pathsFound, ← reports_names p.scanned w.contents small, ← keys_record]
    rfl
  have room : (0 : UInt64).toNat + (namesIn w.contents (pathsFound p)).eraseDups.length <
      2 ^ 64 := by
    have hcount := symtable_small fits
    rw [← hkeys, Map.keys, List.length_map, UInt64.toNat_zero]
    omega
  change ((settledArgs (p.shared w) p.conf p.scanned.dictBuilder).symtable.keys.foldl offer
    (p.scanned.dictBuilder, 0)).1 = _
  rw [hkeys, hwalked, foldl_offer _ room, builderOf, List.foldl_append]
  rfl

/-- The dictionary of a successful build is trained from names of the walk, the first hundred
thousand of the found files and of the entered directories in the order of the walk, and behind
them, when the tables of symbols are iterated in the order of insertion, the first hundred thousand
different names of symbols in the order of the files. -/
theorem dictionary_trained_on {lib : Libraries} {w : Surroundings} {argv : List Bytes}
    {p : Prepared} {files stored : Files} {outcome : Outcome}
    (build : RunsAs lib .buildDb w argv p files outcome stored)
    (success : outcome.ending = .returned 0) (fits : FitsFor lib w p)
    (inserted : InsertionOrdered lib.tableOrder) {root : Root}
    (opened : w.openRoot p.conf.databaseScanPath = .ok root)
    (room : Room nothingYet (offered ⟨p.conf, w.isBindMount p.conf, w.mounts⟩ root)) :
    ∃ walked : List (Offered × Bytes),
      walked.Sublist (offered ⟨p.conf, w.isBindMount p.conf, w.mounts⟩ root) ∧
      (∀ kind, ofKind kind walked =
        (ofKind kind (offered ⟨p.conf, w.isBindMount p.conf, w.mounts⟩ root)).take
          (maxOffered kind)) ∧
      storedDictionary p.conf.databasePath (stored p.conf.databasePath) =
        .ok ((builderOf (walked.map Prod.snd ++
          (namesIn w.contents (pathsFound p)).eraseDups.take maxSymbolNameSamples)).train
            lib.zstd).1 := by
  obtain ⟨conf, by_conf⟩ := prepare_ready build.prepared
  obtain ⟨errMsg, hscan⟩ := by_conf.scanned
  obtain ⟨body, rfl, builds⟩ := build.builds
  obtain ⟨args, built, handed, hfits, hbuilt, himage⟩ := BuildDb.image builds success fits
  obtain rfl := handed.settled inserted (handed.small fits)
  have hwalked := @scan_samples _ _ DictionaryBuilder.new room
  rw [scanTree, opened] at hscan
  rw [hscan] at hwalked
  refine ⟨_, passed_sublist maxOffered nothingYet _, fun kind => passed_ofKind _ _ _ kind, ?_⟩
  rw [himage]
  exact image_dictionary hfits hbuilt (settled_builder hfits hwalked) _

lemma sample_offered :
    offered ⟨(samplePrepared buildOptions).conf,
      sampleWorld.isBindMount (samplePrepared buildOptions).conf, sampleWorld.mounts⟩ twoObjects =
        [(.file, text "a.o"), (.file, text "b.o")] := by decide +kernel

/-- Two files with one symbol each of the same name give three samples. -/
theorem dictionary_trained_on_sample : ∃ (stored : Files) (built : Outcome),
    RunsAs sampleLibraries .buildDb sampleWorld [text "symfind", text "-m", text "build_db"]
      (samplePrepared buildOptions) noFiles built stored ∧
    storedDictionary sampleConf.databasePath (stored sampleConf.databasePath) =
      .ok ((builderOf [text "a.o", text "b.o", text "main"]).train Zstd.stored).1 := by
  obtain ⟨built, stored, build, success, -⟩ := sample_build oneSymbol_small
  have room : Room nothingYet (offered ⟨(samplePrepared buildOptions).conf,
      sampleWorld.isBindMount (samplePrepared buildOptions).conf, sampleWorld.mounts⟩
        twoObjects) := by
    rw [sample_offered]
    intro kind
    cases kind <;> decide
  obtain ⟨walked, hsub, hkinds, htrained⟩ :=
    @dictionary_trained_on sampleLibraries sampleWorld _ _ _ _ _ build success
      (sample_fitsFor oneSymbol_small) insertion_ordered _ rfl room
  have hfiles := hkinds .file
  rw [sample_offered] at hsub hfiles
  have hlength : (ofKind Offered.file walked).length = 2 := by
    rw [hfiles]
    decide
  have hwalked : walked = [(.file, text "a.o"), (.file, text "b.o")] := by
    have hall : 2 ≤ walked.length := hlength ▸ List.length_filter_le _ _
    exact hsub.eq_of_length (le_antisymm hsub.length_le hall)
  have hnames : (namesIn sampleWorld.contents
      (pathsFound (samplePrepared buildOptions))).eraseDups = [text "main"] := by decide +kernel
  rw [hwalked, hnames] at htrained
  exact ⟨stored, built, build, htrained⟩

end Dictionary

end TrainingSet
