import SymFind.Database.ConfigChanges
import SymFind.Program.ReadAfterBuild

/-!
# What a read says about the configuration

A read compares the block of its configuration with the one that the last
successful build stored, and goes on in either case.
-/
namespace ChangeNotice
open RecordCodec Machine SymbolData TrigramCodes Compression Config ConfigParsing ConfigEffects
open ConfigBlock ConfigChanges OptionParser CommandLines DatabaseLayout DatabaseWriting
open DatabaseReading WritePlan SearchAgreement SearchPipeline DatabaseRoundTrip ReproducibleBuild
open MainProgram ProgramRuns ReadAfterBuild

section Comparison

variable {lib : Libraries} {w : Surroundings} {p : Prepared} {files files' : Files}
  {outcome : Outcome}

/-- The block of a prepared run is made from its file. -/
lemma prepared_block {conf : ConfigParser} (by_conf : PreparedBy w p conf) {items : JsonItems}
    (accepted : Accepted items) (configFile : w.configFile = .ok (.ok (.object items))) :
    p.conf.confBlock = (configured items).confBlock := by
  obtain ⟨parsed, hfile, hparse⟩ := by_conf.parsed
  obtain rfl : parsed = .ok (.object items) := Except.ok.inj (hfile.symm.trans configFile)
  have hconf : configured items = conf :=
    congrArg Prod.snd ((parse_accepted accepted).symm.trans hparse)
  rw [PreparedBy.confBlock by_conf, hconf]

lemma confNotices_tells {conf : ConfigParser} {file : Except Nat Bytes} {data : Bytes}
    {dbHdr : DatabaseHeader} {changed : Bool}
    (mapped : mappedFileOpen conf.databasePath file = .ok data)
    (header : readHeader data = .ok dbHdr) (tells : readConfBlock data dbHdr conf = .ok changed) :
    confNotices conf file = if changed then [.configurationChanged] else [] := by
  simp only [confNotices, mapped, bind, Except.bind, header, tells]
  cases changed <;> rfl

/-- Over a stored database a change is said exactly if the blocks differ. -/
lemma notices_of_stored {z : Zstd} {order : IterationOrder (TrigramCode × List UInt32)}
    {args : StoreArgs} {built : BuiltTables} (fits : Fits z order args)
    (hbuilt : buildTables z order args (withDictOf z args) = .ok built) (conf : ConfigParser) :
    confNotices conf (.ok (imageParts z args built).flatten) =
      if args.conf.confBlock = conf.confBlock then [] else [.configurationChanged] := by
  have view : (confBlockView (finalHeader z args built)).bytes (imageData z args built) =
      some args.conf.confBlock := rangeAt_append (conf_found fits hbuilt) _
  rw [confNotices_tells (image_mapped ..) header_found (readConfBlock_of_view view conf)]
  by_cases hsame : args.conf.confBlock = conf.confBlock
  · rw [if_pos hsame, hsame, bne_self_eq_false, if_neg Bool.false_ne_true]
  · rw [if_neg hsame, bne_iff_ne.mpr hsame, if_pos rfl]

/-- So it is behind a build that ended with success. -/
lemma notices_after_build (builds : BuildDb lib w p files outcome files')
    (success : outcome.ending = .returned 0) (fits : FitsFor lib w p) (conf : ConfigParser) :
    confNotices conf (files' p.conf.databasePath) =
      if p.conf.confBlock = conf.confBlock then [] else [.configurationChanged] := by
  obtain ⟨args, built, handed, hfits, hbuilt, himage⟩ := BuildDb.image builds success fits
  rw [himage, notices_of_stored hfits hbuilt, handed.conf]

lemma warnings_silent {conf : ConfigParser} (by_conf : PreparedBy w p conf) :
    Notice.configurationChanged ∉ p.warnings := by
  obtain ⟨messages, hwarned⟩ := by_conf.warned
  simp [hwarned]

/-- A read says of the change what the comparison says. -/
lemma readDb_reports {compareSymNames : StringComparator}
    (made : comparatorOf lib p.options = some compareSymNames) :
    Notice.configurationChanged ∈ (readDb lib p files).notices ↔
      Notice.configurationChanged ∈ confNotices p.conf (files p.conf.databasePath) := by
  rw [readDb, made]
  simp only
  rcases findSymbolReferences lib.zstd lib.countOrder lookupFuel p.conf
    (files p.conf.databasePath) p.options.symbol (ignoreEntry compareSymNames) with
    (fault | errMsg) | results
  · rfl
  · simp
  · simp

/-- A read behind a successful build, with whatever runs between them that leave the database, says
that the configuration changed exactly if the two files leave different parts in their blocks. So
nothing is said for the same settings, and what is not said is at most where the white space of a
list value stands. -/
theorem read_reports_change_iff {lib : Libraries} {w w' : Surroundings}
    {buildArgv readArgv : List Bytes} {p q : Prepared} {files stored later last : Files}
    {built read : Outcome} (build : RunsAs lib .buildDb w buildArgv p files built stored)
    (success : built.ending = .returned 0) (fits : FitsFor lib w p)
    {others : List (Surroundings × List Bytes)} (session : Session lib stored others later)
    (keep : ∀ run ∈ others, ¬ Rewrites run.1 run.2 p.conf.databasePath)
    (reading : RunsAs lib .readDb w' readArgv q later read last)
    (samePath : q.conf.databasePath = p.conf.databasePath) {items items' : JsonItems}
    (configFile : w.configFile = .ok (.ok (.object items))) (accepted : Accepted items)
    (plain : PlainLists items) (configFile' : w'.configFile = .ok (.ok (.object items')))
    (accepted' : Accepted items') (plain' : PlainLists items') :
    (.configurationChanged ∈ read.notices ↔ partsOf items ≠ partsOf items') ∧
    (SameSettings (configured items) (configured items') ↔
      .configurationChanged ∉ read.notices ∧
        ∀ key ∈ listKeys,
          startsBlank (listValue items key) = startsBlank (listValue items' key)) := by
  obtain ⟨conf, by_conf⟩ := prepare_ready build.prepared
  obtain ⟨conf', by_conf'⟩ := prepare_ready reading.prepared
  obtain ⟨body, rfl, builds⟩ := build.builds
  obtain ⟨compareSymNames, made⟩ := @comparator_made lib _ by_conf'.ready
  have hfile : later q.conf.databasePath = stored p.conf.databasePath := by
    rw [samePath, session.files_other keep]
  have hnotices := notices_after_build builds success fits q.conf
  rw [prepared_block by_conf accepted configFile,
    prepared_block by_conf' accepted' configFile'] at hnotices
  have hread : .configurationChanged ∈ read.notices ↔ partsOf items ≠ partsOf items' := by
    rw [reading.reads, Outcome.behind, List.mem_append, readDb_reports made, hfile, hnotices,
      or_iff_right (warnings_silent by_conf'), ne_eq,
      ← blocks_agree accepted accepted' plain plain']
    by_cases hsame : (configured items).confBlock = (configured items').confBlock <;> simp [hsame]
  refine ⟨hread, ?_⟩
  rw [settings_agree accepted accepted' plain plain', hread, not_not]

/-- The two files under another configuration. -/
def changedWorld : Surroundings :=
  { sampleWorld with configFile := .ok (.ok (.object trailingBlanks)) }

def changedPrepared : Prepared :=
  ⟨readOptions, [], configured trailingBlanks,
    (scanTree changedWorld (configured trailingBlanks)).2⟩

lemma changed_read_prepared :
    prepare changedWorld [text "symfind", text "main"] = .ready changedPrepared := by
  rfl

/-- The change is said. -/
theorem read_reports_change_iff_sample : ∃ (stored : Files) (built read : Outcome),
    RunsAs sampleLibraries .buildDb sampleWorld [text "symfind", text "-m", text "build_db"]
      (samplePrepared buildOptions) noFiles built stored ∧
    RunsAs sampleLibraries .readDb changedWorld [text "symfind", text "main"] changedPrepared
      stored read stored ∧
    .configurationChanged ∈ read.notices := by
  obtain ⟨built, stored, build, success, -⟩ := sample_build oneSymbol_small
  have reading : RunsAs sampleLibraries .readDb changedWorld [text "symfind", text "main"]
      changedPrepared stored _ stored :=
    ⟨changed_read_prepared, rfl, _, rfl, .readDb rfl⟩
  have accepted : Accepted [] := ⟨rfl, List.nodup_nil, nofun⟩
  have plain : PlainLists [] := by unfold PlainLists; decide +kernel
  have plain' : PlainLists trailingBlanks := by unfold PlainLists; decide +kernel
  obtain ⟨hsaid, -⟩ := read_reports_change_iff build success (sample_fitsFor oneSymbol_small) .nil
    nofun reading rfl rfl accepted plain rfl trailingBlanks_accepted plain'
  exact ⟨stored, built, _, build, reading, hsaid.mpr (by decide +kernel)⟩

end Comparison

end ChangeNotice
