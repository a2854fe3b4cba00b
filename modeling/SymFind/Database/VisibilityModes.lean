import SymFind.Database.SymbolLookup
import SymFind.Elf.ElfParser

/-!
# Defined, runtime and both

The help text offers three kinds of symbols to show. Both filters test
`is_defined` twice, so nothing is ever shown as a runtime symbol and `both`
shows what `defined` does.
-/
namespace VisibilityModes
open RecordCodec Machine SymbolData TrigramCodes Compression DatabaseBlocks DatabaseWriting
open WritePlan DatabaseReading DatabaseRoundTrip SymbolLookup ElfParser

section Modes

/-- `both` is the disjoint union of `defined` and `runtime`, and no accepted entry is lost. -/
structure ModesPartition {α : Type} (isDefined : α → Bool)
    (accepted both defined runtime : List α) : Prop where
  union : both.Perm (defined ++ runtime)
  onlyDefined : ∀ a ∈ defined, isDefined a = true
  onlyRuntime : ∀ a ∈ runtime, isDefined a = false
  complete : accepted.Subperm (defined ++ runtime)

/-- The modes under which the copied condition lets a defined symbol through. -/
def showsDefined (defToPrint : SymbolDefinitionToPrint) : Bool :=
  defToPrint == .onlyDefined || defToPrint == .showFull

@[simp] lemma showsDefined_onlyDefined : showsDefined .onlyDefined = true := rfl
@[simp] lemma showsDefined_showFull : showsDefined .showFull = true := rfl
@[simp] lemma showsDefined_onlyRuntime : showsDefined .onlyRuntime = false := rfl

/-- The second test of the source repeats the first, so it never lets anything through. -/
lemma databaseReaderEntryShouldBeStored_eq (name : Bytes) (metadata : SymbolMetaData)
    (defToPrint : SymbolDefinitionToPrint) (compareSymNames : StringComparator) :
    databaseReaderEntryShouldBeStored name metadata defToPrint compareSymNames =
      (metadata.isDefined && (showsDefined defToPrint && compareSymNames name)) := by
  rw [databaseReaderEntryShouldBeStored, ← showsDefined]
  cases compareSymNames name
  · simp
  · cases metadata.isDefined <;> cases showsDefined defToPrint <;> rfl

/-- Keeping the defined entries in two modes and none in the third is a partition exactly
when there are no others. -/
lemma modesPartition_iff {α : Type} {isDefined : α → Bool}
    {accepted both defined runtime : List α} (hboth : both.Perm (accepted.filter isDefined))
    (hdefined : defined.Perm (accepted.filter isDefined)) (hruntime : runtime = []) :
    ModesPartition isDefined accepted both defined runtime ↔
      ∀ a ∈ accepted, isDefined a = true := by
  have hall : ∀ a ∈ defined, isDefined a = true :=
    fun a ha => (List.mem_filter.mp (hdefined.mem_iff.mp ha)).2
  rw [hruntime]
  constructor
  · intro parts a ha
    have hunion := parts.complete.subset ha
    rw [List.append_nil] at hunion
    exact hall a hunion
  · intro hcond
    have hself : accepted.filter isDefined = accepted := List.filter_eq_self.mpr hcond
    constructor
    · simpa using hboth.trans hdefined.symm
    · exact hall
    · intro a ha
      cases ha
    · have hperm := hdefined.symm.subperm
      rw [hself] at hperm
      simpa using hperm

end Modes

section Queries

/-- The callback with which the program searches a database. -/
def ignoreEntryUnder (defToPrint : SymbolDefinitionToPrint) (compareSymNames : StringComparator) :
    IgnoreEntryCallback := fun name metadata =>
  ! databaseReaderEntryShouldBeStored name metadata defToPrint compareSymNames

/-- The callback of a free run. -/
def ignoreSymbolUnder (defToPrint : SymbolDefinitionToPrint)
    (compareSymNames : StringComparator) : SymbolShouldBeIgnoredCallback := fun symEnt =>
  ! symfinderSymbolShouldBeStored symEnt defToPrint compareSymNames

/-- The references of the candidates whose name the comparator accepts. -/
def acceptedReferences (args : StoreArgs) (query : Bytes) (compareSymNames : StringComparator) :
    List (SymbolName × FileReference) :=
  (candidateSymbols args query).flatMap
    (keptReferences args (fun name _ => ! compareSymNames name))

/-- The three searches of one database, by mode, partition the accepted references. -/
def QueriesPartition (args : StoreArgs) (query : Bytes) (compareSymNames : StringComparator)
    (outcome : SymbolDefinitionToPrint → Reading (List SymbolLookupResult)) : Prop :=
  ∃ both defined runtime, flattened (outcome .showFull) = some both ∧
    flattened (outcome .onlyDefined) = some defined ∧
    flattened (outcome .onlyRuntime) = some runtime ∧
    ModesPartition (fun found => found.2.metadata.isDefined)
      (acceptedReferences args query compareSymNames) both defined runtime

/-- The three free runs over one stream of symbols partition the accepted symbols. -/
def StreamPartitions (stream : List SymbolEntry) (compareSymNames : StringComparator) : Prop :=
  ∃ both defined runtime,
    parseSymtables (.ok stream) (ignoreSymbolUnder .showFull compareSymNames) = .ok both ∧
    parseSymtables (.ok stream) (ignoreSymbolUnder .onlyDefined compareSymNames) =
      .ok defined ∧
    parseSymtables (.ok stream) (ignoreSymbolUnder .onlyRuntime compareSymNames) =
      .ok runtime ∧
    ModesPartition (fun symEnt => symEnt.metadata.isDefined)
      (stream.filter (fun symEnt => compareSymNames symEnt.name)) both defined runtime

lemma keptReferences_under {args : StoreArgs} (defToPrint : SymbolDefinitionToPrint)
    (compareSymNames : StringComparator) (sym : SymbolName × SymbolRefs) :
    keptReferences args (ignoreEntryUnder defToPrint compareSymNames) sym =
      (keptReferences args (fun name _ => ! compareSymNames name) sym).filter
        (fun found => found.2.metadata.isDefined && showsDefined defToPrint) := by
  simp only [keptReferences, List.filter_map, List.filter_filter]
  congr 1
  apply List.filter_congr
  intro ref _
  simp [ignoreEntryUnder, databaseReaderEntryShouldBeStored_eq, Bool.and_assoc]

lemma flatMap_filter {α β : Type} (f : α → List β) (p : β → Bool) (l : List α) :
    l.flatMap (fun a => (f a).filter p) = (l.flatMap f).filter p := by
  induction l with
  | nil => rfl
  | cons a rest ih => simp [ih]

/-- What a search finds under a mode. -/
lemma kept_under (args : StoreArgs) (query : Bytes) (defToPrint : SymbolDefinitionToPrint)
    (compareSymNames : StringComparator) :
    (candidateSymbols args query).flatMap
        (keptReferences args (ignoreEntryUnder defToPrint compareSymNames)) =
      (acceptedReferences args query compareSymNames).filter
        (fun found => found.2.metadata.isDefined && showsDefined defToPrint) := by
  rw [acceptedReferences, ← flatMap_filter]
  apply List.flatMap_congr
  intro sym _
  exact keptReferences_under defToPrint compareSymNames sym

lemma mem_acceptedReferences_defined (args : StoreArgs) (query : Bytes)
    (compareSymNames : StringComparator) :
    (∀ found ∈ acceptedReferences args query compareSymNames,
        found.2.metadata.isDefined = true) ↔
      ∀ sym ∈ candidateSymbols args query, compareSymNames sym.1 = true →
        ∀ ref ∈ sym.2, ref.metadata.isDefined = true := by
  constructor
  · intro hall sym hsym hname ref href
    apply hall (sym.1, ⟨referencePath args ref, ref.metadata⟩)
    apply List.mem_flatMap.mpr
    refine ⟨sym, hsym, List.mem_map.mpr ⟨ref, ?_, rfl⟩⟩
    simpa [hname] using href
  · rintro hall found hfound
    obtain ⟨sym, hsym, hkept⟩ := List.mem_flatMap.mp hfound
    obtain ⟨ref, href, rfl⟩ := List.mem_map.mp hkept
    have hboth : ref ∈ sym.2 ∧ compareSymNames sym.1 = true := by simpa using href
    exact hall sym hsym hboth.2 ref hboth.1

variable {z : Zstd} {order : IterationOrder (TrigramCode × List UInt32)} {args : StoreArgs}

/-- The searches of a stored database partition the accepted references exactly when all of
them are defined. -/
lemma queriesPartition_iff (undoes : z.Undoes) (fits : Fits z order args)
    (inRange : IdsInRange args) {opened : Except Nat Unit} {disk disk' : Disk}
    (returned : Writing.on (storeDb z order opened args) disk = (.ok (), disk'))
    (idOrder : IterationOrder (UInt32 × UInt32)) {fuel : Nat} (enough : 2 ^ 25 ≤ fuel)
    {query : Bytes} (nonempty : query ≠ []) (compareSymNames : StringComparator) :
    QueriesPartition args query compareSymNames (fun defToPrint =>
        findSymbolReferences z idOrder fuel args.conf (.ok disk'.file) query
          (ignoreEntryUnder defToPrint compareSymNames)) ↔
      ∀ sym ∈ candidateSymbols args query, compareSymNames sym.1 = true →
        ∀ ref ∈ sym.2, ref.metadata.isDefined = true := by
  have hfound : ∀ defToPrint, ∃ kept,
      flattened (findSymbolReferences z idOrder fuel args.conf (.ok disk'.file) query
        (ignoreEntryUnder defToPrint compareSymNames)) = some kept ∧
      kept.Perm ((acceptedReferences args query compareSymNames).filter
        (fun found => found.2.metadata.isDefined && showsDefined defToPrint)) := by
    intro defToPrint
    obtain ⟨syms, hperm, hfind⟩ := findSymbolReferences_stored undoes fits returned _ idOrder
      enough nonempty (ignoreEntryUnder defToPrint compareSymNames)
    refine ⟨syms.flatMap (keptReferences args (ignoreEntryUnder defToPrint compareSymNames)),
      ?_, ?_⟩
    · rw [hfind]
      exact flattened_shown (fun sym hsym =>
        inRange.files sym (List.mem_of_mem_filter (hperm.mem_iff.mp hsym))) _
    · rw [← kept_under]
      exact hperm.flatMap_right _
  obtain ⟨both, hboth, hbothPerm⟩ := hfound .showFull
  obtain ⟨defined, hdefined, hdefinedPerm⟩ := hfound .onlyDefined
  obtain ⟨runtime, hruntime, hruntimePerm⟩ := hfound .onlyRuntime
  have hnone : runtime = [] := by simpa using hruntimePerm
  rw [← mem_acceptedReferences_defined, ← modesPartition_iff (by simpa using hbothPerm)
    (by simpa using hdefinedPerm) hnone, QueriesPartition]
  constructor
  · rintro ⟨both', defined', runtime', hb, hd, hr, parts⟩
    obtain rfl := Option.some.inj (hboth.symm.trans hb)
    obtain rfl := Option.some.inj (hdefined.symm.trans hd)
    obtain rfl := Option.some.inj (hruntime.symm.trans hr)
    exact parts
  · intro parts
    exact ⟨both, defined, runtime, hboth, hdefined, hruntime, parts⟩

/-- The same for the symbols of a stream. -/
lemma streamPartitions_iff (stream : List SymbolEntry) (compareSymNames : StringComparator) :
    StreamPartitions stream compareSymNames ↔
      ∀ symEnt ∈ stream, compareSymNames symEnt.name = true →
        symEnt.metadata.isDefined = true := by
  have hkept : ∀ defToPrint,
      parseSymtables (.ok stream) (ignoreSymbolUnder defToPrint compareSymNames) =
        .ok ((stream.filter (fun symEnt => compareSymNames symEnt.name)).filter
          (fun symEnt => symEnt.metadata.isDefined && showsDefined defToPrint)) := by
    intro defToPrint
    simp only [parseSymtables, Except.map, List.filter_filter]
    congr 1
    apply List.filter_congr
    intro symEnt _
    simp [ignoreSymbolUnder, filters_agree, databaseReaderEntryShouldBeStored_eq,
      Bool.and_assoc]
  have hcond : (∀ symEnt ∈ stream.filter (fun symEnt => compareSymNames symEnt.name),
      symEnt.metadata.isDefined = true) ↔ ∀ symEnt ∈ stream,
        compareSymNames symEnt.name = true → symEnt.metadata.isDefined = true := by
    simp [List.mem_filter]
  rw [← hcond, ← modesPartition_iff (List.Perm.refl _) (List.Perm.refl _) rfl, StreamPartitions]
  simp [hkept]

/-- The modes partition the references of a query, and the symbols of a stream, exactly when
no undefined one has an accepted name: those are lost in every mode. -/
theorem modes_partition_iff (z : Zstd) (undoes : z.Undoes)
    (order : IterationOrder (TrigramCode × List UInt32)) (args : StoreArgs)
    (fits : Fits z order args) (inRange : IdsInRange args) (opened : Except Nat Unit)
    (disk disk' : Disk)
    (returned : Writing.on (storeDb z order opened args) disk = (.ok (), disk'))
    (idOrder : IterationOrder (UInt32 × UInt32)) (fuel : Nat) (enough : 2 ^ 25 ≤ fuel)
    (query : Bytes) (nonempty : query ≠ []) (compareSymNames : StringComparator)
    (stream : List SymbolEntry) :
    (QueriesPartition args query compareSymNames (fun defToPrint =>
          findSymbolReferences z idOrder fuel args.conf (.ok disk'.file) query
            (ignoreEntryUnder defToPrint compareSymNames)) ↔
        ∀ sym ∈ candidateSymbols args query, compareSymNames sym.1 = true →
          ∀ ref ∈ sym.2, ref.metadata.isDefined = true) ∧
      (StreamPartitions stream compareSymNames ↔
        ∀ symEnt ∈ stream, compareSymNames symEnt.name = true →
          symEnt.metadata.isDefined = true) :=
  ⟨queriesPartition_iff undoes fits inRange returned idOrder enough nonempty compareSymNames,
    streamPartitions_iff stream compareSymNames⟩

/-- `main` has a defined reference only, so its three searches agree with the help text. -/
theorem modes_partition_iff_sample :
    ∃ disk', Writing.on (storeDb Zstd.stored (IterationOrder.insertion _) (.ok ()) sampleArgs)
        sampleDisk = (.ok (), disk') ∧
      QueriesPartition sampleArgs (text "main") (defaultStringComparator (text "main"))
        (fun defToPrint => findSymbolReferences Zstd.stored (IterationOrder.insertion _) (2 ^ 25)
          sampleArgs.conf (.ok disk'.file) (text "main")
          (ignoreEntryUnder defToPrint (defaultStringComparator (text "main")))) := by
  obtain ⟨disk', hrun⟩ := sample_returned
  refine ⟨disk', hrun, (modes_partition_iff Zstd.stored Zstd.stored_undoes
    (IterationOrder.insertion _) sampleArgs sample_fits sample_inRange (.ok ()) sampleDisk disk'
    hrun (IterationOrder.insertion _) (2 ^ 25) (Nat.le_refl _) (text "main") (by decide) _
    []).1.mpr ?_⟩
  decide +kernel

/-- `memcpy` is undefined in `crt1.o`; that reference is shown in no mode. -/
theorem undefined_reference_lost :
    ∃ disk', Writing.on (storeDb Zstd.stored (IterationOrder.insertion _) (.ok ()) sampleArgs)
        sampleDisk = (.ok (), disk') ∧
      ¬ QueriesPartition sampleArgs (text "memcpy") (defaultStringComparator (text "memcpy"))
        (fun defToPrint => findSymbolReferences Zstd.stored (IterationOrder.insertion _) (2 ^ 25)
          sampleArgs.conf (.ok disk'.file) (text "memcpy")
          (ignoreEntryUnder defToPrint (defaultStringComparator (text "memcpy")))) := by
  obtain ⟨disk', hrun⟩ := sample_returned
  refine ⟨disk', hrun, ?_⟩
  rw [queriesPartition_iff Zstd.stored_undoes sample_fits sample_inRange hrun
    (IterationOrder.insertion _) (Nat.le_refl _) (by decide)]
  decide +kernel

end Queries
end VisibilityModes
