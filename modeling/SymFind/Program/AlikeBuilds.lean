import SymFind.Program.ChangeNotice

/-!
# Builds that no read tells apart

The bytes of a database depend on libzstd, on the trained dictionary and on the
order in which the trigrams are iterated. The answers do not: a lookup in a
stored database is a function of the files, the paths and the symbols that were
stored, and of the order in which the reader visits its counters.
-/
namespace AlikeBuilds
open RecordCodec InsertionMap SortedUnique Machine SymbolData TrigramCodes TrigramTable
open TrigramCapacity TrigramExact Compression Config DatabaseLayout DatabaseWriting WritePlan
open DatabaseReading DatabaseRoundTrip SymbolLookup ParallelBuild SearchAgreement
open DatabaseBlocks (SymbolRefs InsertionOrdered insertion_ordered)
open ReproducibleBuild MainProgram ChangeNotice ProgramRuns

section Answers

/-- The ids of the symbols that emit a code, in their order. -/
def emittingIds (args : StoreArgs) (code : TrigramCode) : List UInt32 :=
  (emittingPositions args.symtable.keys code).map UInt32.ofNat

/-- The ids of the symbols that emit all codes, as the reader comes to their counters. -/
def answerIds (args : StoreArgs) (idOrder : IterationOrder (UInt32 × UInt32)) (query : Bytes) :
    List UInt32 :=
  fullMatches idOrder (tally Map.empty ((distinctTrigrams query).flatMap (emittingIds args)))
    (distinctTrigrams query).length

/-- What a lookup answers, by what has been stored. -/
def answerOf (args : StoreArgs) (idOrder : IterationOrder (UInt32 × UInt32)) (query : Bytes)
    (ignoreEntry : IgnoreEntryCallback) : Reading (List SymbolLookupResult) :=
  if distinctTrigrams query = [] then
    .error (.failed (.text (text "DatabaseReader: Couldn't find trigram for \"" ++ query ++
      text "\"")))
  else if answerIds args idOrder query = [] then
    .error (.failed (.text (text "DatabaseReader: Symbol not found")))
  else .ok ((symbolsAt args (answerIds args idOrder query)).map (shownSymbol args ignoreEntry))

/-- The dictionary and the configuration have no part in it. -/
lemma answerOf_settled (shared : Shared) (conf conf' : ConfigParser)
    (dictBuilder dictBuilder' : Option DictionaryBuilder) :
    answerOf (settledArgs shared conf dictBuilder) =
      answerOf (settledArgs shared conf' dictBuilder') := rfl

variable {z : Zstd} {order : IterationOrder (TrigramCode × List UInt32)} {args : StoreArgs}
  {t : TrigramTables}

/-- The stored index lists under a code the ids that emit it, wherever its slot is. -/
lemma lookupIds_emitting (built : BuiltTables) (fits : Fits z order args)
    (ht : buildTrigramTables order args.symtable.keys = .ok t) {fuel : Nat}
    (enough : t.capacity.toNat ≤ fuel) (code : TrigramCode) :
    lookupIds fuel (storedReader z args built t).trigramSlotsBuf
        (storedReader z args built t).trigramPostingsBuf
        (storedReader z args built t).trigramCapacity code = .ok (emittingIds args code) ∧
      (emittingIds args code).Nodup ∧
      ∀ symId, symId ∈ emittingIds args code ↔
        ∃ sym, args.symtable.entries[symId.toNat]? = some sym ∧ code ∈ forEachTrigram sym.1 := by
  obtain ⟨ids, hlookup, -, hpositions⟩ :=
    built_answers args.symtable.nodup ht (fits.postings t ht) enough code
  have hids : emittingIds args code = ids := by
    rw [emittingIds, Map.keys, ← hpositions, List.map_map]
    exact List.map_id'' (fun id => UInt32.ofNat_toNat) ids
  obtain ⟨idsOf, hstored, hnodup, hmem⟩ := stored_postings built fits ht enough
  have hsame : emittingIds args code = idsOf code :=
    hids.trans (Except.ok.inj (hlookup.symm.trans (hstored code)))
  rw [hsame]
  exact ⟨hstored code, hnodup code, hmem code⟩

/-- A search in the stored tables answers this. -/
lemma find_eq_answerOf (built : BuiltTables) (fits : Fits z order args)
    (ht : buildTrigramTables order args.symtable.keys = .ok t)
    (idOrder : IterationOrder (UInt32 × UInt32)) {fuel : Nat} (enough : t.capacity.toNat ≤ fuel)
    (query : Bytes) (ignoreEntry : IgnoreEntryCallback) :
    (storedReader z args built t).find idOrder fuel query ignoreEntry =
      answerOf args idOrder query ignoreEntry := by
  rw [DatabaseReader.find, answerOf]
  by_cases hcodes : distinctTrigrams query = []
  · rw [if_pos hcodes, if_pos hcodes]
    rfl
  have nonempty : query ≠ [] := by
    rintro rfl
    exact hcodes rfl
  have hindex := fun code => lookupIds_emitting built fits ht enough code
  have hcounts := countMatches_eq Map.empty
    (fun code (_ : code ∈ distinctTrigrams query) => (hindex code).1)
  have selects : ∀ symId, symId ∈ answerIds args idOrder query ↔
      ∃ sym, args.symtable.entries[symId.toNat]? = some sym ∧ EmitsAll query sym.1 :=
    fullMatches_select idOrder nonempty (fun code => (hindex code).2.2)
      (fun code => (hindex code).2.1)
  have hcollect : collect ((storedReader z args built t).resolveCandidate ignoreEntry)
      (answerIds args idOrder query) = .ok ((symbolsAt args (answerIds args idOrder query)).map
        (shownSymbol args ignoreEntry)) := by
    rw [collect_eq (fun symId _ => resolveCandidate_stored built t fits ignoreEntry symId),
      symbolsAt, List.map_filterMap]
  rw [if_neg hcodes, if_neg hcodes, hcounts]
  by_cases hnil : answerIds args idOrder query = []
  · rw [if_pos hnil]
    exact if_pos hnil
  · rw [if_neg hnil]
    refine (if_neg hnil).trans ((congrArg (· >>= _) hcollect).trans (if_neg ?_))
    rw [List.map_eq_nil_iff, symbolsAt_eq_nil_iff selects]
    exact hnil

end Answers

section Builds

variable {z : Zstd} {order : IterationOrder (TrigramCode × List UInt32)}
  {tableOrder : IterationOrder (SymbolName × SymbolRefs)} {shared : Shared}
  {conf : ConfigParser} {dictBuilder : Option DictionaryBuilder}

/-- A build leaves the answers for the files, and the block of its configuration. -/
lemma BuildRun.answers (undoes : z.Undoes)
    (run : BuildRun z order tableOrder shared conf dictBuilder)
    (inserted : InsertionOrdered tableOrder)
    (fits : Fits z order (settledArgs shared conf dictBuilder)) (reader : ConfigParser) :
    (∀ idOrder fuel, 2 ^ 25 ≤ fuel → ∀ query ignoreEntry,
      findSymbolReferences z idOrder fuel reader (.ok run.after.file) query ignoreEntry =
        answerOf (settledArgs shared conf dictBuilder) idOrder query ignoreEntry) ∧
    confNotices reader (.ok run.after.file) =
      if conf.confBlock = reader.confBlock then [] else [.configurationChanged] := by
  obtain ⟨built, hbuilt, hfile⟩ := BuildRun.image run inserted fits
  rw [hfile]
  refine ⟨?_, notices_of_stored fits hbuilt reader⟩
  intro idOrder fuel enough query ignoreEntry
  obtain ⟨k, t, _, hk, ht, hcap, _⟩ :=
    build_filled order (settledArgs shared conf dictBuilder).symtable.keys
  have hslots : t.capacity.toNat ≤ fuel := by
    rw [hcap, toNat_two_pow (by omega)]
    exact (Nat.pow_le_pow_right (by decide) hk).trans enough
  rw [← find_eq_answerOf built fits ht idOrder hslots]
  simp only [findSymbolReferences, image_mapped, decompress_stored fits hbuilt undoes ht, bind,
    Except.bind]

/-- A read cannot tell apart two builds of the same files under the same configuration: it says and
prints the same, in the same order. The threads, the order of the trigrams, libzstd and the
dictionary make no difference, as long as the tables of symbols are iterated in the order of
insertion. -/
theorem readDb_alike {lib lib' : Libraries} (sameEngines : lib'.engines = lib.engines)
    (sameCounting : lib'.countOrder = lib.countOrder) (undoes : lib.zstd.Undoes)
    (undoes' : lib'.zstd.Undoes) (inserted : InsertionOrdered lib.tableOrder)
    (inserted' : InsertionOrdered lib'.tableOrder) {shared : Shared} {conf conf' : ConfigParser}
    (sameBlock : conf'.confBlock = conf.confBlock)
    {dictBuilder dictBuilder' : Option DictionaryBuilder}
    (run : BuildRun lib.zstd lib.storeOrder lib.tableOrder shared conf dictBuilder)
    (run' : BuildRun lib'.zstd lib'.storeOrder lib'.tableOrder shared conf' dictBuilder')
    (fits : Fits lib.zstd lib.storeOrder (settledArgs shared conf dictBuilder))
    (fits' : Fits lib'.zstd lib'.storeOrder (settledArgs shared conf' dictBuilder'))
    (q : Prepared) {files files' : Files}
    (built : files q.conf.databasePath = .ok run.after.file)
    (built' : files' q.conf.databasePath = .ok run'.after.file) :
    readDb lib q files = readDb lib' q files' := by
  obtain ⟨hanswers, hnotices⟩ := BuildRun.answers undoes run inserted fits q.conf
  obtain ⟨hanswers', hnotices'⟩ := BuildRun.answers undoes' run' inserted' fits' q.conf
  have hmade : comparatorOf lib' q.options = comparatorOf lib q.options := by
    rw [comparatorOf, comparatorOf, sameEngines]
  have hsaid : confNotices q.conf (.ok run'.after.file) =
      confNotices q.conf (.ok run.after.file) := by
    rw [hnotices, hnotices', sameBlock]
  rw [readDb, readDb, hmade]
  cases comparatorOf lib q.options with
  | none => rfl
  | some compareSymNames =>
    simp only [built, built', hsaid]
    rw [hanswers _ _ (by decide), hanswers' _ _ (by decide), sameCounting,
      answerOf_settled shared conf' conf dictBuilder' dictBuilder]

/-- A container that is iterated the other way. -/
def reversedOrder (α : Type) : IterationOrder α := ⟨List.reverse, List.reverse_perm⟩

/-- The trigrams of the three files may be stored in either order. -/
theorem readDb_alike_reversed :
    ∃ (run : BuildRun Zstd.stored (IterationOrder.insertion _) (IterationOrder.insertion _)
        sampleShared ConfigParser.new none)
      (run' : BuildRun Zstd.stored (reversedOrder _) (IterationOrder.insertion _) sampleShared
        ConfigParser.new none),
      readDb sampleLibraries (samplePrepared readOptions) (fun _ => .ok run.after.file) =
        readDb { sampleLibraries with storeOrder := reversedOrder _ } (samplePrepared readOptions)
          (fun _ => .ok run'.after.file) := by
  obtain ⟨run, -⟩ := exists_sampleBuild (Nat.le_refl 1)
  obtain ⟨run', -⟩ := @exists_build Zstd.stored (reversedOrder _) (IterationOrder.insertion _)
    sampleShared ConfigParser.new none insertion_ordered (by decide) 2 (by decide) sampleDisk
    (by decide +kernel)
  have fits : Fits Zstd.stored (IterationOrder.insertion _)
      (settledArgs sampleShared ConfigParser.new none) := by
    decide +kernel
  have fits' : Fits Zstd.stored (reversedOrder _)
      (settledArgs sampleShared ConfigParser.new none) := by
    decide +kernel
  exact ⟨run, run', @readDb_alike sampleLibraries
    { sampleLibraries with storeOrder := reversedOrder _ } rfl rfl Zstd.stored_undoes
    Zstd.stored_undoes insertion_ordered insertion_ordered sampleShared _ _ rfl none none run run'
    fits fits' _ _ _ rfl rfl⟩

end Builds

end AlikeBuilds
