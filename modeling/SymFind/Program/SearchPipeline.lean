import SymFind.Build.SearchAgreement
import SymFind.Filesystem.ScanSelection

/-!
# From a directory tree to the answer of a search

A scan hands its files to the build, and a search reads what the build stored.
Put together, a search with any comparator shows what a free run with the same
comparator shows of the names that have all trigrams of the query, and for exact
names these are all.
-/
namespace SearchPipeline
open RecordCodec InsertionMap Machine SymbolData TrigramCodes PathCache PathStrings Compression
open DatabaseLayout DatabaseBlocks Config DatabaseWriting WritePlan DatabaseReading
open DatabaseRoundTrip SymbolLookup ElfParser Threading ParallelBuild SearchAgreement
open TreeScan ScanSelection

section Comparators

/-- `ignore_entry` of `main`. -/
def ignoreEntry (compareSymNames : StringComparator) : IgnoreEntryCallback := fun name metadata =>
  ! databaseReaderEntryShouldBeStored name metadata .onlyDefined compareSymNames

/-- `ignore_symbol` of `main`. -/
def ignoreSymbol (compareSymNames : StringComparator) : SymbolShouldBeIgnoredCallback :=
  fun symEnt => ! symfinderSymbolShouldBeStored symEnt .onlyDefined compareSymNames

/-- What is shown of a reported symbol. -/
def shownReport (shared : Shared) (report : SymbolName × SymbolRef) : Shown :=
  (filePathOf shared report.2.fileId, report.1, report.2.metadata)

/-- A report that a search for the query shows. -/
def answers (compareSymNames : StringComparator) (query : Bytes)
    (report : SymbolName × SymbolRef) : Bool :=
  EmitsAll query report.1 && ! ignoreEntry compareSymNames report.1 report.2.metadata

variable {tableOrder : IterationOrder (SymbolName × SymbolRefs)} {shared : Shared}
  {conf : ConfigParser} {m : Merging}

/-- The kept references of all candidates are the reports that answer the query. -/
lemma candidates_answer (closed : ClosedPaths shared) (compareSymNames : StringComparator)
    (query : Bytes) {es : List (SymbolName × SymbolRef)}
    (hmerged : ∀ name, m.mergedSymtable.get name = (record es).get name) :
    (((candidateSymbols (buildArgs tableOrder shared conf m) query).flatMap
        (keptReferences (buildArgs tableOrder shared conf m) (ignoreEntry compareSymNames))).map
          shownReferenceOf).Perm
      ((es.filter (answers compareSymNames query)).map (shownReport shared)) := by
  have hown : ∀ sym : SymbolName × SymbolRefs,
      (if EmitsAll query sym.1 then
        (keptReferences (buildArgs tableOrder shared conf m) (ignoreEntry compareSymNames) sym).map
          shownReferenceOf else []) =
      ((sym.2.map (fun ref => (sym.1, ref))).filter (answers compareSymNames query)).map
        (shownReport shared) := by
    rintro ⟨name, refs⟩
    by_cases hall : EmitsAll query name
    · simp [hall, keptReferences, List.filter_map, Function.comp_def, answers, shownReferenceOf,
        shownReport, referencePath_eq tableOrder conf m closed]
    · simp [hall, List.filter_map, Function.comp_def, answers]
  have hsplit : ∀ entries : List (SymbolName × SymbolRefs),
      ((entries.filter (fun sym => EmitsAll query sym.1)).flatMap
        (keptReferences (buildArgs tableOrder shared conf m) (ignoreEntry compareSymNames))).map
          shownReferenceOf =
        ((entries.flatMap (fun sym => sym.2.map (fun ref => (sym.1, ref)))).filter
          (answers compareSymNames query)).map (shownReport shared) := by
    intro entries
    induction entries with
    | nil => rfl
    | cons sym rest ih =>
      rw [List.flatMap_cons, List.filter_append, List.map_append, ← ih, ← hown, List.filter_cons]
      by_cases hall : EmitsAll query sym.1
      · rw [if_pos hall, if_pos (decide_eq_true hall), List.flatMap_cons, List.map_append]
      · rw [if_neg hall, if_neg (by simpa using hall), List.nil_append]
  rw [candidateSymbols, hsplit]
  exact ((((iterated_perm hmerged).flatMap_right _).trans (flatMap_record_perm es)).filter _).map _

/-- For every file, its reports that answer the query are what a free run shows of it with names
that have the trigrams of the query. -/
lemma reports_shown (compareSymNames : StringComparator) (query : Bytes) (ids : FileIDList) :
    ((reports shared ids).filter (answers compareSymNames query)).map (shownReport shared) =
      (ids.flatMap (shownOf shared (ignoreSymbol compareSymNames))).filter
        (fun shown => EmitsAll query shown.2.1) := by
  rw [reports, List.filter_flatMap, List.map_flatMap, List.filter_flatMap]
  apply List.flatMap_congr
  intro id _
  -- on one file both sides filter the reported symbols by the same two tests
  rw [shownOf, List.filter_map, List.map_map, List.filter_map, List.filter_filter]
  rfl

/-- With any comparator a search in a built database shows what a free run with the same
comparator shows of the names that have the trigrams of the query. -/
lemma lookup_shown {z : Zstd} (undoes : z.Undoes)
    {order : IterationOrder (TrigramCode × List UInt32)} (closed : ClosedPaths shared)
    {dictBuilder : Option DictionaryBuilder}
    (run : BuildRun z order tableOrder shared conf dictBuilder)
    (fits : Fits z order (buildArgs tableOrder shared conf run.merging)) (readConf : ConfigParser)
    (idOrder : IterationOrder (UInt32 × UInt32)) {fuel : Nat} (enough : 2 ^ 25 ≤ fuel)
    (compareSymNames : StringComparator) {query : Bytes} (nonempty : query ≠ []) :
    ∃ found, flattened (findSymbolReferences z idOrder fuel readConf (.ok run.after.file) query
        (ignoreEntry compareSymNames)) = some found ∧
      (found.map shownReferenceOf).Perm
        (((allFileIds shared.foundFiles.length).flatMap
          (shownOf shared (ignoreSymbol compareSymNames))).filter
            (fun shown => EmitsAll query shown.2.1)) := by
  have small : shared.foundFiles.length < 2 ^ 32 := small_of_fits fits
  have hmerged := run.merged_get small
  obtain ⟨syms, hperm, hfind⟩ := findSymbolReferences_stored undoes fits run.returned
    readConf idOrder enough nonempty (ignoreEntry compareSymNames)
  have hfound := flattened_shown (fun sym hsym => buildArgs_inRange tableOrder conf run.merging
    small hmerged sym (List.mem_of_mem_filter (hperm.mem_iff.mp hsym)))
    (ignoreEntry compareSymNames)
  rw [← hfind] at hfound
  refine ⟨_, hfound, ?_⟩
  have hkept := (hperm.flatMap_right (keptReferences (buildArgs tableOrder shared conf run.merging)
    (ignoreEntry compareSymNames))).map shownReferenceOf
  have hanswer := @candidates_answer tableOrder shared conf run.merging closed compareSymNames
    query _ hmerged
  rw [reports_shown] at hanswer
  exact hkept.trans hanswer

end Comparators

section Scans

/-- The found files, the cache and the contents of the files, looked up by path. -/
def sharedOf (st : ScanState) (contents : Bytes → ObjectFile) : Shared :=
  ⟨st.foundFiles, st.cache, fun _ path => contents path⟩

/-- What a scan does to its state, one file or directory at a time, keeps `P`. -/
structure KeptByScan (P : ScanState → Prop) : Prop where
  file : ∀ st directory name, P st → directory.getLast? = some slash →
    P (st.storeFile directory name)
  directory : ∀ st name, P st → P (st.addPathNameSample name)

lemma pathPlusSlash_getLast (path : Bytes) : (pathPlusSlash path).getLast? = some slash := by
  rw [pathPlusSlash]
  split
  · assumption
  · exact List.getLast?_concat

variable {P : ScanState → Prop} {env : ScanEnv}

/-- The loop keeps what each of its steps keeps. -/
lemma scanLoop_keeps (kept : KeptByScan P) (realPath : Bytes) (device : Option Device)
    (entries : DirStream) {st : ScanState} (start : P st) :
    P (scanLoop env realPath device entries st).2 := by
  induction entries generalizing realPath device st with
  | done => exact start
  | entry name dType opening below rest ihBelow ihRest =>
    rw [scanLoop]
    cases entryAction env (getDirPath realPath) device name dType opening with
    | skip => exact ihRest realPath device start
    | store =>
      exact ihRest realPath device (kept.file st _ name start (pathPlusSlash_getLast _))
    | halt stop => exact start
    | descend dev =>
      have hentered := kept.directory st name start
      simp only
      cases pruneCheck env (getDirPath (joinPath realPath name)) with
      | prunePath => exact ihRest realPath device hentered
      | bindMount => exact hentered
      | clear =>
        have hbelow := ihBelow (joinPath realPath name) (some dev) hentered
        simp only
        revert hbelow
        rcases scanLoop env (joinPath realPath name) (some dev) below
          (st.addPathNameSample name) with ⟨outcome, st'⟩
        intro hbelow
        rcases outcome with ⟨_ | _, errMsg⟩ | _ | fault
        · exact hbelow
        · exact ihRest realPath device hbelow
        · exact hbelow
        · exact hbelow

theorem scan_keeps (kept : KeptByScan P) (root : Except Nat Root) {st : ScanState} (start : P st) :
    P (scan env root st).2 := by
  cases root with
  | error errno => exact start
  | ok root =>
    have hwalk : P (scanFs env root.realPath root.device root.entries st).2 := by
      rw [scanFs]
      cases pruneCheck env (getDirPath root.realPath) with
      | prunePath => exact start
      | bindMount => exact start
      | clear => exact scanLoop_keeps kept _ _ _ start
    rw [scan]
    revert hwalk
    rcases scanFs env root.realPath root.device root.entries st with ⟨outcome, st'⟩
    intro hwalk
    rcases outcome with ⟨_ | _, errMsg⟩ | _ | fault <;> exact hwalk

/-- Cached paths end in a slash, and each file's number is that of a cached path. -/
structure Interned (st : ScanState) : Prop where
  valid : st.cache.Valid
  slashes : ∀ path ∈ st.cache.idToStr, path.getLast? = some slash
  files : ∀ file ∈ st.foundFiles, file.pathId.toNat < st.cache.idToStr.length

lemma interned_new (dictBuilder : Option DictionaryBuilder) : Interned (.new dictBuilder) :=
  ⟨StringCache.new_valid, by rintro _ ⟨⟩, by rintro _ ⟨⟩⟩

lemma interned_kept : KeptByScan Interned where
  file := by
    intro st directory name interned hslash
    obtain ⟨i, hi, hid⟩ := StringCache.storeString_id interned.valid directory
    have hlist := StringCache.storeString_idToStr interned.valid directory
    have hlt := (List.getElem?_eq_some_iff.mp hi).1
    have hgrows : st.cache.idToStr.length ≤
        (st.cache.storeString directory).1.idToStr.length := by
      rw [hlist, addKey]
      split
      · exact Nat.le_refl _
      · rw [List.length_append]
        exact Nat.le_add_right _ _
    simp only [ScanState.storeFile, addFileNameSample_cache, addFileNameSample_foundFiles]
    refine ⟨StringCache.storeString_valid interned.valid directory, ?_, ?_⟩
    · intro path hpath
      rw [hlist, mem_addKey] at hpath
      rcases hpath with hpath | rfl
      · exact interned.slashes path hpath
      · exact hslash
    · intro file hfile
      rcases List.mem_append.mp hfile with hfile | hfile
      · exact (interned.files file hfile).trans_le hgrows
      · rw [List.mem_singleton.mp hfile, hid, UInt32.toNat_ofNat']
        exact (Nat.mod_le _ _).trans_lt hlt
  directory := by
    intro st name interned
    rw [ScanState.addPathNameSample]
    cases st.dictBuilder <;> exact ⟨interned.valid, interned.slashes, interned.files⟩

lemma Interned.closed {st : ScanState} (interned : Interned st) (contents : Bytes → ObjectFile) :
    ClosedPaths (sharedOf st contents) := by
  intro file hfile
  have hget := List.getElem?_eq_getElem (interned.files file hfile)
  exact ⟨_, hget, interned.slashes _ (List.mem_of_getElem? hget)⟩

end Scans

section Answers

/-- What is shown of the file under a path. -/
def shownAt (contents : Bytes → ObjectFile) (ignore : SymbolShouldBeIgnoredCallback)
    (path : Bytes) : List Shown :=
  match contents path with
  | .error _ => []
  | .ok syms => (syms.filter (fun symEnt => ! ignore symEnt)).map
      (fun sym => (path, sym.name, sym.metadata))

/-- Everything that is shown of a list of files. -/
def shownOfPaths (contents : Bytes → ObjectFile) (ignore : SymbolShouldBeIgnoredCallback)
    (paths : List Bytes) : List Shown :=
  paths.flatMap (shownAt contents ignore)

lemma flatMap_range_getElem? {α β : Type*} (l : List α) (g : α → List β) (f : Nat → List β)
    (agree : ∀ i a, l[i]? = some a → f i = g a) :
    (List.range l.length).flatMap f = l.flatMap g := by
  induction l generalizing f with
  | nil => rfl
  | cons a rest ih =>
    rw [List.length_cons, List.range_succ_eq_map, List.flatMap_cons, List.flatMap_cons,
      List.flatMap_map, agree 0 a rfl]
    exact congrArg (g a ++ ·) (ih (fun i => f (i + 1)) (fun i b h => agree (i + 1) b h))

/-- Over all ids, what a free run shows is what is shown of the paths of the found files. -/
lemma flatMap_shownOf (st : ScanState) (contents : Bytes → ObjectFile)
    (ignore : SymbolShouldBeIgnoredCallback) (small : st.foundFiles.length < 2 ^ 32) :
    (allFileIds st.foundFiles.length).flatMap (shownOf (sharedOf st contents) ignore) =
      shownOfPaths contents ignore (st.foundFiles.map (getFileInfoFullPath st.cache)) := by
  rw [allFileIds, List.flatMap_map, shownOfPaths, List.flatMap_map]
  apply flatMap_range_getElem?
  intro i file hfile
  have hlt := (List.getElem?_eq_some_iff.mp hfile).1
  have hid : (UInt32.ofNat i).toNat = i := UInt32.toNat_ofNat_of_lt' (hlt.trans small)
  have hget : (sharedOf st contents).foundFiles[(UInt32.ofNat i).toNat]? = some file :=
    hid.symm ▸ hfile
  simp only [shownOf, reportedSymbols, filePathOf, hget, shownAt]
  change List.map _ (List.filter _ (match contents (getFileInfoFullPath st.cache file) with
    | .error _ => []
    | .ok syms => syms)) = _
  cases contents (getFileInfoFullPath st.cache file) <;> rfl

end Answers

end SearchPipeline
