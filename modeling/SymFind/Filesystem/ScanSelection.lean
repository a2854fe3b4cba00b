import Mathlib.Data.Fintype.EquivFin
import SymFind.Filesystem.TreeScan

/-!
# Which files a scan finds

On a well-formed tree nothing stops the walk, so the found files are the
tracked files that no pruning rule hides. Their paths go through the cache,
which has room for 2³² directories.
-/
namespace ScanSelection
open RecordCodec InsertionMap SymbolData Machine Config Compression PathCache PathStrings TreeScan

section Trees

def names : DirStream → List Bytes
  | .done => []
  | .entry name _ _ _ rest => name :: names rest

/-- Names are not empty, have no slash and appear once; types are known; directories open, have a
device and a short path. -/
def WellFormed (realPath : Bytes) : DirStream → Prop
  | .done => True
  | .entry name dType opening below rest =>
    (name ≠ [] ∧ slash ∉ name ∧ name ∉ names rest) ∧
    entryTypeOf dType ≠ .unknown ∧
    (entryTypeOf dType = .directory → isDots name = false →
      (∃ dev, opening = .opened (some dev)) ∧
        (joinPath realPath name).length < maxPathLen ∧
        WellFormed (joinPath realPath name) below) ∧
    WellFormed realPath rest

/-- A root that opens and has a device, with a well-formed tree. -/
structure WellFormedRoot (root : Root) (device : Device) : Prop where
  device : root.device = some device
  short : root.realPath.length < maxPathLen
  entries : WellFormed root.realPath root.entries

/-- No rule but `prunepaths` keeps the scan out of an entry, a directory of device `dev`. -/
structure Enters (env : ScanEnv) (realPath : Bytes) (device : Device) (name : Bytes)
    (dType : UInt8) (opening : Opening) (dev : Device) : Prop where
  directory : entryTypeOf dType = .directory
  notDots : isDots name = false
  notNamed : name ∉ env.conf.prunenames
  opens : opening = .opened (some dev)
  notExcluded : ¬ (dev ≠ device ∧
    filesystemIsExcluded env.mounts env.conf.prunefs (joinPath realPath name) = true)

/-- The tracked files of a stream that no rule hides: their directories, each with a slash at its
end, and their names. -/
inductive Listed (env : ScanEnv) : Bytes → Device → DirStream → Bytes → Bytes → Prop
  | file {realPath : Bytes} {device : Device} {name : Bytes} {dType : UInt8} {opening : Opening}
      {below rest : DirStream} (regular : entryTypeOf dType = .regFile)
      (tracked : filenameHasAnyOfExtensions name trackingExtensions = true) :
      Listed env realPath device (.entry name dType opening below rest)
        (pathPlusSlash realPath) name
  | inside {realPath : Bytes} {device : Device} {name : Bytes} {dType : UInt8} {opening : Opening}
      {below rest : DirStream} {dev : Device} {directory file : Bytes}
      (enters : Enters env realPath device name dType opening dev)
      (notPath : joinPath realPath name ∉ env.conf.prunepaths)
      (listed : Listed env (joinPath realPath name) dev below directory file) :
      Listed env realPath device (.entry name dType opening below rest) directory file
  | rest {realPath : Bytes} {device : Device} {name : Bytes} {dType : UInt8} {opening : Opening}
      {below rest : DirStream} {directory file : Bytes}
      (listed : Listed env realPath device rest directory file) :
      Listed env realPath device (.entry name dType opening below rest) directory file

/-- The files that the scan of a root should find. -/
def ListedFile (env : ScanEnv) (root : Root) (device : Device) (directory file : Bytes) : Prop :=
  root.realPath ∉ env.conf.prunepaths ∧
    Listed env root.realPath device root.entries directory file

end Trees

section Walk

variable {env : ScanEnv} {realPath name : Bytes} {device : Device} {dType : UInt8}
  {opening : Opening} {below rest : DirStream}

lemma getDirPath_short (short : realPath.length < maxPathLen) : getDirPath realPath = realPath :=
  List.take_of_length_le (Nat.le_sub_one_of_lt short)

/-- The three things that can happen to an entry of a well-formed tree. -/
lemma entryAction_wellFormed (env : ScanEnv) (device : Device)
    (wf : WellFormed realPath (.entry name dType opening below rest)) :
    (entryTypeOf dType = .regFile ∧
      filenameHasAnyOfExtensions name trackingExtensions = true ∧
      entryAction env realPath (some device) name dType opening = .store) ∨
    (∃ dev, Enters env realPath device name dType opening dev ∧
      entryAction env realPath (some device) name dType opening = .descend dev) ∨
    ((entryTypeOf dType = .regFile →
        filenameHasAnyOfExtensions name trackingExtensions = false) ∧
      (∀ dev, ¬ Enters env realPath device name dType opening dev) ∧
      entryAction env realPath (some device) name dType opening = .skip) := by
  obtain ⟨⟨hname, -, -⟩, hknown, hdir, -⟩ := wf
  rw [entryAction]
  by_cases hdots : isDots name = true
  · -- neither `.` nor `..` has a tracked extension
    rw [if_pos hdots]
    refine .inr (.inr ⟨fun _ => ?_, fun dev h => ?_, rfl⟩)
    · rw [isDots, Bool.or_eq_true, beq_iff_eq, beq_iff_eq] at hdots
      rcases hdots with rfl | rfl <;> decide
    · rw [h.notDots] at hdots
      cases hdots
  rw [if_neg hdots, if_neg hname]
  by_cases hreg : entryTypeOf dType = .regFile
  · have hno : ∀ dev, ¬ Enters env realPath device name dType opening dev := by
      intro dev h
      have := h.directory
      rw [hreg] at this
      cases this
    rw [if_pos hreg]
    by_cases htracked : filenameHasAnyOfExtensions name trackingExtensions = true
    · exact .inl ⟨hreg, htracked, if_pos htracked⟩
    · exact .inr (.inr ⟨fun _ => Bool.not_eq_true _ ▸ htracked, hno, if_neg htracked⟩)
  rw [if_neg hreg]
  refine .inr ?_
  by_cases hdirectory : entryTypeOf dType = .directory
  · obtain ⟨⟨dev, rfl⟩, -, -⟩ := hdir hdirectory (Bool.not_eq_true _ ▸ hdots)
    rw [if_neg (fun h => h.2 hdirectory)]
    by_cases hnamed : name ∈ env.conf.prunenames
    · rw [if_pos (List.contains_iff_mem.mpr hnamed)]
      exact .inr ⟨fun h => absurd h hreg, fun _ h => h.notNamed hnamed, rfl⟩
    rw [if_neg (fun h => hnamed (List.contains_iff_mem.mp h))]
    simp only [if_pos hdirectory]
    by_cases hexcluded : dev ≠ device ∧
        filesystemIsExcluded env.mounts env.conf.prunefs (joinPath realPath name) = true
    · refine .inr ⟨fun h => absurd h hreg, fun other h => ?_, if_pos hexcluded⟩
      have hsame : dev = other := by simpa using h.opens
      exact h.notExcluded (hsame ▸ hexcluded)
    · exact .inl ⟨dev, ⟨hdirectory, Bool.not_eq_true _ ▸ hdots, hnamed, rfl, hexcluded⟩,
        if_neg hexcluded⟩
  · rw [if_pos ⟨hknown, hdirectory⟩]
    exact .inr ⟨fun h => absurd h hreg, fun _ h => hdirectory h.directory, rfl⟩

lemma Enters.unique {dev dev' : Device} (h : Enters env realPath device name dType opening dev)
    (h' : Enters env realPath device name dType opening dev') : dev = dev' := by
  have hopens := h.opens.symm.trans h'.opens
  simpa using hopens

lemma listed_entry_iff (directory file : Bytes) :
    Listed env realPath device (.entry name dType opening below rest) directory file ↔
      (entryTypeOf dType = .regFile ∧
        filenameHasAnyOfExtensions name trackingExtensions = true ∧
        directory = pathPlusSlash realPath ∧ file = name) ∨
      (∃ dev, Enters env realPath device name dType opening dev ∧
        joinPath realPath name ∉ env.conf.prunepaths ∧
        Listed env (joinPath realPath name) dev below directory file) ∨
      Listed env realPath device rest directory file := by
  constructor
  · intro h
    cases h with
    | file regular tracked => exact .inl ⟨regular, tracked, rfl, rfl⟩
    | inside enters notPath listed => exact .inr (.inl ⟨_, enters, notPath, listed⟩)
    | rest listed => exact .inr (.inr listed)
  · rintro (⟨regular, tracked, rfl, rfl⟩ | ⟨dev, enters, notPath, listed⟩ | listed)
    · exact .file regular tracked
    · exact .inside enters notPath listed
    · exact .rest listed

/-- Nothing stops the walk, and it finds the listed files. -/
theorem walk_lists {entries : DirStream} (device : Device) (off : env.conf.pruneBindMounts = false)
    (wf : WellFormed realPath entries) (short : realPath.length < maxPathLen) :
    ¬ Stops (events env realPath (some device) entries) ∧
      ∀ directory file, (directory, file) ∈ foundOf (events env realPath (some device) entries) ↔
        Listed env realPath device entries directory file := by
  induction entries generalizing realPath device with
  | done =>
    constructor
    · rintro ⟨stop, h⟩
      cases h
    · intro directory file
      exact iff_of_false List.not_mem_nil (by rintro ⟨⟩)
  | entry name dType opening below rest ihBelow ihRest =>
    obtain ⟨hfree, hrest⟩ := ihRest device wf.2.2.2 short
    simp only [listed_entry_iff]
    rw [events, getDirPath_short short]
    rcases entryAction_wellFormed env device wf with
      ⟨hreg, htracked, haction⟩ | ⟨dev, henters, haction⟩ | ⟨hfile, hno, haction⟩
    · have hno : ∀ dev, ¬ Enters env realPath device name dType opening dev :=
        fun dev h => absurd (hreg.symm.trans h.directory) (by decide)
      rw [haction]
      constructor
      · simpa [stops_cons] using hfree
      · intro directory file
        simp [foundOf, hrest, hreg, htracked, hno]
    · have hreg : entryTypeOf dType ≠ .regFile :=
        fun h => absurd (h.symm.trans henters.directory) (by decide)
      obtain ⟨-, hchild, hbelow⟩ := wf.2.2.1 henters.directory henters.notDots
      obtain ⟨hfreeBelow, hlisted⟩ := ihBelow dev hbelow hchild
      have honly : ∀ P : Device → Prop,
          (∃ dev', Enters env realPath device name dType opening dev' ∧ P dev') ↔ P dev := by
        intro P
        constructor
        · rintro ⟨dev', h, hP⟩
          exact henters.unique h ▸ hP
        · exact fun hP => ⟨dev, henters, hP⟩
      rw [haction]
      simp only [pruneCheck_off off, getDirPath_short hchild, honly]
      by_cases hpath : joinPath realPath name ∈ env.conf.prunepaths
      · simp only [if_pos hpath]
        constructor
        · simpa [stops_cons] using hfree
        · intro directory file
          simp [foundOf, hrest, hreg, hpath]
      · have hfreeOwn := (stops_below name _).not.mpr hfreeBelow
        simp only [if_neg hpath]
        constructor
        · simp [stops_cons, stops_append, hfreeOwn, hfree]
        · intro directory file
          simp [foundOf, (continues_without_stop hfreeOwn _).2, foundOf_below, hrest, hlisted,
            hreg, hpath]
    · rw [haction]
      refine ⟨hfree, fun directory file => ?_⟩
      rw [hrest]
      constructor
      · exact fun h => .inr (.inr h)
      · rintro (⟨hreg, htracked, -⟩ | ⟨dev, henters, -⟩ | h)
        · rw [hfile hreg] at htracked
          cases htracked
        · exact absurd henters (hno dev)
        · exact h

end Walk

section Paths

def fullPath (file : Bytes × Bytes) : Bytes := file.1 ++ file.2

/-- A name without a slash is what stands before the first slash. -/
lemma name_of_path {name name' tail tail' : Bytes} (hname : slash ∉ name) (hname' : slash ∉ name')
    (htail : ∀ c ∈ tail.head?, c = slash) (htail' : ∀ c ∈ tail'.head?, c = slash)
    (h : name ++ tail = name' ++ tail') : name = name' := by
  have hfront : ∀ n t : Bytes, slash ∉ n → (∀ c ∈ t.head?, c = slash) →
      (n ++ t).takeWhile (fun c => c != slash) = n := by
    intro n t hn ht
    have hall : ∀ c ∈ n, (c != slash) = true := by
      intro c hc
      exact bne_iff_ne.mpr (fun he => hn (he ▸ hc))
    rw [List.takeWhile_append_of_pos hall]
    cases t with
    | nil => simp
    | cons c rest => simp [ht c rfl]
  rw [← hfront name tail hname htail, ← hfront name' tail' hname' htail', h]

variable {env : ScanEnv} {realPath name : Bytes} {device : Device} {entries : DirStream}

lemma pathPlusSlash_joinPath (hname : name ≠ []) (hslash : slash ∉ name) :
    pathPlusSlash (joinPath realPath name) = pathPlusSlash realPath ++ (name ++ [slash]) := by
  have hlast : (joinPath realPath name).getLast? ≠ some slash := by
    rw [joinPath, List.getLast?_append_of_ne_nil _ hname]
    exact fun h => hslash (List.mem_of_getLast? h)
  rw [pathPlusSlash, if_neg hlast, joinPath, List.append_assoc]

/-- The path of a listed file begins with the path of the stream and the name of an entry. -/
lemma listed_path (wf : WellFormed realPath entries) {directory file : Bytes}
    (listed : Listed env realPath device entries directory file) :
    ∃ name ∈ names entries, ∃ tail, (∀ c ∈ tail.head?, c = slash) ∧
      fullPath (directory, file) = pathPlusSlash realPath ++ (name ++ tail) := by
  induction listed with
  | file regular tracked => exact ⟨_, List.mem_cons_self, [], by simp, by simp [fullPath]⟩
  | inside enters notPath listed ih =>
    obtain ⟨⟨hname, hslash, -⟩, -, hdir, -⟩ := wf
    obtain ⟨child, -, tail, -, hpath⟩ := ih (hdir enters.directory enters.notDots).2.2
    refine ⟨_, List.mem_cons_self, slash :: (child ++ tail), by simp, ?_⟩
    rw [hpath, pathPlusSlash_joinPath hname hslash]
    simp
  | rest listed ih =>
    obtain ⟨name, hmem, tail, htail, hpath⟩ := ih wf.2.2.2
    exact ⟨name, List.mem_cons_of_mem _ hmem, tail, htail, hpath⟩

lemma names_slashFree (wf : WellFormed realPath entries) :
    ∀ name ∈ names entries, slash ∉ name := by
  induction entries with
  | done => exact fun _ h => by cases h
  | entry name dType opening below rest ihBelow ihRest =>
    intro n hn
    rcases List.mem_cons.mp hn with rfl | hn
    · exact wf.1.2.1
    · exact ihRest wf.2.2.2 n hn

variable {dType : UInt8} {opening : Opening} {below rest : DirStream}

lemma wellFormed_alone (wf : WellFormed realPath (.entry name dType opening below rest)) :
    WellFormed realPath (.entry name dType opening below .done) :=
  ⟨⟨wf.1.1, wf.1.2.1, List.not_mem_nil⟩, wf.2.1, wf.2.2.1, trivial⟩

/-- A file of an entry has another path than the files of the entries behind it. -/
lemma listed_disjoint (wf : WellFormed realPath (.entry name dType opening below rest))
    {d f d' f' : Bytes}
    (first : Listed env realPath device (.entry name dType opening below .done) d f)
    (later : Listed env realPath device rest d' f') : fullPath (d, f) ≠ fullPath (d', f') := by
  obtain ⟨n, hn, tail, htail, hpath⟩ := listed_path (wellFormed_alone wf) first
  obtain ⟨n', hn', tail', htail', hpath'⟩ := listed_path wf.2.2.2 later
  intro heq
  have hjoin : n ++ tail = n' ++ tail' :=
    List.append_cancel_left (hpath.symm.trans (heq.trans hpath'))
  have hsame : n = n' := name_of_path (names_slashFree (wellFormed_alone wf) n hn)
    (names_slashFree wf.2.2.2 n' hn') htail htail' hjoin
  have hname : name = n' := (List.mem_singleton.mp hn).symm.trans hsame
  exact wf.1.2.2 (hname ▸ hn')

/-- No two found files have the same path. -/
theorem walk_paths_nodup (device : Device) (off : env.conf.pruneBindMounts = false)
    (wf : WellFormed realPath entries) (short : realPath.length < maxPathLen) :
    ((foundOf (events env realPath (some device) entries)).map fullPath).Nodup := by
  induction entries generalizing realPath device with
  | done => exact List.nodup_nil
  | entry name dType opening below rest ihBelow ihRest =>
    obtain ⟨hfree, hown⟩ := walk_lists device off (wellFormed_alone wf) short
    obtain ⟨-, hrest⟩ := walk_lists device off wf.2.2.2 short
    rw [events_entry, (continues_without_stop hfree _).2, List.map_append, List.nodup_append]
    refine ⟨?_, ihRest device wf.2.2.2 short, ?_⟩
    · rw [events, getDirPath_short short]
      rcases entryAction_wellFormed env device wf with
        ⟨-, -, haction⟩ | ⟨dev, henters, haction⟩ | ⟨-, -, haction⟩
      · rw [haction]
        exact List.nodup_singleton _
      · obtain ⟨-, hchild, hbelow⟩ := wf.2.2.1 henters.directory henters.notDots
        rw [haction]
        simp only [pruneCheck_off off, getDirPath_short hchild, events, List.append_nil, foundOf,
          foundOf_below]
        by_cases hpath : joinPath realPath name ∈ env.conf.prunepaths
        · simp only [if_pos hpath]
          exact List.nodup_nil
        · simp only [if_neg hpath]
          exact ihBelow dev hbelow hchild
      · rw [haction]
        exact List.nodup_nil
    · rintro path hpath path' hpath' rfl
      obtain ⟨⟨d, f⟩, hmem, heq⟩ := List.mem_map.mp hpath
      obtain ⟨⟨d', f'⟩, hmem', heq'⟩ := List.mem_map.mp hpath'
      exact listed_disjoint wf ((hown d f).mp hmem) ((hrest d' f').mp hmem')
        (heq.trans heq'.symm)

end Paths

section Cache

lemma storedFiles_cache (found : List (Bytes × Bytes)) (files : List FileInfo)
    {cache : StringCache} (valid : cache.Valid) :
    (storedFiles found (files, cache)).2.Valid ∧
      (storedFiles found (files, cache)).2.idToStr =
        (found.map Prod.fst).foldl addKey cache.idToStr := by
  induction found generalizing files cache with
  | nil => exact ⟨valid, rfl⟩
  | cons file rest ih =>
    obtain ⟨hvalid, hlist⟩ := ih (files ++ [⟨file.2, (cache.storeString file.1).2⟩])
      (StringCache.storeString_valid valid file.1)
    refine ⟨hvalid, ?_⟩
    rw [List.map_cons, List.foldl_cons, ← StringCache.storeString_idToStr valid]
    exact hlist

/-- While the numbers suffice, every stored file has its path. -/
lemma storedFiles_paths (found : List (Bytes × Bytes)) (files : List FileInfo)
    {cache : StringCache} (valid : cache.Valid)
    (small : (storedFiles found (files, cache)).2.idToStr.length ≤ 2 ^ 32) :
    ∃ stored, (storedFiles found (files, cache)).1 = files ++ stored ∧
      stored.map (getFileInfoFullPath (storedFiles found (files, cache)).2) =
        found.map fullPath := by
  induction found generalizing files cache with
  | nil => exact ⟨[], (List.append_nil _).symm, rfl⟩
  | cons file rest ih =>
    obtain ⟨directory, name⟩ := file
    have hvalid := StringCache.storeString_valid valid directory
    obtain ⟨i, hi, hid⟩ := StringCache.storeString_id valid directory
    rw [storedFiles_cons] at small ⊢
    obtain ⟨stored, hfiles, hpaths⟩ := ih _ hvalid small
    refine ⟨⟨name, (cache.storeString directory).2⟩ :: stored, ?_, ?_⟩
    · rw [hfiles, List.append_assoc]
      rfl
    · have hprefix := prefix_foldl_addKey (cache.storeString directory).1.idToStr
        (rest.map Prod.fst)
      rw [← (storedFiles_cache rest (files ++ [⟨name, (cache.storeString directory).2⟩]) hvalid).2]
        at hprefix
      obtain ⟨hposition, hstr⟩ := List.getElem?_eq_some_iff.mp hi
      have hfinal := (List.prefix_iff_getElem?.mp hprefix i hposition).trans (congrArg some hstr)
      have hlt : i < 2 ^ 32 := lt_of_lt_of_le (List.getElem?_eq_some_iff.mp hfinal).1 small
      have hnat : (cache.storeString directory).2.toNat = i := by
        rw [hid]
        exact UInt32.toNat_ofNat_of_lt' hlt
      have hstring := StringCache.getString_of_getElem? (hnat.symm ▸ hfinal)
      simp only [List.map_cons, hpaths, getFileInfoFullPath, fullPath, hstring]

end Cache

section Scan

/-- The paths of the found files. -/
def foundPaths (result : ScanOutcome × ScanState) : List Bytes :=
  result.2.foundFiles.map (getFileInfoFullPath result.2.cache)

/-- The scan returns true, and the listed files are the found ones, each once and by its path. -/
structure FindsExactly (env : ScanEnv) (root : Root) (device : Device)
    (result : ScanOutcome × ScanState) : Prop where
  returns : result.1 = .returned true (.text [])
  listed : ∀ path, path ∈ foundPaths result ↔
    ∃ directory file, ListedFile env root device directory file ∧ path = directory ++ file
  once : (foundPaths result).Nodup

variable {env : ScanEnv} {root : Root} {device : Device}

/-- The directories of the found files go through the cache with enough numbers. -/
lemma replay_paths {es : List Event} {dirs : List Bytes} (few : dirs.length ≤ 2 ^ 32)
    (covers : ∀ directory file, (directory, file) ∈ foundOf es → directory ∈ dirs)
    (dictBuilder : Option DictionaryBuilder) :
    foundPaths (replay es (.new dictBuilder)) = (foundOf es).map fullPath := by
  have hfiles := replay_files es (.new dictBuilder)
  have hcache := (storedFiles_cache (foundOf es) [] StringCache.new_valid).2
  have hmem : ∀ d ∈ (foundOf es).map Prod.fst, d ∈ dirs := by
    intro d hd
    obtain ⟨⟨directory, file⟩, hmem, rfl⟩ := List.mem_map.mp hd
    exact covers directory file hmem
  obtain ⟨stored, hstored, hpaths⟩ := storedFiles_paths (foundOf es) [] StringCache.new_valid
    (by rw [hcache]; exact (foldl_addKey_length_le hmem).trans few)
  have hfound : (replay es (.new dictBuilder)).2.foundFiles = stored :=
    (congrArg Prod.fst hfiles).trans hstored
  have hcached : (replay es (.new dictBuilder)).2.cache =
      (storedFiles (foundOf es) ([], StringCache.new)).2 := congrArg Prod.snd hfiles
  rw [foundPaths, hfound, hcached, hpaths]

/-- The scan of a well-formed root that is not pruned is a replay of the walk. -/
lemma scan_wellFormed (wf : WellFormedRoot root device) (off : env.conf.pruneBindMounts = false)
    (hroot : root.realPath ∉ env.conf.prunepaths) (st : ScanState) :
    scan env (.ok root) st =
      replay (events env root.realPath (some device) root.entries) st := by
  obtain ⟨hfree, -⟩ := walk_lists device off wf.entries wf.short
  have clear : pruneCheck env (getDirPath root.realPath) = .clear := by
    rw [getDirPath_short wf.short, pruneCheck_off off, if_neg hroot]
  have houtcome := replay_outcome (events env root.realPath (some device) root.entries) st
  rw [outcomeOf_free hfree] at houtcome
  rw [scan_events clear, wf.device]
  revert houtcome
  cases replay (events env root.realPath (some device) root.entries) st
  rintro ⟨⟩
  rfl

/-- The scan of a well-formed tree finds the listed files, as long as they lie in at most 2³²
directories. -/
theorem scan_finds_exactly (env : ScanEnv) (root : Root) (device : Device)
    (wf : WellFormedRoot root device) (off : env.conf.pruneBindMounts = false)
    (dirs : List Bytes) (few : dirs.length ≤ 2 ^ 32)
    (covers : ∀ directory file, ListedFile env root device directory file → directory ∈ dirs)
    (dictBuilder : Option DictionaryBuilder) :
    FindsExactly env root device (scan env (.ok root) (.new dictBuilder)) := by
  by_cases hroot : root.realPath ∈ env.conf.prunepaths
  · have hscan : scan env (.ok root) (.new dictBuilder) =
        (.returned true (.text []), .new dictBuilder) := by
      rw [scan, scanFs, pruneCheck_off off, getDirPath_short wf.short, if_pos hroot]
    rw [hscan]
    refine ⟨rfl, fun path => ?_, List.nodup_nil⟩
    refine iff_of_false List.not_mem_nil ?_
    rintro ⟨directory, file, ⟨hnot, -⟩, -⟩
    exact hnot hroot
  · obtain ⟨hfree, hlisted⟩ := walk_lists device off wf.entries wf.short
    have hpaths := replay_paths few
      (fun d f h => covers d f ⟨hroot, (hlisted d f).mp h⟩) dictBuilder
    rw [scan_wellFormed wf off hroot]
    refine ⟨?_, ?_, ?_⟩
    · rw [replay_outcome, outcomeOf_free hfree]
    · intro path
      rw [hpaths, List.mem_map]
      constructor
      · rintro ⟨⟨directory, file⟩, hmem, rfl⟩
        exact ⟨directory, file, ⟨hroot, (hlisted _ _).mp hmem⟩, rfl⟩
      · rintro ⟨directory, file, ⟨-, hfile⟩, rfl⟩
        exact ⟨(directory, file), (hlisted _ _).mpr hfile, rfl⟩
    · rw [hpaths]
      exact walk_paths_nodup device off wf.entries wf.short

end Scan

section Sample

def nothingPruned : ScanEnv := ⟨ConfigParser.new, fun _ => false, some []⟩

def libRoot : Root where
  realPath := text "/"
  device := some 1
  entries := .entry (text "lib") 4 (.opened (some 1))
    (.entry (text "libc.so.6") 8 .failed .done .done) .done

theorem scan_finds_exactly_sample :
    FindsExactly nothingPruned libRoot 1 (scan nothingPruned (.ok libRoot) (.new none)) := by
  apply scan_finds_exactly nothingPruned libRoot 1 _ rfl [text "/lib/"] (by decide) _ none
  · refine ⟨rfl, by decide, ⟨by decide, by decide, fun _ _ => ⟨⟨1, rfl⟩, by decide, ?_⟩, trivial⟩⟩
    exact ⟨by decide, by decide, fun h => absurd h (by decide), trivial⟩
  · rintro directory file ⟨-, listed⟩
    rcases (listed_entry_iff _ _).mp listed with ⟨h, -⟩ | ⟨dev, -, -, inside⟩ | rest
    · cases h
    · rcases (listed_entry_iff _ _).mp inside with ⟨-, -, rfl, -⟩ | ⟨_, h, -⟩ | rest
      · decide
      · cases h.directory
      · cases rest
    · cases rest

/-- A directory that holds one object file. -/
def oneObject : DirStream := .entry (text "a.o") 8 .failed .done .done

/-- Directories of these names that hold one object file each. -/
def wideEntries : List Bytes → DirStream
  | [] => .done
  | name :: rest => .entry name 4 (.opened (some 1)) oneObject (wideEntries rest)

/-- A number as a name of 33 letters. -/
def bitName (i : Nat) : Bytes := (List.range 33).map (fun k => if i.testBit k then 0x61 else 0x62)

def wideNames (n : Nat) : List Bytes := (List.range n).map bitName

def wideRoot (n : Nat) : Root := ⟨text "/", some 1, wideEntries (wideNames n)⟩

lemma names_wideEntries (ns : List Bytes) : names (wideEntries ns) = ns := by
  induction ns with
  | nil => rfl
  | cons name rest ih => rw [wideEntries, names, ih]

lemma bitName_slashFree (i : Nat) : slash ∉ bitName i := by
  intro h
  obtain ⟨k, -, hk⟩ := List.mem_map.mp h
  split at hk <;> exact absurd hk (by decide)

lemma bitName_length (i : Nat) : (bitName i).length = 33 := by
  rw [bitName, List.length_map, List.length_range]

lemma bitName_injective {i j : Nat} (hi : i < 2 ^ 33) (hj : j < 2 ^ 33)
    (h : bitName i = bitName j) : i = j := by
  apply Nat.eq_of_testBit_eq
  intro k
  rcases Nat.lt_or_ge k 33 with hk | hk
  · have hbit := congrArg (fun l => l[k]?) h
    simp only [bitName, List.getElem?_map, List.getElem?_range hk, Option.map_some,
      Option.some.injEq] at hbit
    cases hbi : i.testBit k <;> cases hbj : j.testBit k <;> simp [hbi, hbj] at hbit ⊢
  · have hpow : 2 ^ 33 ≤ 2 ^ k := Nat.pow_le_pow_right (by decide) hk
    rw [Nat.testBit_lt_two_pow (lt_of_lt_of_le hi hpow),
      Nat.testBit_lt_two_pow (lt_of_lt_of_le hj hpow)]

lemma wideNames_nodup {n : Nat} (hn : n ≤ 2 ^ 33) : (wideNames n).Nodup := by
  apply List.Nodup.map_on _ List.nodup_range
  intro i hi j hj h
  rw [List.mem_range] at hi hj
  exact bitName_injective (hi.trans_le hn) (hj.trans_le hn) h

lemma wideEntries_wellFormed {ns : List Bytes} (nodup : ns.Nodup)
    (plain : ∀ name ∈ ns, name.length = 33 ∧ slash ∉ name) :
    WellFormed (text "/") (wideEntries ns) := by
  induction ns with
  | nil => trivial
  | cons name rest ih =>
    obtain ⟨hnot, hnodup⟩ := List.nodup_cons.mp nodup
    obtain ⟨hlen, hslash⟩ := plain name List.mem_cons_self
    refine ⟨⟨?_, hslash, ?_⟩, by decide, fun _ _ => ⟨⟨1, rfl⟩, ?_, ?_⟩, ?_⟩
    · rintro rfl
      cases hlen
    · rwa [names_wideEntries]
    · rw [joinPath, List.length_append, hlen]
      decide
    · exact ⟨⟨by decide, by decide, by decide⟩, by decide, fun h => absurd h (by decide), trivial⟩
    · exact ih hnodup (fun n hn => plain n (List.mem_cons_of_mem _ hn))

lemma entryAction_wide {name : Bytes} (hlen : name.length = 33) :
    entryAction nothingPruned (text "/") (some 1) name 4 (.opened (some 1)) = .descend 1 := by
  have hdots : isDots name = false := by
    rw [isDots, Bool.or_eq_false_iff, beq_eq_false_iff_ne, beq_eq_false_iff_ne]
    constructor <;> rintro rfl <;> cases hlen
  have hname : name ≠ [] := by
    rintro rfl
    cases hlen
  rw [entryAction, hdots, if_neg Bool.false_ne_true, if_neg hname]
  rfl

/-- Every directory of the wide tree yields its object file. -/
lemma wide_found {ns : List Bytes} (plain : ∀ name ∈ ns, name.length = 33) :
    foundOf (events nothingPruned (text "/") (some 1) (wideEntries ns)) =
      ns.map (fun name => (pathPlusSlash (joinPath (text "/") name), text "a.o")) := by
  induction ns with
  | nil => rfl
  | cons name rest ih =>
    have hlen := plain name List.mem_cons_self
    have hshort : (joinPath (text "/") name).length < maxPathLen := by
      rw [joinPath, List.length_append, hlen]
      decide
    have hchild : events nothingPruned (joinPath (text "/") name) (some 1) oneObject =
        [.found (pathPlusSlash (joinPath (text "/") name)) (text "a.o")] := by
      rw [oneObject, events, getDirPath_short hshort]
      rfl
    have hroot : getDirPath (text "/") = text "/" := by decide
    rw [wideEntries, events, hroot, entryAction_wide hlen]
    simp only [@pruneCheck_off nothingPruned rfl, hchild]
    rw [if_neg (by exact List.not_mem_nil)]
    exact congrArg (List.cons _) (ih (fun n hn => plain n (List.mem_cons_of_mem _ hn)))

lemma storedFiles_names (found : List (Bytes × Bytes)) (files : List FileInfo)
    (cache : StringCache) :
    (storedFiles found (files, cache)).1.map FileInfo.name =
      files.map FileInfo.name ++ found.map Prod.snd := by
  induction found generalizing files cache with
  | nil => exact (List.append_nil _).symm
  | cons file rest ih =>
    obtain ⟨directory, name⟩ := file
    rw [storedFiles_cons, ih]
    simp

/-- There are 2³² numbers, so files of one name have at most that many paths. -/
lemma same_name_paths_le {files : List FileInfo} {cache : StringCache} {name : Bytes}
    (same : ∀ file ∈ files, file.name = name)
    (nodup : (files.map (getFileInfoFullPath cache)).Nodup) : files.length ≤ 2 ^ 32 := by
  have hfactor : files.map (getFileInfoFullPath cache) =
      (files.map FileInfo.pathId).map (fun id => cache.getString id ++ name) := by
    rw [List.map_map]
    apply List.map_congr_left
    intro file hfile
    rw [getFileInfoFullPath, same file hfile]
    rfl
  rw [hfactor] at nodup
  have hids : ((files.map FileInfo.pathId).map UInt32.toFin).Nodup :=
    (List.Nodup.of_map _ nodup).map (fun _ _ h => UInt32.toFin_inj.mp h)
  have hle := hids.length_le_card
  rw [List.length_map, List.length_map, Fintype.card_fin] at hle
  exact hle

/-- A replay that finds files of one name stores files of that name. -/
lemma replay_sameName {es : List Event} {ns : List Bytes} {directoryOf : Bytes → Bytes}
    {name : Bytes} (hfound : foundOf es = ns.map (fun n => (directoryOf n, name)))
    (dictBuilder : Option DictionaryBuilder) :
    (replay es (.new dictBuilder)).2.foundFiles.length = ns.length ∧
      ∀ file ∈ (replay es (.new dictBuilder)).2.foundFiles, file.name = name := by
  have hfiles : (replay es (.new dictBuilder)).2.foundFiles =
      (storedFiles (foundOf es) ([], StringCache.new)).1 :=
    congrArg Prod.fst (replay_files es (.new dictBuilder))
  rw [hfiles, hfound]
  constructor
  · rw [storedFiles_length, List.length_map, List.length_nil, Nat.zero_add]
  · intro file hfile
    have hmem := List.mem_map_of_mem (f := FileInfo.name) hfile
    rw [storedFiles_names, List.map_nil, List.nil_append, List.map_map] at hmem
    obtain ⟨n, -, hn⟩ := List.mem_map.mp hmem
    exact hn.symm

lemma wide_fails {n : Nat} (hn : n ≤ 2 ^ 33) (large : 2 ^ 32 < n) :
    WellFormedRoot (wideRoot n) 1 ∧
      ¬ FindsExactly nothingPruned (wideRoot n) 1
        (scan nothingPruned (.ok (wideRoot n)) (.new none)) := by
  have plain : ∀ name ∈ wideNames n, name.length = 33 ∧ slash ∉ name := by
    intro name hname
    obtain ⟨i, -, rfl⟩ := List.mem_map.mp hname
    exact ⟨bitName_length i, bitName_slashFree i⟩
  have wf := wideEntries_wellFormed (wideNames_nodup hn) plain
  have hshort : (text "/").length < maxPathLen := by decide
  have wfRoot : WellFormedRoot (wideRoot n) 1 := ⟨rfl, hshort, wf⟩
  refine ⟨wfRoot, fun finds => ?_⟩
  have honce := finds.once
  rw [scan_wellFormed wfRoot rfl List.not_mem_nil, foundPaths] at honce
  obtain ⟨hlength, hnames⟩ := replay_sameName
    (wide_found (fun name hname => (plain name hname).1)) none
  have hle := hlength ▸ same_name_paths_le hnames honce
  rw [wideNames, List.length_map, List.length_range] at hle
  exact absurd hle (Nat.not_le.mpr large)

/-- 2³² + 1 directories are too many: the last one shares its number with the first. -/
theorem too_many_directories :
    WellFormedRoot (wideRoot (2 ^ 32 + 1)) 1 ∧ nothingPruned.conf.pruneBindMounts = false ∧
      ¬ FindsExactly nothingPruned (wideRoot (2 ^ 32 + 1)) 1
        (scan nothingPruned (.ok (wideRoot (2 ^ 32 + 1))) (.new none)) := by
  obtain ⟨hwf, hfails⟩ := wide_fails (n := 2 ^ 32 + 1) (by decide) (by decide)
  exact ⟨hwf, rfl, hfails⟩

end Sample
end ScanSelection
