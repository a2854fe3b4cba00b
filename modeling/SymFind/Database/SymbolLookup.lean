import SymFind.Database.DatabaseRoundTrip

/-!
# Looking a name up in a stored database

Every trigram of the query is answered by its positions, so counting hits per
id selects the symbols that emit all of them. Each selected symbol is resolved
through the tables to its own name and references. A symbol is shown even when
the callback ignores all of its references.
-/
namespace SymbolLookup
open RecordCodec InsertionMap SortedUnique Machine SymbolData TrigramCodes DatabaseLayout
open TrigramTable TrigramCapacity TrigramExact PathCache Compression DatabaseBlocks Config
open DatabaseWriting WritePlan DatabaseReading DatabaseRoundTrip

section Counting

variable {codes : List TrigramCode} {idsOf : TrigramCode → List UInt32}

lemma countMatches_eq {r : DatabaseReader} {fuel : Nat} (counts : Map UInt32 UInt32)
    (answers : ∀ code ∈ codes, lookupIds fuel r.trigramSlotsBuf r.trigramPostingsBuf
      r.trigramCapacity code = .ok (idsOf code)) :
    r.countMatches fuel counts codes = .ok (tally counts (codes.flatMap idsOf)) := by
  induction codes generalizing counts with
  | nil => rfl
  | cons code rest ih =>
    rw [DatabaseReader.countMatches, answers code List.mem_cons_self, List.flatMap_cons,
      tally_append]
    exact ih _ (fun c hc => answers c (List.mem_cons_of_mem code hc))

/-- An id occurs once for every code that lists it. -/
lemma count_flatMap (nodup : ∀ code ∈ codes, (idsOf code).Nodup) (id : UInt32) :
    (codes.flatMap idsOf).count id = (codes.filter (fun code => id ∈ idsOf code)).length := by
  induction codes with
  | nil => rfl
  | cons code rest ih =>
    rw [List.flatMap_cons, List.count_append,
      ih (fun c hc => nodup c (List.mem_cons_of_mem code hc)),
      (nodup code List.mem_cons_self).count, List.filter_cons]
    by_cases h : id ∈ idsOf code
    · simp [h, Nat.add_comm]
    · simp [h]

lemma filterMap_if {α β : Type} (p : α → Prop) [DecidablePred p] (g : α → β) (l : List α) :
    l.filterMap (fun a => if p a then some (g a) else none) = (l.filter p).map g := by
  induction l with
  | nil => rfl
  | cons a rest ih =>
    by_cases h : p a
    · simp [h, ih]
    · simp [h, ih]

/-- The ids that step 2 of the search keeps. -/
def fullMatches (order : IterationOrder (UInt32 × UInt32)) (counts : Map UInt32 UInt32)
    (n : Nat) : List UInt32 :=
  (order.arrange counts.entries).filterMap
    (fun (symId, shared) => if shared.toNat = n then some symId else none)

lemma fullMatches_nodup (order : IterationOrder (UInt32 × UInt32)) (counts : Map UInt32 UInt32)
    (n : Nat) : (fullMatches order counts n).Nodup := by
  have hkeys : ((order.arrange counts.entries).map Prod.fst).Nodup :=
    ((order.perm _).map Prod.fst).nodup_iff.mpr counts.nodup
  have heq : fullMatches order counts n =
      ((order.arrange counts.entries).filter (fun e => e.2.toNat = n)).map Prod.fst :=
    filterMap_if (fun e : UInt32 × UInt32 => e.2.toNat = n) Prod.fst _
  rw [heq]
  exact hkeys.sublist (List.filter_sublist.map Prod.fst)

/-- The ids that occur a given number of times, counted in 32 bits. -/
lemma mem_fullMatches_tally (order : IterationOrder (UInt32 × UInt32)) (ids : List UInt32)
    (n : Nat) (id : UInt32) :
    id ∈ fullMatches order (tally Map.empty ids) n ↔
      id ∈ ids ∧ (UInt32.ofNat (ids.count id)).toNat = n := by
  have hgetD := getD_tally Map.empty ids id
  rw [Map.get_empty, Option.getD_none, UInt32.zero_add] at hgetD
  have hkeys := mem_keys_tally Map.empty ids id
  have hmem : id ∈ fullMatches order (tally Map.empty ids) n ↔
      ∃ shared, (tally Map.empty ids).get id = some shared ∧ shared.toNat = n := by
    simp only [fullMatches, List.mem_filterMap]
    constructor
    · rintro ⟨⟨symId, shared⟩, he, hsome⟩
      split at hsome
      · rename_i hfull
        cases hsome
        exact ⟨shared, (Map.mem_entries_iff _ _ _).mp ((order.perm _).mem_iff.mp he), hfull⟩
      · cases hsome
    · rintro ⟨shared, hget, hfull⟩
      exact ⟨(id, shared), (order.perm _).mem_iff.mpr ((Map.mem_entries_iff _ _ _).mpr hget),
        if_pos hfull⟩
  rw [hmem]
  cases hget : (tally Map.empty ids).get id with
  | some shared =>
    rw [hget, Option.getD_some] at hgetD
    have hlisted : id ∈ ids := by
      by_contra hno
      have hkey : id ∉ (tally Map.empty ids).keys := fun h =>
        (hkeys.mp h).elim (fun h => by cases h) hno
      rw [(Map.get_eq_none_iff _ _).mpr hkey] at hget
      cases hget
    constructor
    · rintro ⟨shared', hsome, hn⟩
      cases hsome
      exact ⟨hlisted, hgetD ▸ hn⟩
    · rintro ⟨_, hn⟩
      exact ⟨shared, rfl, hgetD ▸ hn⟩
  | none =>
    refine iff_of_false ?_ ?_
    · rintro ⟨_, h, _⟩
      cases h
    · rintro ⟨hlisted, _⟩
      exact (Map.get_eq_none_iff _ _).mp hget (hkeys.mpr (Or.inr hlisted))

/-- An id's counter reaches the number of codes if and only if every code lists the id. -/
theorem mem_fullMatches (order : IterationOrder (UInt32 × UInt32)) (some_code : codes ≠ [])
    (small : codes.length < 2 ^ 32) (nodup : ∀ code ∈ codes, (idsOf code).Nodup) (id : UInt32) :
    id ∈ fullMatches order (tally Map.empty (codes.flatMap idsOf)) codes.length ↔
      ∀ code ∈ codes, id ∈ idsOf code := by
  have hcount := count_flatMap nodup id
  have hle : (codes.filter (fun code => id ∈ idsOf code)).length ≤ codes.length :=
    List.length_filter_le _ _
  have hall : (codes.filter (fun code => id ∈ idsOf code)).length = codes.length ↔
      ∀ code ∈ codes, id ∈ idsOf code := by
    rw [List.length_filter_eq_length_iff]
    simp
  rw [mem_fullMatches_tally, hcount, UInt32.toNat_ofNat', Nat.mod_eq_of_lt (by omega), hall]
  constructor
  · exact And.right
  · intro hlisted
    -- some code lists the id, so the id has a counter
    obtain ⟨code, hcode⟩ := List.exists_mem_of_ne_nil codes some_code
    exact ⟨List.mem_flatMap.mpr ⟨code, hcode, hlisted code hcode⟩, hlisted⟩

end Counting

section Resolution

lemma collect_eq {α β : Type} {f : α → Reading (Option β)} {g : α → Option β} {l : List α}
    (h : ∀ a ∈ l, f a = .ok (g a)) : collect f l = .ok (l.filterMap g) := by
  induction l with
  | nil => rfl
  | cons a rest ih =>
    rw [collect, h a List.mem_cons_self, ih (fun b hb => h b (List.mem_cons_of_mem a hb))]
    cases hg : g a with
    | none => simp [hg, bind, Except.bind, pure, Except.pure]
    | some b => simp [hg, bind, Except.bind, pure, Except.pure]

/-- The directory of a path id as the reader shows it; nothing for an id without a path. -/
def shownDirectory (args : StoreArgs) (pathId : UInt32) : Bytes :=
  match args.pathList[pathId.toNat]? with
  | some pathName => directoryPrefix pathName
  | none => []

/-- A reference as the reader shows it; nothing without a file, or when it is ignored. -/
def shownReference (args : StoreArgs) (ignoreEntry : IgnoreEntryCallback) (name : Bytes)
    (ref : SymbolRef) : Option FileReference :=
  match args.foundFiles[ref.fileId.toNat]? with
  | none => none
  | some file =>
    if ignoreEntry name ref.metadata then none
    else some ⟨shownDirectory args file.pathId ++ file.name, ref.metadata⟩

def shownSymbol (args : StoreArgs) (ignoreEntry : IgnoreEntryCallback)
    (sym : SymbolName × SymbolRefs) : SymbolLookupResult where
  symbolName := sym.1
  references := sym.2.filterMap (shownReference args ignoreEntry sym.1)

lemma filterMap_range_getElem {α β : Type} (g : α → Option β) (l : List α) :
    (List.range l.length).filterMap (fun i => l[i]?.bind g) = l.filterMap g := by
  have heach : (List.range l.length).map (fun i => l[i]?) = l.map some := by
    apply List.ext_getElem
    · simp
    · intro i h _
      simp only [List.length_map, List.length_range] at h
      simp [h]
  have hsplit : (fun i : Nat => l[i]?.bind g) =
      (fun o : Option α => o.bind g) ∘ fun i : Nat => l[i]? := rfl
  rw [hsplit, ← List.filterMap_map, heach, List.filterMap_map]
  rfl

variable {z : Zstd} {order : IterationOrder (TrigramCode × List UInt32)} {args : StoreArgs}
  (built : BuiltTables) (t : TrigramTables) (fits : Fits z order args)
include fits

lemma directoryOf_stored (pathId : UInt32) :
    (storedReader z args built t).directoryOf pathId = .ok (shownDirectory args pathId) := by
  have hcount : (storedReader z args built t).pathsCount.toNat = args.pathList.length :=
    pathsCount_toNat fits
  by_cases h : pathId.toNat < args.pathList.length
  · obtain ⟨hentry, hname⟩ := path_entry built t fits h
    have hif : pathId < (storedReader z args built t).pathsCount := by
      rw [UInt32.lt_iff_toNat_lt, hcount]
      exact h
    rw [DatabaseReader.directoryOf, if_pos hif, shownDirectory, List.getElem?_eq_getElem h]
    simp only [recordAt, hentry, pathEntry, bytesAt, rangeAt_of_slice hname, bind, Except.bind]
    rfl
  · have hif : ¬ pathId < (storedReader z args built t).pathsCount := by
      rw [UInt32.lt_iff_toNat_lt, hcount]
      exact h
    rw [DatabaseReader.directoryOf, if_neg hif, shownDirectory,
      List.getElem?_eq_none (Nat.le_of_not_lt h)]
    rfl

lemma resolveRef_stored (ignoreEntry : IgnoreEntryCallback) (name refs : Bytes) {i : Nat}
    {ref : SymbolRef} (href : symbolRefCodec.entryAt refs i = some ref) :
    (storedReader z args built t).resolveRef ignoreEntry name refs i =
      .ok (shownReference args ignoreEntry name ref) := by
  have hcount : (storedReader z args built t).filesCount.toNat = args.foundFiles.length :=
    filesCount_toNat fits
  have hid := refFileId_of_entry href
  by_cases h : ref.fileId.toNat < args.foundFiles.length
  · obtain ⟨hentry, hname⟩ := file_entry built t fits h
    have hif : ¬ ref.fileId ≥ (storedReader z args built t).filesCount := by
      rw [ge_iff_le, UInt32.le_iff_toNat_le, hcount, Nat.not_le]
      exact h
    rw [shownReference, List.getElem?_eq_getElem h]
    simp only [DatabaseReader.resolveRef, hid, bind, Except.bind, if_neg hif, recordAt, href]
    by_cases hignore : ignoreEntry name ref.metadata = true
    · simp only [DatabaseReader.resolveReference, hignore, if_true]
      rfl
    · simp only [DatabaseReader.resolveReference, hignore, recordAt, hentry, fileEntry, bytesAt,
        rangeAt_of_slice hname, bind, Except.bind, directoryOf_stored built t fits]
      rfl
  · have hif : ref.fileId ≥ (storedReader z args built t).filesCount := by
      rw [ge_iff_le, UInt32.le_iff_toNat_le, hcount]
      exact Nat.le_of_not_lt h
    rw [shownReference, List.getElem?_eq_none (Nat.le_of_not_lt h)]
    simp only [DatabaseReader.resolveRef, hid, bind, Except.bind, if_pos hif]
    rfl

/-- A candidate is resolved to its own name and those of its references that are shown. -/
theorem resolveCandidate_stored (ignoreEntry : IgnoreEntryCallback) (symId : UInt32) :
    (storedReader z args built t).resolveCandidate ignoreEntry symId =
      .ok (args.symtable.entries[symId.toNat]?.map (shownSymbol args ignoreEntry)) := by
  have hcount : (storedReader z args built t).symbolsCount.toNat =
      args.symtable.entries.length := symbolsCount_toNat fits
  by_cases h : symId.toNat < args.symtable.entries.length
  · obtain ⟨entry, hentry, hname, hlength, hrefs⟩ := symbol_entry built t fits h
    have hif : ¬ symId ≥ (storedReader z args built t).symbolsCount := by
      rw [ge_iff_le, UInt32.le_iff_toNat_le, hcount, Nat.not_le]
      exact h
    rw [DatabaseReader.resolveCandidate, if_neg hif, List.getElem?_eq_getElem h, Option.map_some]
    generalize args.symtable.entries[symId.toNat] = sym at hname hlength hrefs ⊢
    obtain ⟨name, refs⟩ := sym
    have hloop : collect ((storedReader z args built t).resolveRef ignoreEntry name
        ((storedReader z args built t).symbolMetadataBuf.drop entry.metadataOffset.toNat))
        (List.range refs.length) =
        .ok (refs.filterMap (shownReference args ignoreEntry name)) := by
      rw [← filterMap_range_getElem]
      apply collect_eq
      intro i hi
      have hlt := List.mem_range.mp hi
      rw [List.getElem?_eq_getElem hlt]
      exact resolveRef_stored built t fits ignoreEntry name _ (hrefs i hlt)
    simp only [recordAt, hentry, bytesAt, rangeAt_of_slice hname, bind, Except.bind, hlength,
      hloop]
    rfl
  · have hif : symId ≥ (storedReader z args built t).symbolsCount := by
      rw [ge_iff_le, UInt32.le_iff_toNat_le, hcount]
      exact Nat.le_of_not_lt h
    rw [DatabaseReader.resolveCandidate, if_pos hif, List.getElem?_eq_none (Nat.le_of_not_lt h)]
    rfl

end Resolution

section Candidates

/-- The name emits every trigram of the query. -/
def EmitsAll (query name : Bytes) : Prop :=
  ∀ code ∈ forEachTrigram query, code ∈ forEachTrigram name

-- over the list, not over all numbers of 32 bits
instance (query name : Bytes) : Decidable (EmitsAll query name) := List.decidableBAll _ _

/-- The symbols whose names emit every trigram of the query. -/
def candidateSymbols (args : StoreArgs) (query : Bytes) : List (SymbolName × SymbolRefs) :=
  args.symtable.entries.filter (fun sym => EmitsAll query sym.1)

lemma mem_distinctTrigrams (word : Bytes) (code : TrigramCode) :
    code ∈ distinctTrigrams word ↔ code ∈ forEachTrigram word :=
  mem_sortUnique (forEachTrigram word) code

lemma distinctTrigrams_ne_nil {word : Bytes} (h : word ≠ []) : distinctTrigrams word ≠ [] := by
  obtain ⟨code, hcode⟩ := List.exists_mem_of_ne_nil _ (forEachTrigram_ne_nil h)
  exact List.ne_nil_of_mem ((mem_distinctTrigrams word code).mpr hcode)

/-- Codes have 24 bits, so a query cannot overflow a counter. -/
lemma distinctTrigrams_length_lt (word : Bytes) : (distinctTrigrams word).length < 2 ^ 32 := by
  have hnodup : ((distinctTrigrams word).map UInt32.toNat).Nodup :=
    (sortUnique_nodup _).map (fun _ _ => UInt32.toNat_inj.mp)
  have hsub : (distinctTrigrams word).map UInt32.toNat ⊆ List.range (2 ^ 24) := by
    intro n hn
    obtain ⟨code, hcode, rfl⟩ := List.mem_map.mp hn
    exact List.mem_range.mpr (forEachTrigram_lt ((mem_distinctTrigrams word code).mp hcode))
  have hle := (List.subperm_of_subset hnodup hsub).length_le
  rw [List.length_map, List.length_range] at hle
  omega

/-- The symbols at a list of ids. -/
def symbolsAt (args : StoreArgs) (ids : List UInt32) : List (SymbolName × SymbolRefs) :=
  ids.filterMap (fun symId => args.symtable.entries[symId.toNat]?)

/-- Distinct ids that select the candidates list each candidate once. -/
lemma symbolsAt_perm {args : StoreArgs} {ids : List UInt32} {query : Bytes}
    (small : args.symtable.entries.length < 2 ^ 32) (nodup : ids.Nodup)
    (selects : ∀ symId, symId ∈ ids ↔ ∃ sym, args.symtable.entries[symId.toNat]? = some sym ∧
      EmitsAll query sym.1) :
    (symbolsAt args ids).Perm (candidateSymbols args query) := by
  have hentries : args.symtable.entries.Nodup := args.symtable.nodup.of_map
  rw [List.perm_ext_iff_of_nodup]
  · intro sym
    rw [symbolsAt, List.mem_filterMap, candidateSymbols, List.mem_filter, decide_eq_true_eq]
    constructor
    · rintro ⟨symId, hid, hsym⟩
      obtain ⟨sym', hsym', hall⟩ := (selects symId).mp hid
      rw [hsym] at hsym'
      cases hsym'
      exact ⟨List.mem_of_getElem? hsym, hall⟩
    · rintro ⟨hsym, hall⟩
      obtain ⟨i, hi, rfl⟩ := List.getElem_of_mem hsym
      have hnat : (UInt32.ofNat i).toNat = i := toNat_of_lt (by omega)
      have hget : args.symtable.entries[(UInt32.ofNat i).toNat]? =
          some args.symtable.entries[i] := by
        rw [hnat, List.getElem?_eq_getElem hi]
      exact ⟨UInt32.ofNat i, (selects _).mpr ⟨_, hget, hall⟩, hget⟩
  · apply nodup.filterMap
    intro a b sym ha hb
    rw [Option.mem_def] at ha hb
    obtain ⟨hlt, _⟩ := List.getElem?_eq_some_iff.mp ha
    exact UInt32.toNat_inj.mp ((List.getElem?_inj hlt hentries).mp (ha.trans hb.symm))
  · exact hentries.filter _

/-- When each code lists the symbols that emit it, the full matches are the candidates. -/
lemma fullMatches_select (idOrder : IterationOrder (UInt32 × UInt32)) {args : StoreArgs}
    {query : Bytes} (nonempty : query ≠ []) {idsOf : TrigramCode → List UInt32}
    (lists : ∀ code symId, symId ∈ idsOf code ↔
      ∃ sym, args.symtable.entries[symId.toNat]? = some sym ∧ code ∈ forEachTrigram sym.1)
    (nodup : ∀ code, (idsOf code).Nodup) (symId : UInt32) :
    symId ∈ fullMatches idOrder (tally Map.empty ((distinctTrigrams query).flatMap idsOf))
        (distinctTrigrams query).length ↔
      ∃ sym, args.symtable.entries[symId.toNat]? = some sym ∧
        EmitsAll query sym.1 := by
  have hcodes := distinctTrigrams_ne_nil nonempty
  rw [mem_fullMatches idOrder hcodes (distinctTrigrams_length_lt query) (fun code _ => nodup code)]
  constructor
  · intro hall
    obtain ⟨code, hcode⟩ := List.exists_mem_of_ne_nil _ hcodes
    obtain ⟨sym, hsym, _⟩ := (lists code symId).mp (hall code hcode)
    refine ⟨sym, hsym, ?_⟩
    intro code' hcode'
    obtain ⟨sym', hsym', hemits⟩ :=
      (lists code' symId).mp (hall code' ((mem_distinctTrigrams query code').mpr hcode'))
    rw [hsym] at hsym'
    cases hsym'
    exact hemits
  · rintro ⟨sym, hsym, hall⟩ code hcode
    exact (lists code symId).mpr ⟨sym, hsym, hall code ((mem_distinctTrigrams query code).mp hcode)⟩

variable {z : Zstd} {order : IterationOrder (TrigramCode × List UInt32)} {args : StoreArgs}
  (built : BuiltTables) {t : TrigramTables}

/-- The stored index answers every code with the positions of the names that emit it. -/
lemma stored_postings (fits : Fits z order args)
    (ht : buildTrigramTables order args.symtable.keys = .ok t) {fuel : Nat}
    (enough : t.capacity.toNat ≤ fuel) :
    ∃ idsOf : TrigramCode → List UInt32,
      (∀ code, lookupIds fuel (storedReader z args built t).trigramSlotsBuf
        (storedReader z args built t).trigramPostingsBuf
        (storedReader z args built t).trigramCapacity code = .ok (idsOf code)) ∧
      (∀ code, (idsOf code).Nodup) ∧
      ∀ code symId, symId ∈ idsOf code ↔
        ∃ sym, args.symtable.entries[symId.toNat]? = some sym ∧
          code ∈ forEachTrigram sym.1 := by
  have answers : AnswersExactly fuel (storedReader z args built t).trigramSlotsBuf
      (storedReader z args built t).trigramPostingsBuf
      (storedReader z args built t).trigramCapacity args.symtable.keys :=
    built_answers args.symtable.nodup ht (fits.postings t ht) enough
  choose idsOf hlookup hsorted hpositions using answers
  refine ⟨idsOf, hlookup, fun code => strict_nodup (hsorted code), ?_⟩
  intro code symId
  have hiff := mem_emittingPositions args.symtable.keys code symId.toNat
  rw [← hpositions code, Map.keys, List.getElem?_map] at hiff
  have hinj : symId.toNat ∈ (idsOf code).map UInt32.toNat ↔ symId ∈ idsOf code :=
    List.mem_map_of_injective (fun _ _ => UInt32.toNat_inj.mp)
  rw [← hinj, hiff]
  simp

/-- Ids that select the candidates all have a symbol. -/
lemma symbolsAt_eq_nil_iff {ids : List UInt32} {query : Bytes}
    (selects : ∀ symId, symId ∈ ids ↔ ∃ sym, args.symtable.entries[symId.toNat]? = some sym ∧
      EmitsAll query sym.1) : symbolsAt args ids = [] ↔ ids = [] := by
  constructor
  · intro hnil
    rw [List.eq_nil_iff_forall_not_mem]
    intro symId hid
    obtain ⟨sym, hsym, _⟩ := (selects symId).mp hid
    rw [symbolsAt, List.filterMap_eq_nil_iff] at hnil
    rw [hnil symId hid] at hsym
    cases hsym
  · rintro rfl
    rfl

lemma symtable_small (fits : Fits z order args) : args.symtable.entries.length < 2 ^ 32 := by
  have hindex := fits.symbolIndex
  rw [Codec.encodeAll_length, symbolEntries, locate_length, symbolIndexCodec_width] at hindex
  omega

/-- A search in the stored tables resolves exactly the candidates, each once. -/
theorem find_stored (fits : Fits z order args)
    (ht : buildTrigramTables order args.symtable.keys = .ok t)
    (idOrder : IterationOrder (UInt32 × UInt32)) {fuel : Nat} (enough : t.capacity.toNat ≤ fuel)
    {query : Bytes} (nonempty : query ≠ []) (ignoreEntry : IgnoreEntryCallback) :
    ∃ syms, syms.Perm (candidateSymbols args query) ∧
      (storedReader z args built t).find idOrder fuel query ignoreEntry =
        if syms = [] then .error (.failed (.text (text "DatabaseReader: Symbol not found")))
        else .ok (syms.map (shownSymbol args ignoreEntry)) := by
  obtain ⟨idsOf, hlookup, hdistinct, hmem⟩ := stored_postings built fits ht enough
  have hcounts := countMatches_eq Map.empty
    (fun code (_ : code ∈ distinctTrigrams query) => hlookup code)
  have hcodes := distinctTrigrams_ne_nil nonempty
  obtain ⟨ids, hids⟩ : ∃ ids, ids = fullMatches idOrder
      (tally Map.empty ((distinctTrigrams query).flatMap idsOf)) (distinctTrigrams query).length :=
    ⟨_, rfl⟩
  have selects : ∀ symId, symId ∈ ids ↔ ∃ sym, args.symtable.entries[symId.toNat]? = some sym ∧
      EmitsAll query sym.1 := by
    rw [hids]
    exact fullMatches_select idOrder nonempty hmem hdistinct
  have hnodup : ids.Nodup := hids ▸ fullMatches_nodup _ _ _
  have hcollect : collect ((storedReader z args built t).resolveCandidate ignoreEntry) ids =
      .ok ((symbolsAt args ids).map (shownSymbol args ignoreEntry)) := by
    rw [collect_eq (fun symId _ => resolveCandidate_stored built t fits ignoreEntry symId),
      symbolsAt, List.map_filterMap]
  have hempty := symbolsAt_eq_nil_iff selects
  refine ⟨symbolsAt args ids, symbolsAt_perm (symtable_small fits) hnodup selects, ?_⟩
  rw [DatabaseReader.find, if_neg hcodes, hcounts]
  subst hids
  by_cases hnil : fullMatches idOrder (tally Map.empty ((distinctTrigrams query).flatMap idsOf))
      (distinctTrigrams query).length = []
  · rw [if_pos (hempty.mpr hnil)]
    exact if_pos hnil
  · rw [if_neg (mt hempty.mp hnil)]
    refine (if_neg hnil).trans ?_
    refine (congrArg (· >>= _) hcollect).trans (if_neg ?_)
    rw [List.map_eq_nil_iff]
    exact mt hempty.mp hnil

/-- A query on the file that a run left, in terms of what was handed to the run. The configuration
of the reading program does not matter. -/
theorem findSymbolReferences_stored (undoes : z.Undoes) (fits : Fits z order args)
    {opened : Except Nat Unit} {disk disk' : Disk}
    (returned : Writing.on (storeDb z order opened args) disk = (.ok (), disk'))
    (conf : ConfigParser) (idOrder : IterationOrder (UInt32 × UInt32)) {fuel : Nat}
    (enough : 2 ^ 25 ≤ fuel) {query : Bytes} (nonempty : query ≠ [])
    (ignoreEntry : IgnoreEntryCallback) :
    ∃ syms, syms.Perm (candidateSymbols args query) ∧
      findSymbolReferences z idOrder fuel conf (.ok disk'.file) query ignoreEntry =
        if syms = [] then .error (.failed (.text (text "DatabaseReader: Symbol not found")))
        else .ok (syms.map (shownSymbol args ignoreEntry)) := by
  obtain ⟨built, hbuilt, hfile⟩ := stored_image fits returned
  obtain ⟨k, t, _, hk, ht, hcap, _⟩ := build_filled order args.symtable.keys
  have hslots : t.capacity.toNat ≤ fuel := by
    rw [hcap, toNat_two_pow (by omega)]
    exact (Nat.pow_le_pow_right (by decide) hk).trans enough
  have hmapped : mappedFileOpen conf.databasePath (.ok disk'.file) =
      .ok (imageData z args built) := by
    rw [hfile]
    exact image_mapped built
  obtain ⟨syms, hperm, hfind⟩ := find_stored built fits ht idOrder hslots nonempty ignoreEntry
  refine ⟨syms, hperm, ?_⟩
  rw [← hfind]
  simp only [findSymbolReferences, hmapped, decompress_stored fits hbuilt undoes ht, bind,
    Except.bind]

end Candidates

section Completeness

/-- The results of a query as pairs of a name and a reference; no value counts as empty. -/
def flattened : Reading (List SymbolLookupResult) → Option (List (SymbolName × FileReference))
  | .ok results => some (results.flatMap (fun result =>
      result.references.map (fun ref => (result.symbolName, ref))))
  | .error (.failed _) => some []
  | .error (.crashed _) => none

/-- The directory of a file's path id, closed by a `/`, and the file's name. -/
def referencePath (args : StoreArgs) (ref : SymbolRef) : Bytes :=
  match args.foundFiles[ref.fileId.toNat]? with
  | some file => directoryPrefix (args.pathList.getD file.pathId.toNat []) ++ file.name
  | none => []

/-- What a query owes for one candidate. -/
def keptReferences (args : StoreArgs) (ignoreEntry : IgnoreEntryCallback)
    (sym : SymbolName × SymbolRefs) : List (SymbolName × FileReference) :=
  (sym.2.filter (fun ref => ! ignoreEntry sym.1 ref.metadata)).map
    (fun ref => (sym.1, ⟨referencePath args ref, ref.metadata⟩))

/-- Path ids index the paths and file ids the files. -/
structure IdsInRange (args : StoreArgs) : Prop where
  paths : ∀ file ∈ args.foundFiles, file.pathId.toNat < args.pathList.length
  files : ∀ sym ∈ args.symtable.entries, ∀ ref ∈ sym.2,
    ref.fileId.toNat < args.foundFiles.length

variable {z : Zstd} {order : IterationOrder (TrigramCode × List UInt32)} {args : StoreArgs}

lemma shownReference_of_inRange {ref : SymbolRef}
    (inRange : ref.fileId.toNat < args.foundFiles.length) (ignoreEntry : IgnoreEntryCallback)
    (name : Bytes) :
    shownReference args ignoreEntry name ref =
      if ignoreEntry name ref.metadata then none
      else some ⟨referencePath args ref, ref.metadata⟩ := by
  rw [shownReference, referencePath, List.getElem?_eq_getElem inRange]
  simp only [shownDirectory, List.getD_eq_getElem?_getD]
  cases args.pathList[args.foundFiles[ref.fileId.toNat].pathId.toNat]? with
  | some pathName => rfl
  | none => rfl

/-- In range, the references that are shown are those that the callback keeps. -/
lemma shownSymbol_references {sym : SymbolName × SymbolRefs}
    (inRange : ∀ ref ∈ sym.2, ref.fileId.toNat < args.foundFiles.length)
    (ignoreEntry : IgnoreEntryCallback) :
    (shownSymbol args ignoreEntry sym).references.map (fun ref => (sym.1, ref)) =
      keptReferences args ignoreEntry sym := by
  obtain ⟨name, refs⟩ := sym
  rw [shownSymbol, keptReferences]
  induction refs with
  | nil => rfl
  | cons ref rest ih =>
    have hrest := ih (fun r hr => inRange r (List.mem_cons_of_mem ref hr))
    rw [List.filterMap_cons, shownReference_of_inRange (inRange ref List.mem_cons_self),
      List.filter_cons]
    cases ignoreEntry name ref.metadata with
    | true => exact hrest
    | false => exact congrArg (_ :: ·) hrest

/-- An outcome of a query, flattened. -/
lemma flattened_shown {syms : List (SymbolName × SymbolRefs)}
    (inRange : ∀ sym ∈ syms, ∀ ref ∈ sym.2, ref.fileId.toNat < args.foundFiles.length)
    (ignoreEntry : IgnoreEntryCallback) :
    flattened (if syms = [] then
        .error (.failed (.text (text "DatabaseReader: Symbol not found")))
      else .ok (syms.map (shownSymbol args ignoreEntry))) =
      some (syms.flatMap (keptReferences args ignoreEntry)) := by
  by_cases hnil : syms = []
  · rw [if_pos hnil, hnil]
    rfl
  · rw [if_neg hnil, flattened, List.flatMap_map]
    apply congrArg some
    apply List.flatMap_congr
    intro sym hsym
    exact shownSymbol_references (inRange sym hsym) ignoreEntry

/-- A query gives every kept reference of every candidate, once and in stored order. -/
theorem lookup_complete (z : Zstd) (undoes : z.Undoes)
    (order : IterationOrder (TrigramCode × List UInt32)) (args : StoreArgs)
    (fits : Fits z order args) (inRange : IdsInRange args) (opened : Except Nat Unit)
    (disk disk' : Disk)
    (returned : Writing.on (storeDb z order opened args) disk = (.ok (), disk'))
    (idOrder : IterationOrder (UInt32 × UInt32)) (fuel : Nat) (enough : 2 ^ 25 ≤ fuel)
    (query : Bytes) (nonempty : query ≠ []) (ignoreEntry : IgnoreEntryCallback) :
    ∃ syms : List (SymbolName × SymbolRefs), syms.Perm (candidateSymbols args query) ∧
      flattened (findSymbolReferences z idOrder fuel args.conf (.ok disk'.file) query
        ignoreEntry) = some (syms.flatMap (keptReferences args ignoreEntry)) := by
  obtain ⟨syms, hperm, hfind⟩ :=
    findSymbolReferences_stored undoes fits returned _ idOrder enough nonempty ignoreEntry
  refine ⟨syms, hperm, ?_⟩
  rw [hfind]
  exact flattened_shown (fun sym hsym =>
    inRange.files sym (List.mem_of_mem_filter (hperm.mem_iff.mp hsym))) ignoreEntry

/-- The filter with which the program reads a database. -/
def readDbFilter (query : Bytes) : IgnoreEntryCallback := fun name metadata =>
  ! databaseReaderEntryShouldBeStored name metadata .onlyDefined (defaultStringComparator query)

lemma sample_inRange : IdsInRange sampleArgs := by
  constructor
  · decide +kernel
  · decide +kernel

/-- Both spellings of `memcpy` are candidates; the callback drops one weak reference. -/
theorem lookup_complete_sample :
    ∃ (disk' : Disk) (syms : List (SymbolName × SymbolRefs)),
      Writing.on (storeDb Zstd.stored (IterationOrder.insertion _) (.ok ()) sampleArgs)
        sampleDisk = (.ok (), disk') ∧
      syms.Perm (candidateSymbols sampleArgs (text "memcpy")) ∧
      flattened (findSymbolReferences Zstd.stored (IterationOrder.insertion _) (2 ^ 25)
        sampleArgs.conf (.ok disk'.file) (text "memcpy") (fun _ metadata =>
          decide (metadata.bind = .weak))) =
        some (syms.flatMap (keptReferences sampleArgs (fun _ metadata =>
          decide (metadata.bind = .weak)))) := by
  obtain ⟨disk', hrun⟩ := sample_returned
  obtain ⟨syms, hperm, hfound⟩ := lookup_complete Zstd.stored Zstd.stored_undoes
    (IterationOrder.insertion _) sampleArgs sample_fits sample_inRange (.ok ()) sampleDisk disk'
    hrun (IterationOrder.insertion _) (2 ^ 25) (Nat.le_refl _) (text "memcpy") (by decide) _
  exact ⟨disk', syms, hrun, hperm, hfound⟩

end Completeness

section Emptiness

/-- A value comes exactly with a kept reference, no result in it is bare, and
otherwise the message says that the symbol was not found. -/
structure ShowsSomething (args : StoreArgs) (query : Bytes) (ignoreEntry : IgnoreEntryCallback)
    (outcome : Reading (List SymbolLookupResult)) : Prop where
  value : (∃ results, outcome = .ok results) ↔
    ∃ sym ∈ candidateSymbols args query, ∃ ref ∈ sym.2, ignoreEntry sym.1 ref.metadata = false
  nonempty : ∀ results, outcome = .ok results → ∀ result ∈ results, result.references ≠ []
  message : (¬ ∃ results, outcome = .ok results) → ∃ errMsg,
    outcome = .error (.failed (.text errMsg)) ∧
      text "DatabaseReader: Symbol not found" <+: errMsg

variable {z : Zstd} {order : IterationOrder (TrigramCode × List UInt32)} {args : StoreArgs}

lemma shownSymbol_bare_iff {sym : SymbolName × SymbolRefs}
    (inRange : ∀ ref ∈ sym.2, ref.fileId.toNat < args.foundFiles.length)
    (ignoreEntry : IgnoreEntryCallback) :
    (shownSymbol args ignoreEntry sym).references ≠ [] ↔
      ∃ ref ∈ sym.2, ignoreEntry sym.1 ref.metadata = false := by
  have hsame := congrArg List.length (shownSymbol_references inRange ignoreEntry)
  rw [keptReferences, List.length_map, List.length_map] at hsame
  rw [← List.length_pos_iff, hsame, List.length_pos_iff, ne_eq, List.filter_eq_nil_iff]
  simp

/-- A lookup has something to show in every result if and only if every candidate has: the
candidates of other spellings are listed even when the filter drops all they have. -/
theorem lookup_shows_iff (z : Zstd) (undoes : z.Undoes)
    (order : IterationOrder (TrigramCode × List UInt32)) (args : StoreArgs)
    (fits : Fits z order args) (inRange : IdsInRange args) (opened : Except Nat Unit)
    (disk disk' : Disk)
    (returned : Writing.on (storeDb z order opened args) disk = (.ok (), disk'))
    (idOrder : IterationOrder (UInt32 × UInt32)) (fuel : Nat) (enough : 2 ^ 25 ≤ fuel)
    (query : Bytes) (nonempty : query ≠ []) (ignoreEntry : IgnoreEntryCallback) :
    ShowsSomething args query ignoreEntry (findSymbolReferences z idOrder fuel args.conf
        (.ok disk'.file) query ignoreEntry) ↔
      ∀ sym ∈ candidateSymbols args query, ∃ ref ∈ sym.2,
        ignoreEntry sym.1 ref.metadata = false := by
  obtain ⟨syms, hperm, hfind⟩ :=
    findSymbolReferences_stored undoes fits returned _ idOrder enough nonempty ignoreEntry
  have hbare : ∀ sym ∈ candidateSymbols args query,
      ((shownSymbol args ignoreEntry sym).references ≠ [] ↔
        ∃ ref ∈ sym.2, ignoreEntry sym.1 ref.metadata = false) :=
    fun sym hsym => shownSymbol_bare_iff (inRange.files sym (List.mem_of_mem_filter hsym)) _
  rw [hfind]
  by_cases hnil : syms = []
  · have hnone : candidateSymbols args query = [] := by
      rw [hnil] at hperm
      exact hperm.nil_eq.symm
    rw [if_pos hnil, hnone]
    constructor
    · intro _ sym hsym
      cases hsym
    · intro _
      constructor
      · simp [hnone]
      · intro results h
        cases h
      · intro _
        exact ⟨_, rfl, List.prefix_refl _⟩
  · rw [if_neg hnil]
    constructor
    · intro shows sym hsym
      exact (hbare sym hsym).mp (shows.nonempty _ rfl _
        (List.mem_map_of_mem (hperm.mem_iff.mpr hsym)))
    · intro hall
      obtain ⟨sym, hsym⟩ := List.exists_mem_of_ne_nil _ hnil
      have hcand := hperm.mem_iff.mp hsym
      constructor
      · exact ⟨fun _ => ⟨sym, hcand, hall sym hcand⟩, fun _ => ⟨_, rfl⟩⟩
      · intro results h result hresult
        cases h
        obtain ⟨sym', hsym', rfl⟩ := List.mem_map.mp hresult
        have hcand' := hperm.mem_iff.mp hsym'
        exact (hbare sym' hcand').mpr (hall sym' hcand')
      · intro hno
        exact absurd ⟨_, rfl⟩ hno

/-- The only candidate of `main` is itself, and it is defined. -/
theorem lookup_shows_iff_sample :
    ∃ disk', Writing.on (storeDb Zstd.stored (IterationOrder.insertion _) (.ok ()) sampleArgs)
        sampleDisk = (.ok (), disk') ∧
      ShowsSomething sampleArgs (text "main") (readDbFilter (text "main"))
        (findSymbolReferences Zstd.stored (IterationOrder.insertion _) (2 ^ 25)
          sampleArgs.conf (.ok disk'.file) (text "main") (readDbFilter (text "main"))) := by
  obtain ⟨disk', hrun⟩ := sample_returned
  refine ⟨disk', hrun, (lookup_shows_iff Zstd.stored Zstd.stored_undoes
    (IterationOrder.insertion _) sampleArgs sample_fits sample_inRange (.ok ()) sampleDisk disk'
    hrun (IterationOrder.insertion _) (2 ^ 25) (Nat.le_refl _) (text "main") (by decide) _).mpr ?_⟩
  decide +kernel

/-- Looking up `Memcpy`, which no file has, returns `memcpy` and `MEMCPY` without a reference. -/
theorem bare_results_shown :
    ∃ disk', Writing.on (storeDb Zstd.stored (IterationOrder.insertion _) (.ok ()) sampleArgs)
        sampleDisk = (.ok (), disk') ∧
      ¬ ShowsSomething sampleArgs (text "Memcpy") (readDbFilter (text "Memcpy"))
        (findSymbolReferences Zstd.stored (IterationOrder.insertion _) (2 ^ 25)
          sampleArgs.conf (.ok disk'.file) (text "Memcpy") (readDbFilter (text "Memcpy"))) := by
  obtain ⟨disk', hrun⟩ := sample_returned
  obtain ⟨syms, hperm, hfind⟩ := findSymbolReferences_stored Zstd.stored_undoes sample_fits hrun
    _ (IterationOrder.insertion _) (Nat.le_refl _)
    (show text "Memcpy" ≠ [] by decide)
    (readDbFilter (text "Memcpy"))
  have hcount : (candidateSymbols sampleArgs (text "Memcpy")).length = 2 := by decide +kernel
  have hnil : syms ≠ [] := by
    rintro rfl
    rw [← hperm.length_eq] at hcount
    cases hcount
  have hnone : ¬ ∃ sym ∈ candidateSymbols sampleArgs (text "Memcpy"), ∃ ref ∈ sym.2,
      readDbFilter (text "Memcpy") sym.1 ref.metadata = false := by decide +kernel
  refine ⟨disk', hrun, ?_⟩
  rw [hfind, if_neg hnil]
  intro shows
  exact hnone (shows.value.mp ⟨_, rfl⟩)

end Emptiness
end SymbolLookup
