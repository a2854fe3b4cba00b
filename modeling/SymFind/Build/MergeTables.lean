import SymFind.Build.ParallelBuild

/-!
# Merging the tables and sampling their names

Each table's references go behind those that are there already. A name that the
merged table does not know yet is handed to the dictionary builder, until a
number of names that is counted over all calls. The counter has 64 bits.
-/
namespace MergeTables
open InsertionMap Machine SymbolData Compression DatabaseBlocks ParallelBuild

section Tables

lemma mem_keys_foldl_merge (symtables : List HashMap) (merged : HashMap) (name : SymbolName) :
    name ∈ (symtables.foldl merge merged).keys ↔
      name ∈ merged.keys ∨ ∃ symtable ∈ symtables, name ∈ symtable.keys := by
  induction symtables generalizing merged with
  | nil => simp
  | cons symtable rest ih =>
    simp [ih, keys_merge, mem_foldl_addKey, or_assoc]

lemma getD_foldl_merge (symtables : List HashMap) (merged : HashMap) (name : SymbolName) :
    ((symtables.foldl merge merged).get name).getD [] = (merged.get name).getD [] ++
      symtables.flatMap (fun symtable => (symtable.get name).getD []) := by
  induction symtables generalizing merged with
  | nil => simp
  | cons symtable rest ih =>
    simp [ih, getD_merge]

/-- What is merged does not depend on the order in which the tables are iterated. -/
lemma get_merged_iterated (tableOrder : IterationOrder (SymbolName × SymbolRefs))
    (symtables : List HashMap) (m : Merging) (name : SymbolName) :
    (mergeSymtables (symtables.map (iterated tableOrder)) m).mergedSymtable.get name =
      (mergeSymtables symtables m).mergedSymtable.get name := by
  rw [mergeSymtables_merged, mergeSymtables_merged]
  apply Map.get_congr (d := [])
  · intro name
    simp only [mem_keys_foldl_merge, List.mem_map, exists_exists_and_eq_and, mem_keys_iterated]
  · intro name
    simp only [getD_foldl_merge, List.flatMap_map, get_iterated]

end Tables

section Samples

/-- What a pass of the inner loop hands to `add_sample`. -/
def handedName (m : Merging) (sym : SymbolName × SymbolRefs) : List SymbolName :=
  match m.mergedSymtable.get sym.1, m.dictBuilder with
  | none, some _ => if (m.symbolNameSamples + 1).toNat ≤ maxSymbolNameSamples then [sym.1] else []
  | _, _ => []

/-- What passes over a list of entries hand over. -/
def handedFrom : Merging → List (SymbolName × SymbolRefs) → List SymbolName
  | _, [] => []
  | m, sym :: rest => handedName m sym ++ handedFrom (mergeSymbol m sym) rest

def handedNames (symtables : List HashMap) (m : Merging) : List SymbolName :=
  handedFrom m (symtables.flatMap Map.entries)

/-- The names that are not in the merged table yet, each once. -/
def newNames (symtables : List HashMap) (merged : HashMap) : List SymbolName :=
  ((symtables.flatMap Map.keys).filter (fun name => !merged.keys.contains name)).eraseDups

/-- How many names may still be handed over. -/
def samplesLeft (m : Merging) : Nat := maxSymbolNameSamples - m.symbolNameSamples.toNat

lemma mergeSymtables_entries (symtables : List HashMap) (m : Merging) :
    mergeSymtables symtables m = (symtables.flatMap Map.entries).foldl mergeSymbol m :=
  List.foldl_flatMap.symm

/-- A name that is there is not handed over, and nothing is counted. -/
lemma mergeSymbol_known {m : Merging} {sym : SymbolName × SymbolRefs}
    (known : sym.1 ∈ m.mergedSymtable.keys) :
    handedName m sym = [] ∧ (mergeSymbol m sym).dictBuilder = m.dictBuilder ∧
      (mergeSymbol m sym).symbolNameSamples = m.symbolNameSamples := by
  obtain ⟨refs, hrefs⟩ :=
    Option.isSome_iff_exists.mp ((m.mergedSymtable.get_isSome_iff sym.1).mpr known)
  simp [handedName, mergeSymbol, hrefs]

/-- A new name is counted, and handed over while the limit is not passed. -/
lemma mergeSymbol_new {m : Merging} {sym : SymbolName × SymbolRefs} {builder : DictionaryBuilder}
    (new : sym.1 ∉ m.mergedSymtable.keys) (hbuilder : m.dictBuilder = some builder)
    (room : m.symbolNameSamples.toNat + 1 < 2 ^ 64) :
    handedName m sym = [sym.1].take (samplesLeft m) ∧
      (mergeSymbol m sym).dictBuilder =
        some ((handedName m sym).foldl DictionaryBuilder.addSample builder) ∧
      (mergeSymbol m sym).symbolNameSamples.toNat = m.symbolNameSamples.toNat + 1 := by
  have hget : m.mergedSymtable.get sym.1 = none := (m.mergedSymtable.get_eq_none_iff sym.1).mpr new
  have hcount : (m.symbolNameSamples + 1).toNat = m.symbolNameSamples.toNat + 1 := by
    simp only [UInt64.toNat_add, UInt64.reduceToNat]
    omega
  simp only [handedName, mergeSymbol, Merging.addSample, hget, hbuilder, hcount, samplesLeft]
  by_cases hlimit : m.symbolNameSamples.toNat + 1 ≤ maxSymbolNameSamples
  · obtain ⟨left, hleft⟩ : ∃ left, maxSymbolNameSamples - m.symbolNameSamples.toNat = left + 1 :=
      ⟨maxSymbolNameSamples - m.symbolNameSamples.toNat - 1, by omega⟩
    simp [hlimit, hleft]
  · have hleft : maxSymbolNameSamples - m.symbolNameSamples.toNat = 0 := by omega
    simp [hlimit, hleft]

lemma mergeSymbol_keys (m : Merging) (sym : SymbolName × SymbolRefs) :
    (mergeSymbol m sym).mergedSymtable.keys = addKey m.mergedSymtable.keys sym.1 := by
  rw [mergeSymbol_merged, Map.keys_upsert]

lemma handedFrom_no_builder {m : Merging} (syms : List (SymbolName × SymbolRefs))
    (none : m.dictBuilder = none) :
    handedFrom m syms = [] ∧ (syms.foldl mergeSymbol m).dictBuilder = .none := by
  induction syms generalizing m with
  | nil => exact ⟨rfl, none⟩
  | cons sym rest ih =>
    have hstep : handedName m sym = [] ∧ (mergeSymbol m sym).dictBuilder = .none := by
      rw [handedName, mergeSymbol]
      cases m.mergedSymtable.get sym.1 <;> simp [Merging.addSample, none]
    obtain ⟨hhanded, hbuilder⟩ := ih hstep.2
    exact ⟨by rw [handedFrom, hstep.1, hhanded, List.nil_append], hbuilder⟩

/-- The first names of a list that are not known, each once. -/
def newOf (known names : List SymbolName) : List SymbolName :=
  (names.filter (fun name => !known.contains name)).eraseDups

lemma newOf_known {known names : List SymbolName} {name : SymbolName} (h : name ∈ known) :
    newOf known (name :: names) = newOf known names := by
  simp [newOf, h]

lemma newOf_new {known names : List SymbolName} {name : SymbolName} (h : name ∉ known) :
    newOf known (name :: names) = name :: newOf (known ++ [name]) names := by
  have hrest : (names.filter (fun other => !known.contains other)).filter
        (fun other => !other == name) =
      names.filter (fun other => !(known ++ [name]).contains other) := by
    rw [List.filter_filter]
    exact List.filter_congr (fun other _ => by simp [Bool.and_comm, beq_eq_decide])
  rw [newOf, newOf, List.filter_cons_of_pos (by simpa using h), List.eraseDups_cons, hrest]

/-- Over a list of entries the new names are handed over up to the limit, the builder has just
these, and all new names are counted. -/
lemma handedFrom_eq {m : Merging} {builder : DictionaryBuilder}
    (syms : List (SymbolName × SymbolRefs)) (hbuilder : m.dictBuilder = some builder)
    (room : m.symbolNameSamples.toNat +
      (newOf m.mergedSymtable.keys (syms.map Prod.fst)).length < 2 ^ 64) :
    handedFrom m syms =
        (newOf m.mergedSymtable.keys (syms.map Prod.fst)).take (samplesLeft m) ∧
      (syms.foldl mergeSymbol m).dictBuilder =
        some ((handedFrom m syms).foldl DictionaryBuilder.addSample builder) ∧
      (syms.foldl mergeSymbol m).symbolNameSamples.toNat = m.symbolNameSamples.toNat +
        (newOf m.mergedSymtable.keys (syms.map Prod.fst)).length := by
  induction syms generalizing m builder with
  | nil => simp [handedFrom, newOf, hbuilder]
  | cons sym rest ih =>
    have hkeys := mergeSymbol_keys m sym
    rw [List.map_cons] at room ⊢
    by_cases known : sym.1 ∈ m.mergedSymtable.keys
    · obtain ⟨hhanded, hsame, hcount⟩ := mergeSymbol_known known
      rw [addKey, if_pos known] at hkeys
      rw [newOf_known known] at room ⊢
      have hrest := ih (hsame.trans hbuilder) (by rwa [hkeys, hcount])
      rw [hkeys, hcount, samplesLeft, hcount] at hrest
      rw [handedFrom, hhanded, List.nil_append, List.foldl_cons]
      exact hrest
    · rw [addKey, if_neg known] at hkeys
      rw [newOf_new known, List.length_cons] at room
      obtain ⟨hhanded, hmore, hcount⟩ := mergeSymbol_new known hbuilder (by omega)
      obtain ⟨hrest, hend, htotal⟩ := ih hmore (by rw [hkeys, hcount]; omega)
      rw [hkeys] at hrest htotal
      rw [newOf_new known, handedFrom, List.foldl_cons, List.foldl_append]
      refine ⟨?_, hend, by rw [htotal, hcount, List.length_cons]; omega⟩
      rw [hhanded, hrest, samplesLeft, samplesLeft, hcount]
      cases hleft : maxSymbolNameSamples - m.symbolNameSamples.toNat with
      | zero => simp [show maxSymbolNameSamples - (m.symbolNameSamples.toNat + 1) = 0 by omega]
      | succ left =>
        simp [show maxSymbolNameSamples - (m.symbolNameSamples.toNat + 1) = left by omega]

/-- A call hands over the new names up to the limit, the builder has just these, and all new names
are counted. -/
lemma mergeSymtables_handed (symtables : List HashMap) {m : Merging} {builder : DictionaryBuilder}
    (hbuilder : m.dictBuilder = some builder)
    (room : m.symbolNameSamples.toNat + (newNames symtables m.mergedSymtable).length < 2 ^ 64) :
    handedNames symtables m = (newNames symtables m.mergedSymtable).take (samplesLeft m) ∧
      (mergeSymtables symtables m).dictBuilder =
        some ((handedNames symtables m).foldl DictionaryBuilder.addSample builder) ∧
      (mergeSymtables symtables m).symbolNameSamples.toNat =
        m.symbolNameSamples.toNat + (newNames symtables m.mergedSymtable).length := by
  have hnew : newNames symtables m.mergedSymtable =
      newOf m.mergedSymtable.keys ((symtables.flatMap Map.entries).map Prod.fst) := by
    rw [List.map_flatMap]
    rfl
  rw [hnew] at room ⊢
  rw [mergeSymtables_entries]
  exact handedFrom_eq _ hbuilder room

/-- Merging leaves the union of the names, each with what it had and then its references in the
tables in their order. The builder gets the new names in the order of their first appearance, up
to the limit over all calls; the counter does not come round before 2^64 names. -/
theorem merge_samples_once (symtables : List HashMap) (m : Merging) :
    (∀ name, name ∈ (mergeSymtables symtables m).mergedSymtable.keys ↔
      name ∈ m.mergedSymtable.keys ∨ ∃ symtable ∈ symtables, name ∈ symtable.keys) ∧
    (∀ name, ((mergeSymtables symtables m).mergedSymtable.get name).getD [] =
      (m.mergedSymtable.get name).getD [] ++
        symtables.flatMap (fun symtable => (symtable.get name).getD [])) ∧
    (∀ builder, m.dictBuilder = some builder →
      m.symbolNameSamples.toNat + (newNames symtables m.mergedSymtable).length < 2 ^ 64 →
      handedNames symtables m = (newNames symtables m.mergedSymtable).take (samplesLeft m) ∧
      (mergeSymtables symtables m).dictBuilder =
        some ((handedNames symtables m).foldl DictionaryBuilder.addSample builder) ∧
      (mergeSymtables symtables m).symbolNameSamples.toNat =
        m.symbolNameSamples.toNat + (newNames symtables m.mergedSymtable).length) ∧
    (m.dictBuilder = none → handedNames symtables m = []) := by
  refine ⟨?_, ?_, fun builder hbuilder room => mergeSymtables_handed symtables hbuilder room,
    fun none => (handedFrom_no_builder _ none).1⟩
  · intro name
    rw [mergeSymtables_merged, mem_keys_foldl_merge]
  · intro name
    rw [mergeSymtables_merged, getD_foldl_merge]

/-- Two tables that share a name, before the last sample that is taken. -/
def sharedTables : List HashMap :=
  [record [(text "free", ⟨0, ⟨true, .symtab, .func, .global, .default, 0⟩⟩)],
    record [(text "free", ⟨1, ⟨true, .symtab, .func, .weak, .default, 0⟩⟩),
      (text "main", ⟨1, ⟨true, .symtab, .func, .global, .default, 16⟩⟩)]]

def beforeLastSample : Merging := ⟨Map.empty, some .new, 99999⟩

theorem merge_samples_once_last :
    handedNames sharedTables beforeLastSample = [text "free"] ∧
      (mergeSymtables sharedTables beforeLastSample).dictBuilder =
        some ((handedNames sharedTables beforeLastSample).foldl DictionaryBuilder.addSample .new) :=
  ⟨by decide +kernel, ((merge_samples_once sharedTables beforeLastSample).2.2.1 .new rfl
    (by decide +kernel)).2.1⟩

end Samples

end MergeTables
