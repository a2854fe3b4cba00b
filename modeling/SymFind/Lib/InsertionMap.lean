import Mathlib.Data.List.Induction
import Mathlib.Data.List.Nodup
import Mathlib.Data.List.Perm.Subperm
import Mathlib.Data.Option.Basic
import Mathlib.Tactic.Lemma

/-!
# Maps that remember the order of insertion

A map is the list of its entries in the order in which their keys first came,
with the proof that no key occurs twice. One operation suffices for building:
`upsert` changes the value of a present key in place and appends an absent one.
Recording a history of pairs under their keys, and merging such records, is
developed on top of it.
-/
namespace InsertionMap
universe u v
variable {K : Type u} {V : Type v} [DecidableEq K]

/-- Keys in the order of their first appearance. -/
def addKey (ks : List K) (k : K) : List K := if k ∈ ks then ks else ks ++ [k]

def upsertEntries : List (K × V) → K → V → (V → V) → List (K × V)
  | [], k, d, f => [(k, f d)]
  | (k', v) :: rest, k, d, f =>
    if k' = k then (k', f v) :: rest else (k', v) :: upsertEntries rest k d f

lemma upsertEntries_keys (es : List (K × V)) (k : K) (d : V) (f : V → V) :
    (upsertEntries es k d f).map Prod.fst = addKey (es.map Prod.fst) k := by
  induction es with
  | nil => simp [upsertEntries, addKey]
  | cons e rest ih =>
    obtain ⟨k', v⟩ := e
    by_cases h : k' = k
    · simp [upsertEntries, addKey, h]
    · have hne : k ≠ k' := fun he => h he.symm
      simp only [upsertEntries, if_neg h, List.map_cons, ih]
      by_cases hm : k ∈ rest.map Prod.fst
      · simp only [addKey, if_pos hm, List.mem_cons_of_mem k' hm, if_true]
      · have hm' : k ∉ k' :: rest.map Prod.fst := by simp [hne, hm]
        simp only [addKey, if_neg hm, if_neg hm', List.cons_append]

lemma addKey_nodup {ks : List K} (h : ks.Nodup) (k : K) : (addKey ks k).Nodup := by
  rw [addKey]
  split
  · exact h
  · rename_i hk
    exact List.nodup_append.mpr ⟨h, List.nodup_singleton k, by
      intro a ha b hb heq
      rw [List.mem_singleton.mp hb] at heq
      exact hk (heq ▸ ha)⟩

@[simp] lemma mem_addKey (ks : List K) (k x : K) : x ∈ addKey ks k ↔ x ∈ ks ∨ x = k := by
  rw [addKey]
  split
  · rename_i hk
    constructor
    · exact Or.inl
    · rintro (h | rfl)
      · exact h
      · exact hk
  · simp

/-- Entries in insertion order; a repeated key cannot be built. -/
structure Map (K : Type u) (V : Type v) where
  entries : List (K × V)
  nodup : (entries.map Prod.fst).Nodup

namespace Map

def empty : Map K V := ⟨[], List.nodup_nil⟩

def keys (m : Map K V) : List K := m.entries.map Prod.fst

def get (m : Map K V) (k : K) : Option V := m.entries.lookup k

def upsert (m : Map K V) (k : K) (d : V) (f : V → V) : Map K V where
  entries := upsertEntries m.entries k d f
  nodup := by
    rw [upsertEntries_keys]
    exact addKey_nodup m.nodup k

omit [DecidableEq K] in
lemma ext {m n : Map K V} (h : m.entries = n.entries) : m = n := by
  cases m; cases n; cases h; rfl

omit [DecidableEq K] in
lemma keys_nodup (m : Map K V) : m.keys.Nodup := m.nodup

omit [DecidableEq K] in
@[simp] lemma keys_empty : (empty : Map K V).keys = [] := rfl

@[simp] lemma get_empty (k : K) : (empty : Map K V).get k = none := rfl

@[simp] lemma keys_upsert (m : Map K V) (k : K) (d : V) (f : V → V) :
    (m.upsert k d f).keys = addKey m.keys k := upsertEntries_keys m.entries k d f

end Map

omit [DecidableEq K] in
/-- What is not among the keys is not found. -/
lemma lookup_eq_none_iff_keys [BEq K] [LawfulBEq K] (es : List (K × V)) (k : K) :
    es.lookup k = none ↔ k ∉ es.map Prod.fst := by
  simp only [List.lookup_eq_none_iff, List.mem_map, not_exists, not_and]
  constructor
  · intro h e he hk
    simpa [hk] using h e he
  · intro h e he
    simpa using fun hk => h e he (eq_comm.mp hk)

lemma lookup_upsertEntries (es : List (K × V)) (k x : K) (d : V) (f : V → V) :
    (upsertEntries es k d f).lookup x =
      if x = k then some (f ((es.lookup k).getD d)) else es.lookup x := by
  induction es with
  | nil =>
    by_cases h : x = k
    · simp [upsertEntries, h]
    · simp [upsertEntries, List.lookup_cons, beq_false_of_ne h, h]
  | cons e rest ih =>
    obtain ⟨k', v⟩ := e
    by_cases hk : k' = k
    · subst hk
      by_cases hx : x = k'
      · simp [upsertEntries, hx]
      · simp [upsertEntries, hx, List.lookup_cons, beq_false_of_ne hx]
    · have hk' : (k == k') = false := beq_false_of_ne (fun he => hk he.symm)
      simp only [upsertEntries, if_neg hk, List.lookup_cons, hk', ih]
      by_cases hx : x = k'
      · have hxk : x ≠ k := hx ▸ hk
        simp [hx, hk]
      · simp [beq_false_of_ne hx]

namespace Map

@[simp] lemma get_upsert (m : Map K V) (k x : K) (d : V) (f : V → V) :
    (m.upsert k d f).get x = if x = k then some (f ((m.get k).getD d)) else m.get x :=
  lookup_upsertEntries m.entries k x d f

lemma get_eq_none_iff (m : Map K V) (k : K) : m.get k = none ↔ k ∉ m.keys :=
  lookup_eq_none_iff_keys m.entries k

lemma get_isSome_iff (m : Map K V) (k : K) : (m.get k).isSome ↔ k ∈ m.keys := by
  rw [← not_iff_not, Bool.not_eq_true, Option.isSome_eq_false_iff, Option.isNone_iff_eq_none]
  exact m.get_eq_none_iff k

lemma mem_entries_iff (m : Map K V) (k : K) (v : V) :
    (k, v) ∈ m.entries ↔ m.get k = some v := by
  obtain ⟨es, hes⟩ := m
  simp only [get]
  induction es with
  | nil => simp
  | cons e rest ih =>
    obtain ⟨k', v'⟩ := e
    rw [List.map_cons, List.nodup_cons] at hes
    by_cases hk : k = k'
    · subst hk
      have hnot : (k, v) ∉ rest := fun h => hes.1 (List.mem_map.mpr ⟨_, h, rfl⟩)
      simp [hnot, eq_comm]
    · simp [List.lookup_cons, beq_false_of_ne hk, hk, ih hes.2]

/-- Insertion order and contents determine a map. -/
theorem ext_of_keys {m n : Map K V} (hkeys : m.keys = n.keys)
    (hget : ∀ k, m.get k = n.get k) : m = n := by
  apply Map.ext
  have entriesFrom : ∀ (p : Map K V), p.entries.map some =
      p.keys.map (fun k => (p.get k).map (fun v => (k, v))) := by
    intro p
    rw [keys, List.map_map]
    apply List.map_congr_left
    rintro ⟨k, v⟩ he
    simp [(p.mem_entries_iff k v).mp he]
  have same : m.entries.map some = n.entries.map some := by
    rw [entriesFrom m, entriesFrom n, hkeys]
    exact List.map_congr_left (fun k _ => by rw [hget k])
  exact List.map_injective_iff.mpr (Option.some_injective _) same

/-- The contents determine a map up to the order of its entries. -/
lemma perm_of_get {m n : Map K V} (hget : ∀ k, m.get k = n.get k) : m.entries.Perm n.entries := by
  apply (List.perm_ext_iff_of_nodup m.nodup.of_map n.nodup.of_map).mpr
  rintro ⟨k, v⟩
  rw [mem_entries_iff, mem_entries_iff, hget]

/-- Whatever the order of its entries, a map finds what is in it. -/
lemma get_of_perm {m n : Map K V} (perm : m.entries.Perm n.entries) (k : K) :
    m.get k = n.get k := by
  apply Option.ext
  intro v
  rw [← mem_entries_iff, ← mem_entries_iff, perm.mem_iff]

/-- The keys and what is found under them, or a default, are the contents. -/
lemma get_congr {m n : Map K V} {d : V} (hkeys : ∀ k, k ∈ m.keys ↔ k ∈ n.keys)
    (hgetD : ∀ k, (m.get k).getD d = (n.get k).getD d) (k : K) : m.get k = n.get k := by
  by_cases hk : k ∈ m.keys
  · obtain ⟨v, hv⟩ := Option.isSome_iff_exists.mp ((m.get_isSome_iff k).mpr hk)
    obtain ⟨v', hv'⟩ := Option.isSome_iff_exists.mp ((n.get_isSome_iff k).mpr ((hkeys k).mp hk))
    have hsame := hgetD k
    rw [hv, hv'] at hsame ⊢
    exact congrArg some hsame
  · rw [(m.get_eq_none_iff k).mpr hk, (n.get_eq_none_iff k).mpr (mt (hkeys k).mpr hk)]

/-- Only the old value of the key matters to an update. -/
lemma upsert_congr (m : Map K V) {k : K} {d : V} {f g : V → V}
    (h : f ((m.get k).getD d) = g ((m.get k).getD d)) : m.upsert k d f = m.upsert k d g := by
  apply ext_of_keys
  · rw [keys_upsert, keys_upsert]
  · intro x
    rw [get_upsert, get_upsert, h]

end Map

section Recording

/-- Append one value to the list kept under its key. -/
def push (m : Map K (List V)) (e : K × V) : Map K (List V) :=
  m.upsert e.1 [] (fun vs => vs ++ [e.2])

def pushAll (m : Map K (List V)) (es : List (K × V)) : Map K (List V) := es.foldl push m

def record (es : List (K × V)) : Map K (List V) := pushAll Map.empty es

/-- The values recorded under one key, in the order of the history. -/
def history (es : List (K × V)) (k : K) : List V :=
  (es.filter (fun e => e.1 = k)).map Prod.snd

@[simp] lemma history_nil (k : K) : history ([] : List (K × V)) k = [] := rfl

lemma history_cons (e : K × V) (es : List (K × V)) (k : K) :
    history (e :: es) k = (if e.1 = k then [e.2] else []) ++ history es k := by
  by_cases h : e.1 = k
  · simp [history, h]
  · simp [history, h]

lemma history_append (es fs : List (K × V)) (k : K) :
    history (es ++ fs) k = history es k ++ history fs k := by
  simp [history]

lemma history_eq_nil_iff (es : List (K × V)) (k : K) :
    history es k = [] ↔ k ∉ es.map Prod.fst := by
  simp only [history, List.map_eq_nil_iff, List.filter_eq_nil_iff, decide_eq_true_eq,
    List.mem_map, not_exists, not_and]

@[simp] lemma keys_pushAll (m : Map K (List V)) (es : List (K × V)) :
    (pushAll m es).keys = (es.map Prod.fst).foldl addKey m.keys := by
  induction es generalizing m with
  | nil => rfl
  | cons e rest ih =>
    change (pushAll (push m e) rest).keys = _
    rw [ih, push, Map.keys_upsert, List.map_cons, List.foldl_cons]

lemma mem_foldl_addKey (ks es : List K) (k : K) :
    k ∈ es.foldl addKey ks ↔ k ∈ ks ∨ k ∈ es := by
  induction es generalizing ks with
  | nil => simp
  | cons e rest ih => rw [List.foldl_cons, ih, mem_addKey, List.mem_cons, or_assoc]

lemma prefix_addKey (ks : List K) (k : K) : ks <+: addKey ks k := by
  rw [addKey]
  split
  · exact List.prefix_rfl
  · exact List.prefix_append ks [k]

lemma prefix_foldl_addKey (ks es : List K) : ks <+: es.foldl addKey ks := by
  induction es generalizing ks with
  | nil => exact List.prefix_rfl
  | cons e rest ih => exact (prefix_addKey ks e).trans (ih _)

lemma foldl_addKey_nodup {ks : List K} (h : ks.Nodup) (es : List K) :
    (es.foldl addKey ks).Nodup := by
  induction es generalizing ks with
  | nil => exact h
  | cons e rest ih => exact ih (addKey_nodup h e)

/-- No more keys are collected than a list that has them all is long. -/
lemma foldl_addKey_length_le {es bound : List K} (covers : ∀ e ∈ es, e ∈ bound) :
    (es.foldl addKey []).length ≤ bound.length := by
  apply List.Subperm.length_le
  apply (foldl_addKey_nodup List.nodup_nil es).subperm
  intro e he
  rcases (mem_foldl_addKey [] es e).mp he with h | h
  · cases h
  · exact covers e h

lemma mem_keys_record (es : List (K × V)) (k : K) :
    k ∈ (record es).keys ↔ k ∈ es.map Prod.fst := by
  rw [record, keys_pushAll, mem_foldl_addKey]
  simp

lemma getD_pushAll (m : Map K (List V)) (es : List (K × V)) (k : K) :
    ((pushAll m es).get k).getD [] = (m.get k).getD [] ++ history es k := by
  induction es generalizing m with
  | nil => simp [pushAll]
  | cons e rest ih =>
    change ((pushAll (push m e) rest).get k).getD [] = _
    rw [ih, push, Map.get_upsert, history_cons]
    by_cases h : k = e.1
    · simp [h]
    · have h' : e.1 ≠ k := fun he => h he.symm
      simp [h, h']

lemma getD_record (es : List (K × V)) (k : K) :
    ((record es).get k).getD [] = history es k := by
  simp [record, getD_pushAll]

/-- A record holds exactly the keys of the history, each with its whole history. -/
theorem get_record (es : List (K × V)) (k : K) :
    (record es).get k = if k ∈ es.map Prod.fst then some (history es k) else none := by
  have hd := getD_record es k
  split
  · rename_i hk
    have hs := ((record es).get_isSome_iff k).mpr ((mem_keys_record es k).mpr hk)
    obtain ⟨vs, hvs⟩ := Option.isSome_iff_exists.mp hs
    rw [hvs] at hd ⊢
    exact congrArg some hd
  · rename_i hk
    exact ((record es).get_eq_none_iff k).mpr (fun h => hk ((mem_keys_record es k).mp h))

lemma flatMap_of_key {β : Type*} {es : List (K × V)} (nodup : (es.map Prod.fst).Nodup) {k : K}
    {g : K × V → List β} (others : ∀ e ∈ es, e.1 ≠ k → g e = []) :
    es.flatMap g = match es.lookup k with
      | some v => g (k, v)
      | none => [] := by
  induction es with
  | nil => rfl
  | cons e rest ih =>
    obtain ⟨k', v⟩ := e
    rw [List.map_cons, List.nodup_cons] at nodup
    have hrest := ih nodup.2 (fun e he => others e (List.mem_cons_of_mem _ he))
    rw [List.flatMap_cons, hrest, List.lookup_cons]
    by_cases h : k = k'
    · subst h
      have habsent : rest.lookup k = none := (lookup_eq_none_iff_keys rest k).mpr nodup.1
      simp [habsent]
    · rw [others (k', v) List.mem_cons_self (fun he => h he.symm)]
      simp [beq_false_of_ne h]

/-- What is made of one key of a record is made of the history of that key. -/
lemma flatMap_record {β : Type*} (es : List (K × V)) {k : K} {g : K × List V → List β}
    (others : ∀ e ∈ (record es).entries, e.1 ≠ k → g e = []) (nothing : g (k, []) = []) :
    (record es).entries.flatMap g = g (k, history es k) := by
  have hget := get_record es k
  rw [Map.get] at hget
  rw [flatMap_of_key (record es).nodup others, hget]
  by_cases hk : k ∈ es.map Prod.fst
  · rw [if_pos hk]
  · rw [if_neg hk, (history_eq_nil_iff es k).mpr hk]
    exact nothing.symm

lemma history_pairs (es : List (K × V)) (k : K) :
    (history es k).map (fun v => (k, v)) = es.filter (fun e => e.1 = k) := by
  rw [history, List.map_map]
  have hid : ∀ e ∈ es.filter (fun e => e.1 = k), ((fun v => (k, v)) ∘ Prod.snd) e = e := by
    rintro ⟨k', v⟩ he
    have hk : k' = k := of_decide_eq_true (List.mem_filter.mp he).2
    exact congrArg (fun k => (k, v)) hk.symm
  rw [List.map_congr_left hid, List.map_id']

/-- Taking a record apart gives back the history, up to the order. -/
theorem flatMap_record_perm [DecidableEq V] (es : List (K × V)) :
    ((record es).entries.flatMap (fun e => e.2.map (fun v => (e.1, v)))).Perm es := by
  rw [List.perm_iff_count]
  rintro ⟨k, v⟩
  have hown : ((record es).entries.flatMap (fun e => e.2.map (fun v => (e.1, v)))).filter
      (fun e => e.1 = k) = es.filter (fun e => e.1 = k) := by
    rw [List.filter_flatMap, flatMap_record es (k := k)]
    · rw [history_pairs, List.filter_filter]
      simp
    · intro e _ hne
      simp [List.filter_map, hne]
    · rfl
  have hcount := congrArg (List.count (k, v)) hown
  rwa [List.count_filter (by simp), List.count_filter (by simp)] at hcount

/-- Append all of the second map's lists to the first map, in its insertion order. -/
def merge (m n : Map K (List V)) : Map K (List V) :=
  n.entries.foldl (fun m e => m.upsert e.1 [] (fun vs => vs ++ e.2)) m

lemma merge_keys_entries (m : Map K (List V)) (es : List (K × List V)) :
    (es.foldl (fun m e => m.upsert e.1 [] (fun vs => vs ++ e.2)) m).keys =
      (es.map Prod.fst).foldl addKey m.keys := by
  induction es generalizing m with
  | nil => rfl
  | cons e rest ih => rw [List.foldl_cons, ih, Map.keys_upsert, List.map_cons, List.foldl_cons]

lemma keys_merge (m n : Map K (List V)) :
    (merge m n).keys = n.keys.foldl addKey m.keys := merge_keys_entries m n.entries

lemma merge_getD_entries (m : Map K (List V)) (es : List (K × List V))
    (nodup : (es.map Prod.fst).Nodup) (k : K) :
    ((es.foldl (fun m e => m.upsert e.1 [] (fun vs => vs ++ e.2)) m).get k).getD [] =
      (m.get k).getD [] ++ (es.lookup k).getD [] := by
  induction es generalizing m with
  | nil => simp
  | cons e rest ih =>
    obtain ⟨k', vs⟩ := e
    rw [List.map_cons, List.nodup_cons] at nodup
    rw [List.foldl_cons, ih _ nodup.2, Map.get_upsert, List.lookup_cons]
    by_cases h : k = k'
    · subst h
      have habsent : rest.lookup k = none := (lookup_eq_none_iff_keys rest k).mpr nodup.1
      simp [habsent]
    · simp [h, beq_false_of_ne h]

lemma getD_merge (m n : Map K (List V)) (k : K) :
    ((merge m n).get k).getD [] = (m.get k).getD [] ++ (n.get k).getD [] :=
  merge_getD_entries m n.entries n.nodup k

lemma foldl_addKey_absorb (ks es : List K) :
    (es.foldl addKey []).foldl addKey ks = es.foldl addKey ks := by
  -- from the right: the last element of `es` is either already present or comes last
  induction es using List.reverseRecOn with
  | nil => rfl
  | append_singleton es e ih =>
    rw [List.foldl_append, List.foldl_append, List.foldl_cons, List.foldl_nil, List.foldl_cons,
      List.foldl_nil, ← ih]
    by_cases h : e ∈ es.foldl addKey []
    · have hmem : e ∈ (es.foldl addKey []).foldl addKey ks :=
        (mem_foldl_addKey ks _ e).mpr (Or.inr h)
      simp only [addKey, if_pos h, if_pos hmem]
    · rw [addKey, if_neg h, List.foldl_append, List.foldl_cons, List.foldl_nil]

lemma get_eq_of_getD {m n : Map K (List V)} (hkeys : m.keys = n.keys)
    (hget : ∀ k, (m.get k).getD [] = (n.get k).getD []) (k : K) : m.get k = n.get k := by
  have hmem : (m.get k).isSome ↔ (n.get k).isSome := by
    rw [m.get_isSome_iff, n.get_isSome_iff, hkeys]
  have hd := hget k
  cases hm : m.get k with
  | none =>
    cases hn : n.get k with
    | none => rfl
    | some w => simp [hm, hn] at hmem
  | some v =>
    cases hn : n.get k with
    | none => simp [hm, hn] at hmem
    | some w => simpa [hm, hn] using hd

/-- Merging the record of a second history continues the first record. -/
theorem merge_record (m : Map K (List V)) (es : List (K × V)) :
    merge m (record es) = pushAll m es := by
  have hkeys : (merge m (record es)).keys = (pushAll m es).keys := by
    rw [keys_merge, record, keys_pushAll, keys_pushAll, Map.keys_empty, foldl_addKey_absorb]
  refine Map.ext_of_keys hkeys (get_eq_of_getD hkeys (fun k => ?_))
  rw [getD_merge, getD_record, getD_pushAll]

/-- Merging the records of consecutive histories records their concatenation. -/
theorem foldl_merge_record (m : Map K (List V)) (hs : List (List (K × V))) :
    (hs.map record).foldl merge m = pushAll m hs.flatten := by
  induction hs generalizing m with
  | nil => rfl
  | cons h rest ih =>
    rw [List.map_cons, List.foldl_cons, merge_record, ih, List.flatten_cons, pushAll, pushAll,
      pushAll, List.foldl_append]

end Recording

section Counting

/-- Add one to the counter of every key of a list. -/
def tally (m : Map K UInt32) (ks : List K) : Map K UInt32 :=
  ks.foldl (fun m k => m.upsert k 0 (· + 1)) m

lemma tally_append (m : Map K UInt32) (ks more : List K) :
    tally m (ks ++ more) = tally (tally m ks) more := List.foldl_append

lemma getD_tally (m : Map K UInt32) (ks : List K) (k : K) :
    ((tally m ks).get k).getD 0 = (m.get k).getD 0 + UInt32.ofNat (ks.count k) := by
  induction ks generalizing m with
  | nil => simp [tally]
  | cons k' rest ih =>
    change ((tally (m.upsert k' 0 (· + 1)) rest).get k).getD 0 = _
    rw [ih, Map.get_upsert, List.count_cons]
    by_cases h : k = k'
    · subst h
      simp only [if_true, Option.getD_some, beq_self_eq_true, UInt32.ofNat_add]
      rw [UInt32.add_assoc, UInt32.add_comm 1]
      rfl
    · have h' : k' ≠ k := fun he => h he.symm
      simp [h, h']

lemma mem_keys_tally (m : Map K UInt32) (ks : List K) (k : K) :
    k ∈ (tally m ks).keys ↔ k ∈ m.keys ∨ k ∈ ks := by
  induction ks generalizing m with
  | nil => simp [tally]
  | cons k' rest ih =>
    change k ∈ (tally (m.upsert k' 0 (· + 1)) rest).keys ↔ _
    rw [ih, Map.keys_upsert, mem_addKey, List.mem_cons, or_assoc]

end Counting
end InsertionMap
