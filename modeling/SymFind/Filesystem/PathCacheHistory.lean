import SymFind.Filesystem.PathCache

/-!
# Histories of the path cache

A history is a list of strings stored one after the other in an empty cache. As
long as there are fewer of them than numbers, the list and the map stay inverse
to each other, and a number that was handed out keeps its string.
-/
namespace PathCacheHistory
open RecordCodec SymbolData InsertionMap PathCache StringCache

/-- A call of `store_string` and the number that it returned. -/
abbrev Call := Bytes × StringID

def storeAll : StringCache → List Bytes → StringCache × List Call
  | cache, [] => (cache, [])
  | cache, str :: rest =>
    let (cache, id) := cache.storeString str
    let (cache, calls) := storeAll cache rest
    (cache, (str, id) :: calls)

lemma storeAll_cons (cache : StringCache) (str : Bytes) (rest : List Bytes) :
    storeAll cache (str :: rest) = ((storeAll (cache.storeString str).1 rest).1,
      (str, (cache.storeString str).2) :: (storeAll (cache.storeString str).1 rest).2) := rfl

lemma storeAll_append (cache : StringCache) (before later : List Bytes) :
    storeAll cache (before ++ later) = ((storeAll (storeAll cache before).1 later).1,
      (storeAll cache before).2 ++ (storeAll (storeAll cache before).1 later).2) := by
  induction before generalizing cache with
  | nil => rfl
  | cons str rest ih =>
    rw [List.cons_append, storeAll_cons, ih]
    rfl

/-- The list has each string once, and the map is its inverse. -/
structure Bijective (cache : StringCache) : Prop where
  nodup : cache.idToStr.Nodup
  inverse : ∀ str id, cache.strToId.get str = some id ↔ cache.idToStr[id.toNat]? = some str

/-- What holds after every call: the map agrees with the list, which has each string once and has
room for the calls to come. -/
structure Ready (cache : StringCache) (calls : Nat) : Prop where
  valid : cache.Valid
  nodup : cache.idToStr.Nodup
  room : cache.idToStr.length + calls ≤ 2 ^ 32

/-- The call's number is the position of its string. -/
def Answers (cache : StringCache) (call : Call) : Prop :=
  cache.idToStr[call.2.toNat]? = some call.1

variable {cache : StringCache}

/-- A position in a list that is not too long is a number. -/
lemma position_id {calls : Nat} (ready : Ready cache calls) {i : Nat} {str : Bytes}
    (h : cache.idToStr[i]? = some str) : (UInt32.ofNat i).toNat = i := by
  have hlt := (List.getElem?_eq_some_iff.mp h).1
  have hroom := ready.room
  exact UInt32.toNat_ofNat_of_lt' (by simp only [UInt32.size]; omega)

lemma bijective_of_ready {calls : Nat} (ready : Ready cache calls) : Bijective cache where
  nodup := ready.nodup
  inverse := by
    intro str id
    constructor
    · intro hget
      have hmem : str ∈ cache.idToStr :=
        not_not.mp (fun h => by simp [(ready.valid.known str).mpr h] at hget)
      obtain ⟨i, hi⟩ := List.getElem?_of_mem hmem
      obtain rfl := Option.some.inj (hget.symm.trans (ready.valid.position i str hi))
      rwa [position_id ready hi]
    · intro hposition
      simpa using ready.valid.position id.toNat str hposition

lemma storeString_grows (valid : cache.Valid) (str : Bytes) :
    cache.idToStr <+: (cache.storeString str).1.idToStr := by
  rw [storeString_idToStr valid, addKey]
  split
  · exact List.prefix_refl _
  · exact List.prefix_append _ _

/-- One call keeps what holds before it, and its number is the position of its string. -/
lemma storeString_ready {calls : Nat} (ready : Ready cache (calls + 1)) (str : Bytes) :
    Ready (cache.storeString str).1 calls ∧
      Answers (cache.storeString str).1 (str, (cache.storeString str).2) := by
  have hlength : (cache.storeString str).1.idToStr.length ≤ cache.idToStr.length + 1 := by
    rw [storeString_idToStr ready.valid, addKey]
    split <;> simp
  have after : Ready (cache.storeString str).1 calls := by
    refine ⟨storeString_valid ready.valid str, ?_, ?_⟩
    · rw [storeString_idToStr ready.valid]
      exact addKey_nodup ready.nodup str
    · have hroom := ready.room
      omega
  obtain ⟨i, hi, hid⟩ := storeString_id ready.valid str
  refine ⟨after, ?_⟩
  rw [Answers, hid, position_id after hi, hi]

lemma answers_mono {later : StringCache} (grows : cache.idToStr <+: later.idToStr) {call : Call}
    (h : Answers cache call) : Answers later call := by
  obtain ⟨more, hmore⟩ := grows
  have hlt := (List.getElem?_eq_some_iff.mp h).1
  rw [Answers, ← hmore, List.getElem?_append_left hlt]
  exact h

/-- A history keeps what holds at its start, the list only grows, and the numbers returned are the
positions of their strings at the end. -/
lemma storeAll_ready {calls : Nat} {strs : List Bytes}
    (ready : Ready cache (strs.length + calls)) :
    Ready (storeAll cache strs).1 calls ∧
      cache.idToStr <+: (storeAll cache strs).1.idToStr ∧
      ∀ call ∈ (storeAll cache strs).2, Answers (storeAll cache strs).1 call := by
  induction strs generalizing cache with
  | nil => exact ⟨by simpa [storeAll] using ready, List.prefix_refl _, by simp [storeAll]⟩
  | cons str rest ih =>
    have hstart : Ready cache (rest.length + calls + 1) := by
      rw [List.length_cons] at ready
      rwa [show rest.length + calls + 1 = rest.length + 1 + calls by omega]
    obtain ⟨hready, hanswer⟩ := storeString_ready hstart str
    obtain ⟨hend, hgrows, hanswers⟩ := ih hready
    rw [storeAll_cons]
    refine ⟨hend, (storeString_grows ready.valid str).trans hgrows, ?_⟩
    intro call hcall
    rcases List.mem_cons.mp hcall with rfl | hcall
    · exact answers_mono hgrows hanswer
    · exact hanswers call hcall

lemma new_ready {calls : Nat} (few : calls ≤ 2 ^ 32) : Ready StringCache.new calls where
  valid := new_valid
  nodup := List.nodup_nil
  room := by simpa [StringCache.new] using few

/-- Storing a string of the list returns its number and changes nothing. -/
lemma storeString_known (bijective : Bijective cache) {call : Call} (h : Answers cache call) :
    cache.storeString call.1 = (cache, call.2) := by
  rw [storeString, (bijective.inverse call.1 call.2).mpr h]

/-- Two numbers are the positions of their strings in a list without repetition. -/
lemma answers_injective (bijective : Bijective cache) {call other : Call}
    (h : Answers cache call) (hother : Answers cache other) :
    call.2 = other.2 ↔ call.1 = other.1 := by
  constructor
  · intro hid
    rw [Answers, hid] at h
    exact Option.some.inj (h.symm.trans hother)
  · intro hstr
    have hget := (bijective.inverse call.1 call.2).mpr h
    rw [hstr, (bijective.inverse other.1 other.2).mpr hother] at hget
    exact (Option.some.inj hget).symm

/-- After every history the list and the map are inverse to each other, a string stored again gets
its number and changes nothing, a number returned at some time has the same string ever after, and
two calls return the same number exactly if their strings are the same. -/
theorem path_cache_bijective (strs : List Bytes) (few : strs.length < 2 ^ 32) :
    Bijective (storeAll StringCache.new strs).1 ∧
    (∀ call ∈ (storeAll StringCache.new strs).2, (storeAll StringCache.new strs).1.storeString
      call.1 = ((storeAll StringCache.new strs).1, call.2)) ∧
    (∀ before later, strs = before ++ later → ∀ call ∈ (storeAll StringCache.new before).2,
      (storeAll StringCache.new strs).1.getString call.2 = call.1) ∧
    ∀ call ∈ (storeAll StringCache.new strs).2, ∀ other ∈ (storeAll StringCache.new strs).2,
      call.2 = other.2 ↔ call.1 = other.1 := by
  have hstart : Ready StringCache.new (strs.length + 0) := new_ready (by omega)
  obtain ⟨hready, -, hanswers⟩ := storeAll_ready hstart
  have hbijective := bijective_of_ready hready
  refine ⟨hbijective, ?_, ?_, ?_⟩
  · exact fun call hcall => storeString_known hbijective (hanswers call hcall)
  · rintro before later rfl call hcall
    rw [storeAll_append] at hanswers ⊢
    exact getString_of_getElem? (hanswers call (List.mem_append_left _ hcall))
  · intro call hcall other hother
    exact answers_injective hbijective (hanswers call hcall) (hanswers other hother)

/-- A string stored twice has one number. -/
theorem path_cache_bijective_repeat :
    (storeAll StringCache.new [text "/a", text "/b", text "/a"]).2 =
        [(text "/a", 0), (text "/b", 1), (text "/a", 0)] ∧
      Bijective (storeAll StringCache.new [text "/a", text "/b", text "/a"]).1 :=
  ⟨by decide, (path_cache_bijective [text "/a", text "/b", text "/a"] (by decide)).1⟩

end PathCacheHistory
