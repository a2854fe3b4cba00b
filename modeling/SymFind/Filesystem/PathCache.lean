import SymFind.Core.SymbolData
import SymFind.Lib.InsertionMap

/-!
# The interning cache of directory paths

`StringCache` gives each string the position at which it was first stored, as a
32-bit number. A found file carries its own name and the number of its
directory path.
-/
namespace PathCache
open RecordCodec InsertionMap

abbrev StringID := UInt32

structure StringCache where
  strToId : Map Bytes StringID
  idToStr : List Bytes

namespace StringCache

def new : StringCache := ⟨Map.empty, []⟩

def storeString (cache : StringCache) (str : Bytes) : StringCache × StringID :=
  match cache.strToId.get str with
  | none =>
    let idToStr := cache.idToStr ++ [str]
    let id := UInt32.ofNat (idToStr.length - 1)
    (⟨cache.strToId.upsert str id (fun _ => id), idToStr⟩, id)
  | some id => (cache, id)

def getString (cache : StringCache) (id : StringID) : Bytes :=
  if id.toNat ≥ cache.idToStr.length then []
  else match cache.idToStr[id.toNat]? with
    | some str => str
    | none => []

lemma getString_of_getElem? {cache : StringCache} {id : StringID} {str : Bytes}
    (h : cache.idToStr[id.toNat]? = some str) : cache.getString id = str := by
  have hlt := (List.getElem?_eq_some_iff.mp h).1
  rw [getString, if_neg (by omega), h]

/-- The map knows the strings of the list, and a string's number is its position, cut to 32 bits. -/
structure Valid (cache : StringCache) : Prop where
  known : ∀ str, cache.strToId.get str = none ↔ str ∉ cache.idToStr
  position : ∀ i str, cache.idToStr[i]? = some str →
    cache.strToId.get str = some (UInt32.ofNat i)

lemma new_valid : new.Valid where
  known := fun _ => iff_of_true rfl List.not_mem_nil
  position := fun _ _ h => by cases h

/-- A string is added to the list unless it is there. -/
lemma storeString_idToStr {cache : StringCache} (valid : cache.Valid) (str : Bytes) :
    (cache.storeString str).1.idToStr = addKey cache.idToStr str := by
  have hknown := valid.known str
  rw [storeString, addKey]
  cases hget : cache.strToId.get str with
  | none => rw [if_neg (hknown.mp hget)]
  | some id => rw [if_pos (not_not.mp (fun h => by simp [hknown.mpr h] at hget))]

lemma storeString_valid {cache : StringCache} (valid : cache.Valid) (str : Bytes) :
    (cache.storeString str).1.Valid := by
  rw [storeString]
  cases hget : cache.strToId.get str with
  | some id => exact valid
  | none =>
    have habsent := (valid.known str).mp hget
    constructor
    · intro other
      by_cases h : other = str
      · simp [h]
      · simp [h, valid.known other]
    · intro i other hother
      simp only [Map.get_upsert]
      rcases Nat.lt_or_ge i cache.idToStr.length with hlt | hge
      · rw [List.getElem?_append_left hlt] at hother
        have hne : other ≠ str := fun h => habsent (h ▸ List.mem_of_getElem? hother)
        rw [if_neg hne, valid.position i other hother]
      · rw [List.getElem?_append_right hge] at hother
        obtain ⟨hi, heq⟩ := List.getElem?_eq_some_iff.mp hother
        have hpos : i = cache.idToStr.length := by
          simp only [List.length_cons, List.length_nil] at hi
          omega
        simp only [List.getElem_singleton] at heq
        simp [heq, hpos]

/-- The number of a stored string is its position, cut to 32 bits. -/
lemma storeString_id {cache : StringCache} (valid : cache.Valid) (str : Bytes) :
    ∃ i, (cache.storeString str).1.idToStr[i]? = some str ∧
      (cache.storeString str).2 = UInt32.ofNat i := by
  rw [storeString]
  cases hget : cache.strToId.get str with
  | none => exact ⟨cache.idToStr.length, by simp, by simp⟩
  | some id =>
    have hmem : str ∈ cache.idToStr :=
      not_not.mp (fun h => by simp [(valid.known str).mpr h] at hget)
    obtain ⟨i, hi⟩ := List.getElem?_of_mem hmem
    have hid := valid.position i str hi
    rw [hget] at hid
    exact ⟨i, hi, Option.some.inj hid⟩

end StringCache

structure FileInfo where
  name : Bytes
  pathId : StringID
  deriving DecidableEq

def getFileInfoFullPath (cache : StringCache) (fileInfo : FileInfo) : Bytes :=
  cache.getString fileInfo.pathId ++ fileInfo.name

end PathCache
