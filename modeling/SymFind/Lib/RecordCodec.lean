import Mathlib.Data.List.Basic
import Mathlib.Tactic.Lemma
import Mathlib.Tactic.Ring

/-!
# Fixed-width records in byte strings

A codec writes every value of a type as the same number of bytes and reads it
back from the front of any byte string that begins with these bytes. Codecs are
built from little-endian integers by pairing and renaming. A table is the
concatenation of its records, addressed by index; a blob is the concatenation
of byte strings, addressed by offset and length.
-/
namespace RecordCodec
universe u v

abbrev Bytes := List UInt8

/-- The `w` low bytes of `n`, least significant first. -/
def leBytes : Nat → Nat → Bytes
  | 0, _ => []
  | w + 1, n => UInt8.ofNat n :: leBytes w (n / 256)

def leValue : Bytes → Nat
  | [] => 0
  | b :: bs => b.toNat + 256 * leValue bs

@[simp] lemma leBytes_length (w n : Nat) : (leBytes w n).length = w := by
  induction w generalizing n with
  | zero => rfl
  | succ w ih => simp [leBytes, ih]

lemma leValue_leBytes (w n : Nat) : leValue (leBytes w n) = n % 256 ^ w := by
  induction w generalizing n with
  | zero => simp [leBytes, leValue, Nat.mod_one]
  | succ w ih =>
    have low : (UInt8.ofNat n).toNat = n % 256 := UInt8.toNat_ofNat'
    rw [leBytes, leValue, ih, low, pow_succ', Nat.mod_mul]

/-- A value type with a byte image of fixed width that can be read back in place. -/
structure Codec (α : Type u) where
  width : Nat
  encode : α → Bytes
  decode : Bytes → Option α
  encode_length : ∀ a, (encode a).length = width
  decode_encode : ∀ a rest, decode (encode a ++ rest) = some a

attribute [simp] Codec.encode_length Codec.decode_encode

namespace Codec
variable {α : Type u} {β : Type v}

/-- A little-endian integer, through its inclusion into the naturals. -/
def little (w : Nat) (val : α → Nat) (ofVal : Nat → α) (bound : ∀ a, val a < 256 ^ w)
    (inv : ∀ a, ofVal (val a) = a) : Codec α where
  width := w
  encode a := leBytes w (val a)
  decode bs := if w ≤ bs.length then some (ofVal (leValue (bs.take w))) else none
  encode_length a := leBytes_length w (val a)
  decode_encode a rest := by
    have hlen : (leBytes w (val a)).length = w := leBytes_length w (val a)
    have htake : (leBytes w (val a) ++ rest).take w = leBytes w (val a) := by
      rw [List.take_append_of_le_length (by omega), List.take_of_length_le (by omega)]
    rw [if_pos (by rw [List.length_append]; omega), htake, leValue_leBytes,
      Nat.mod_eq_of_lt (bound a), inv]

def byte : Codec UInt8 :=
  little 1 UInt8.toNat UInt8.ofNat (fun a => by simpa using a.toNat_lt)
    (fun _ => UInt8.ofNat_toNat)

def u32 : Codec UInt32 :=
  little 4 UInt32.toNat UInt32.ofNat (fun a => by simpa using a.toNat_lt)
    (fun _ => UInt32.ofNat_toNat)

def u64 : Codec UInt64 :=
  little 8 UInt64.toNat UInt64.ofNat (fun a => by simpa using a.toNat_lt)
    (fun _ => UInt64.ofNat_toNat)

/-- Two records side by side, without padding. -/
def pair (c : Codec α) (d : Codec β) : Codec (α × β) where
  width := c.width + d.width
  encode p := c.encode p.1 ++ d.encode p.2
  decode bs :=
    (c.decode bs).bind (fun a => (d.decode (bs.drop c.width)).map (fun b => (a, b)))
  encode_length p := by simp
  decode_encode p rest := by
    have hdrop : (c.encode p.1 ++ (d.encode p.2 ++ rest)).drop c.width =
        d.encode p.2 ++ rest := List.drop_left' (c.encode_length p.1)
    rw [List.append_assoc, c.decode_encode, Option.bind_some, hdrop,
      d.decode_encode p.2 rest, Option.map_some]

/-- The same bytes read as another type. -/
def rename (c : Codec α) (build : α → β) (parts : β → α) (inv : ∀ b, build (parts b) = b) :
    Codec β where
  width := c.width
  encode b := c.encode (parts b)
  decode bs := (c.decode bs).map build
  encode_length b := c.encode_length (parts b)
  decode_encode b rest := by simp [inv]

@[simp] lemma byte_width : byte.width = 1 := rfl
@[simp] lemma u32_width : u32.width = 4 := rfl
@[simp] lemma u64_width : u64.width = 8 := rfl
@[simp] lemma pair_width (c : Codec α) (d : Codec β) : (c.pair d).width = c.width + d.width := rfl
@[simp] lemma rename_width (c : Codec α) (build : α → β) (parts : β → α)
    (inv : ∀ b, build (parts b) = b) : (c.rename build parts inv).width = c.width := rfl

lemma decode_pair_encode (c : Codec α) (d : Codec β) (a : α) (rest : Bytes) :
    (c.pair d).decode (c.encode a ++ rest) = (d.decode rest).map (fun b => (a, b)) := by
  have hdrop : (c.encode a ++ rest).drop c.width = rest := List.drop_left' (c.encode_length a)
  change (c.decode (c.encode a ++ rest)).bind _ = _
  rw [c.decode_encode, Option.bind_some, hdrop]

/-- The front of a pair is read like a record of its own. -/
lemma decode_pair_fst {c : Codec α} {d : Codec β} {bs : Bytes} {p : α × β}
    (h : (c.pair d).decode bs = some p) : c.decode bs = some p.1 := by
  obtain ⟨a, ha, hrest⟩ := Option.bind_eq_some_iff.mp h
  obtain ⟨b, -, rfl⟩ := Option.map_eq_some_iff.mp hrest
  exact ha

/-- Any byte string that is long enough reads as a record. -/
def Total (c : Codec α) : Prop := ∀ bs, c.width ≤ bs.length → ∃ a, c.decode bs = some a

/-- Exactly the byte strings that are long enough read as a record. -/
def Sized (c : Codec α) : Prop := ∀ bs, (∃ a, c.decode bs = some a) ↔ c.width ≤ bs.length

lemma sized_little (w : Nat) (val : α → Nat) (ofVal : Nat → α) (bound : ∀ a, val a < 256 ^ w)
    (inv : ∀ a, ofVal (val a) = a) : (little w val ofVal bound inv).Sized := by
  intro bs
  constructor
  · rintro ⟨a, ha⟩
    by_contra hshort
    have hnone : (little w val ofVal bound inv).decode bs = none := if_neg hshort
    rw [hnone] at ha
    cases ha
  · intro h
    exact ⟨_, if_pos h⟩

lemma Sized.total {c : Codec α} (hc : c.Sized) : c.Total := fun bs h => (hc bs).mpr h

lemma sized_u32 : u32.Sized := sized_little _ _ _ _ _

lemma sized_u64 : u64.Sized := sized_little _ _ _ _ _

lemma Sized.pair {c : Codec α} {d : Codec β} (hc : c.Sized) (hd : d.Sized) : (c.pair d).Sized := by
  intro bs
  have hsecond := hd (bs.drop c.width)
  rw [List.length_drop] at hsecond
  rw [pair_width]
  constructor
  · rintro ⟨p, hp⟩
    change (c.decode bs).bind _ = _ at hp
    obtain ⟨a, ha, hp⟩ := Option.bind_eq_some_iff.mp hp
    obtain ⟨b, hb, _⟩ := Option.map_eq_some_iff.mp hp
    have h₁ := (hc bs).mp ⟨a, ha⟩
    have h₂ := hsecond.mp ⟨b, hb⟩
    omega
  · intro h
    obtain ⟨a, ha⟩ := (hc bs).mpr (by omega)
    obtain ⟨b, hb⟩ := hsecond.mpr (by omega)
    refine ⟨(a, b), ?_⟩
    change (c.decode bs).bind _ = _
    rw [ha, Option.bind_some, hb]
    rfl

lemma Sized.rename {c : Codec α} (hc : c.Sized) (build : α → β) (parts : β → α)
    (inv : ∀ b, build (parts b) = b) : (c.rename build parts inv).Sized := by
  intro bs
  rw [rename_width, ← hc bs]
  constructor
  · rintro ⟨b, hb⟩
    obtain ⟨a, ha, _⟩ := Option.map_eq_some_iff.mp hb
    exact ⟨a, ha⟩
  · rintro ⟨a, ha⟩
    exact ⟨build a, congrArg (Option.map build) ha⟩

/-- A table is the concatenation of its records. -/
def encodeAll (c : Codec α) (xs : List α) : Bytes := xs.flatMap c.encode

/-- The record at an index; `none` when the table ends before the record does. -/
def entryAt (c : Codec α) (bs : Bytes) (i : Nat) : Option α := c.decode (bs.drop (i * c.width))

@[simp] lemma encodeAll_nil (c : Codec α) : c.encodeAll [] = [] := rfl

@[simp] lemma encodeAll_cons (c : Codec α) (x : α) (xs : List α) :
    c.encodeAll (x :: xs) = c.encode x ++ c.encodeAll xs := rfl

@[simp] lemma encodeAll_length (c : Codec α) (xs : List α) :
    (c.encodeAll xs).length = xs.length * c.width := by
  induction xs with
  | nil => simp
  | cons x xs ih =>
    rw [encodeAll_cons, List.length_append, encode_length, ih, List.length_cons]
    ring

lemma encodeAll_append (c : Codec α) (xs ys : List α) :
    c.encodeAll (xs ++ ys) = c.encodeAll xs ++ c.encodeAll ys := List.flatMap_append

lemma entryAt_append (c : Codec α) (xs : List α) (rest : Bytes) {i : Nat} (h : i < xs.length) :
    c.entryAt (c.encodeAll xs ++ rest) i = some xs[i] := by
  induction xs generalizing i with
  | nil => simp at h
  | cons x xs ih =>
    cases i with
    | zero => simp [entryAt]
    | succ i =>
      have hdrop : (c.encode x ++ (c.encodeAll xs ++ rest)).drop ((i + 1) * c.width) =
          (c.encodeAll xs ++ rest).drop (i * c.width) := by
        rw [Nat.succ_mul, Nat.add_comm, ← List.drop_drop, List.drop_left' (c.encode_length x)]
      rw [entryAt, encodeAll_cons, List.append_assoc, hdrop]
      exact ih (by simpa using h)

/-- Reading a table back record by record gives the records it was made from. -/
theorem entryAt_encodeAll (c : Codec α) (xs : List α) {i : Nat} (h : i < xs.length) :
    c.entryAt (c.encodeAll xs) i = some xs[i] := by
  have := c.entryAt_append xs [] h
  rwa [List.append_nil] at this

/-- Consecutive records from an index on; `none` when one of them leaves the table. -/
def readMany (c : Codec α) (bs : Bytes) (start count : Nat) : Option (List α) :=
  (List.range count).mapM (fun i => c.entryAt bs (start + i))

lemma mapM_some {γ : Type} {f : γ → Option α} {g : γ → α} {l : List γ}
    (h : ∀ x ∈ l, f x = some (g x)) : l.mapM f = some (l.map g) := by
  induction l with
  | nil => rfl
  | cons x rest ih =>
    rw [List.mapM_cons, h x List.mem_cons_self, ih (fun y hy => h y (List.mem_cons_of_mem x hy))]
    rfl

/-- Reading the indices of a list one by one gives the list. -/
lemma mapM_range {f : Nat → Option α} {xs : List α}
    (h : ∀ i (hi : i < xs.length), f i = some xs[i]) : (List.range xs.length).mapM f = some xs := by
  rcases xs.eq_nil_or_concat with rfl | ⟨_, last, _⟩
  · rfl
  · have each : ∀ i ∈ List.range xs.length, f i = some (xs.getD i last) := by
      intro i hi
      have hlt : i < xs.length := List.mem_range.mp hi
      rw [h i hlt, List.getD_eq_getElem?_getD, List.getElem?_eq_getElem hlt, Option.getD_some]
    rw [mapM_some each]
    congr 1
    apply List.ext_getElem
    · simp
    · intro i h₁ h₂
      simp [h₂]

/-- A run of records in the middle of a table reads back as it was written. -/
theorem readMany_encodeAll (c : Codec α) (pre mid post : List α) :
    c.readMany (c.encodeAll (pre ++ mid ++ post)) pre.length mid.length = some mid := by
  apply mapM_range
  intro i hi
  have hin : pre.length + i < (pre ++ mid ++ post).length := by
    simp only [List.length_append]; omega
  have hget : (pre ++ mid ++ post)[pre.length + i] = mid[i] := by
    simp [hi]
  rw [c.entryAt_encodeAll _ hin, hget]

lemma encodeAll_count (c : Codec α) (hw : 0 < c.width) (xs : List α) :
    (c.encodeAll xs).length / c.width = xs.length := by
  rw [encodeAll_length, Nat.mul_div_cancel _ hw]

end Codec

/-- The bytes at an offset; `none` when they would leave the buffer. -/
def slice (bs : Bytes) (offset length : Nat) : Option Bytes :=
  if offset + length ≤ bs.length then some ((bs.drop offset).take length) else none

lemma slice_append (pre mid post : Bytes) :
    slice (pre ++ mid ++ post) pre.length mid.length = some mid := by
  have hle : pre.length + mid.length ≤ (pre ++ mid ++ post).length := by
    simp only [List.length_append]; omega
  rw [slice, if_pos hle, List.append_assoc, List.drop_left, List.take_left]

lemma slice_of_prefix {bs : Bytes} {offset length : Nat} {part : Bytes}
    (h : slice bs offset length = some part) (rest : Bytes) :
    slice (bs ++ rest) offset length = some part := by
  rw [slice] at h ⊢
  split at h
  · rename_i hle
    have hdrop : (bs.drop offset).length = bs.length - offset := List.length_drop
    rw [if_pos (by rw [List.length_append]; omega),
      List.drop_append_of_le_length (by omega), List.take_append_of_le_length (by omega)]
    exact h
  · cases h

/-- Where the `i`-th part of a concatenation starts. -/
def offsetOf (parts : List Bytes) (i : Nat) : Nat := (parts.take i).flatten.length

lemma offsetOf_succ (parts : List Bytes) {i : Nat} (h : i < parts.length) :
    offsetOf parts (i + 1) = offsetOf parts i + parts[i].length := by
  rw [offsetOf, offsetOf, List.take_succ_eq_append_getElem h, List.flatten_append,
    List.length_append, List.flatten_singleton]

/-- A part of a blob is found at the offset where its predecessors end. -/
theorem slice_flatten (parts : List Bytes) {i : Nat} (h : i < parts.length) :
    slice parts.flatten (offsetOf parts i) parts[i].length = some parts[i] := by
  have hsplit : parts = parts.take i ++ parts[i] :: parts.drop (i + 1) := by
    rw [← List.drop_eq_getElem_cons h, List.take_append_drop]
  have hflat : parts.flatten =
      (parts.take i).flatten ++ parts[i] ++ (parts.drop (i + 1)).flatten := by
    conv_lhs => rw [hsplit]
    rw [List.flatten_append, List.flatten_cons, List.append_assoc]
  rw [hflat]
  exact slice_append _ _ _

lemma drop_offsetOf (parts : List Bytes) {i : Nat} (h : i < parts.length) :
    parts.flatten.drop (offsetOf parts i) = parts[i] ++ (parts.drop (i + 1)).flatten := by
  have hsplit : parts.flatten = (parts.take i).flatten ++ (parts.drop i).flatten := by
    rw [← List.flatten_append, List.take_append_drop]
  rw [hsplit, offsetOf, List.drop_left, List.drop_eq_getElem_cons h, List.flatten_cons]

lemma offsetOf_le (parts : List Bytes) (i : Nat) : offsetOf parts i ≤ parts.flatten.length := by
  have hsplit : parts.flatten = (parts.take i).flatten ++ (parts.drop i).flatten := by
    rw [← List.flatten_append, List.take_append_drop]
  rw [hsplit, List.length_append, offsetOf]
  omega

section Running

variable {α : Type u} {β : Type v} {σ : Type}

def locate (entry : α → σ → β) (advance : σ → α → σ) (s : σ) : List α → List β
  | [] => []
  | a :: rest => entry a s :: locate entry advance (advance s a) rest

lemma locate_append (entry : α → σ → β) (advance : σ → α → σ) (s : σ) (xs ys : List α) :
    locate entry advance s (xs ++ ys) =
      locate entry advance s xs ++ locate entry advance (xs.foldl advance s) ys := by
  induction xs generalizing s with
  | nil => rfl
  | cons a rest ih => simp [locate, ih]

@[simp] lemma locate_length (entry : α → σ → β) (advance : σ → α → σ) (s : σ) (xs : List α) :
    (locate entry advance s xs).length = xs.length := by
  induction xs generalizing s with
  | nil => rfl
  | cons a rest ih => simp [locate, ih]

/-- The `i`-th record, from the state after the first `i` elements. -/
theorem locate_getElem (entry : α → σ → β) (advance : σ → α → σ) (s : σ) (xs : List α) {i : Nat}
    (h : i < xs.length) (h' : i < (locate entry advance s xs).length) :
    (locate entry advance s xs)[i] = entry xs[i] ((xs.take i).foldl advance s) := by
  induction xs generalizing s i with
  | nil => simp at h
  | cons a rest ih =>
    cases i with
    | zero => rfl
    | succ i => simpa [locate] using ih (advance s a) (by simpa using h) _

end Running
section Tiling

/-- Position `p` lies in a range given by offset and length. -/
def Within (p : Nat) (r : Nat × Nat) : Prop := r.1 ≤ p ∧ p < r.1 + r.2

/-- The ranges lie between two bounds, are disjoint, and leave no position out. -/
structure Tiles (ranges : List (Nat × Nat)) (lo hi : Nat) : Prop where
  inside : ∀ r ∈ ranges, lo ≤ r.1 ∧ r.1 + r.2 ≤ hi
  disjoint : ranges.Pairwise (fun r s => ∀ p, Within p r → ¬ Within p s)
  covered : ∀ p, lo ≤ p → p < hi → ∃ r ∈ ranges, Within p r

/-- The ranges of parts that lie one behind another. -/
def rangesFrom (base : Nat) : List Bytes → List (Nat × Nat)
  | [] => []
  | part :: rest => (base, part.length) :: rangesFrom (base + part.length) rest

lemma rangesFrom_append (base : Nat) (parts more : List Bytes) :
    rangesFrom base (parts ++ more) =
      rangesFrom base parts ++ rangesFrom (base + parts.flatten.length) more := by
  induction parts generalizing base with
  | nil => simp [rangesFrom]
  | cons part rest ih =>
    simp only [List.cons_append, rangesFrom, ih, List.flatten_cons, List.length_append]
    rw [Nat.add_assoc]

lemma rangesFrom_eq_map (base : Nat) (parts : List Bytes) :
    rangesFrom base parts = (List.range parts.length).map
      (fun i => (base + offsetOf parts i, (parts.getD i []).length)) := by
  induction parts generalizing base with
  | nil => rfl
  | cons part rest ih =>
    rw [rangesFrom, ih, List.length_cons, List.range_succ_eq_map, List.map_cons, List.map_map]
    congr 1
    apply List.map_congr_left
    intro i _
    simp [offsetOf, Nat.add_assoc]

theorem tiles_rangesFrom (base : Nat) (parts : List Bytes) :
    Tiles (rangesFrom base parts) base (base + parts.flatten.length) := by
  induction parts generalizing base with
  | nil =>
    refine ⟨?_, List.Pairwise.nil, ?_⟩
    · intro r hr
      cases hr
    · intro p hlo hhi
      simp only [List.flatten_nil, List.length_nil] at hhi
      omega
  | cons part rest ih =>
    have tail := ih (base + part.length)
    rw [List.flatten_cons, List.length_append, ← Nat.add_assoc]
    constructor
    · intro r hr
      rcases List.mem_cons.mp hr with rfl | hr
      · simp only
        omega
      · have := tail.inside r hr
        omega
    · refine List.pairwise_cons.mpr ⟨?_, tail.disjoint⟩
      intro s hs p hp hps
      have := tail.inside s hs
      simp only [Within] at hp hps
      omega
    · intro p hlo hhi
      by_cases hp : p < base + part.length
      · exact ⟨_, List.mem_cons_self, hlo, hp⟩
      · obtain ⟨r, hr, hwithin⟩ := tail.covered p (by omega) hhi
        exact ⟨r, List.mem_cons_of_mem _ hr, hwithin⟩

/-- An empty range anywhere between the bounds changes nothing. -/
lemma tiles_insert_empty {before after : List (Nat × Nat)} {lo hi o : Nat}
    (tiles : Tiles (before ++ after) lo hi) (hlo : lo ≤ o) (hhi : o ≤ hi) :
    Tiles (before ++ (o, 0) :: after) lo hi := by
  have empty : ∀ p, ¬ Within p (o, 0) := by
    rintro p ⟨h₁, h₂⟩
    simp only at h₁ h₂
    omega
  constructor
  · intro r hr
    rcases List.mem_append.mp hr with hr | hr
    · exact tiles.inside r (List.mem_append_left _ hr)
    · rcases List.mem_cons.mp hr with rfl | hr
      · exact ⟨hlo, hhi⟩
      · exact tiles.inside r (List.mem_append_right _ hr)
  · obtain ⟨hbefore, hafter, hcross⟩ := List.pairwise_append.mp tiles.disjoint
    refine List.pairwise_append.mpr ⟨hbefore, List.pairwise_cons.mpr ⟨?_, hafter⟩, ?_⟩
    · intro s _ p hp
      exact absurd hp (empty p)
    · intro r hr s hs p hpr hps
      rcases List.mem_cons.mp hs with rfl | hs
      · exact empty p hps
      · exact hcross r hr s hs p hpr hps
  · intro p hlo' hhi'
    obtain ⟨r, hr, hwithin⟩ := tiles.covered p hlo' hhi'
    refine ⟨r, ?_, hwithin⟩
    rcases List.mem_append.mp hr with hr | hr
    · exact List.mem_append_left _ hr
    · exact List.mem_append_right _ (List.mem_cons_of_mem _ hr)

end Tiling
end RecordCodec
