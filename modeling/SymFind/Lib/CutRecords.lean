import SymFind.Lib.RecordCodec

/-!
# Records that are stored in part

Where the last bytes of a record have not been stored, zeros stand in their
place. What is read then is the record field by field: the fields in front of
the cut as they were, zero behind it, and at the cut a smaller number.
-/
namespace CutRecords
open RecordCodec
universe u v

/-- The first `n` bytes, and zeros instead of the others. -/
def zeroFrom (n : Nat) (bs : Bytes) : Bytes := bs.take n ++ List.replicate (bs.length - n) 0

@[simp] lemma zeroFrom_length (n : Nat) (bs : Bytes) : (zeroFrom n bs).length = bs.length := by
  rw [zeroFrom, List.length_append, List.length_take, List.length_replicate]
  omega

lemma zeroFrom_all {n : Nat} {bs : Bytes} (h : bs.length ≤ n) : zeroFrom n bs = bs := by
  rw [zeroFrom, List.take_of_length_le h, Nat.sub_eq_zero_of_le h, List.replicate_zero,
    List.append_nil]

lemma zeroFrom_zero (bs : Bytes) : zeroFrom 0 bs = List.replicate bs.length 0 := rfl

lemma zeroFrom_zeros (n w : Nat) : zeroFrom n (List.replicate w 0) = List.replicate w 0 := by
  have hsum : min n w + (w - n) = w := by omega
  rw [zeroFrom, List.take_replicate, List.length_replicate, ← List.replicate_add, hsum]

lemma zeroFrom_append (n : Nat) (bs cs : Bytes) :
    zeroFrom n (bs ++ cs) = zeroFrom n bs ++ zeroFrom (n - bs.length) cs := by
  rcases Nat.le_total n bs.length with h | h
  · have hzeros : (bs ++ cs).length - n = (bs.length - n) + cs.length := by
      rw [List.length_append]
      omega
    rw [Nat.sub_eq_zero_of_le h, zeroFrom_zero, zeroFrom, zeroFrom,
      List.take_append_of_le_length h, hzeros, List.replicate_add, List.append_assoc]
  · have hzeros : (bs ++ cs).length - n = cs.length - (n - bs.length) := by
      rw [List.length_append]
      omega
    rw [zeroFrom_all h, zeroFrom, zeroFrom, List.take_append, List.take_of_length_le h, hzeros,
      List.append_assoc]

lemma leValue_zeros (w : Nat) : leValue (List.replicate w 0) = 0 := by
  induction w with
  | zero => rfl
  | succ w ih => rw [List.replicate_succ, leValue, ih, UInt8.toNat_zero]

lemma leValue_zeroFrom_le (n : Nat) (bs : Bytes) : leValue (zeroFrom n bs) ≤ leValue bs := by
  induction bs generalizing n with
  | nil => simp [zeroFrom, leValue]
  | cons b bs ih =>
    cases n with
    | zero =>
      rw [zeroFrom_zero, leValue_zeros]
      exact Nat.zero_le _
    | succ n =>
      have hcons : zeroFrom (n + 1) (b :: bs) = b :: zeroFrom n bs := by
        rw [zeroFrom, zeroFrom, List.take_succ_cons, List.length_cons, Nat.add_sub_add_right]
        rfl
      have hrest := ih n
      rw [hcons, leValue, leValue]
      omega

section Fields
variable {α : Type u} {β : Type v} {n : Nat}

/-- Cut behind `n` bytes the record `a` reads as `a'`. -/
def Cuts (c : Codec α) (n : Nat) (a a' : α) : Prop :=
  ∀ rest, c.decode (zeroFrom n (c.encode a) ++ rest) = some a'

lemma Cuts.whole {c : Codec α} (h : c.width ≤ n) (a : α) : Cuts c n a a := by
  intro rest
  rw [zeroFrom_all (by rwa [c.encode_length]), c.decode_encode]

/-- A record in front of the cut reads as it was. -/
lemma Cuts.eq_of_whole {c : Codec α} {a a' : α} (cuts : Cuts c n a a') (h : c.width ≤ n) :
    a' = a :=
  Option.some.inj ((cuts []).symm.trans (Cuts.whole h a []))

lemma Cuts.pair {c : Codec α} {d : Codec β} {a a' : α} {b b' : β} (first : Cuts c n a a')
    (second : Cuts d (n - c.width) b b') : Cuts (c.pair d) n (a, b) (a', b') := by
  intro rest
  have hlength : (zeroFrom n (c.encode a)).length = c.width := by
    rw [zeroFrom_length, c.encode_length]
  have hsplit : zeroFrom n ((c.pair d).encode (a, b)) ++ rest =
      zeroFrom n (c.encode a) ++ (zeroFrom (n - c.width) (d.encode b) ++ rest) := by
    change zeroFrom n (c.encode a ++ d.encode b) ++ rest = _
    rw [zeroFrom_append, c.encode_length, List.append_assoc]
  rw [hsplit]
  change (c.decode _).bind _ = _
  rw [first, Option.bind_some, List.drop_left' hlength, second, Option.map_some]

lemma Cuts.rename {c : Codec α} {build : α → β} {parts : β → α}
    {inv : ∀ b, build (parts b) = b} {b b' : β} {a' : α} (cuts : Cuts c n (parts b) a')
    (h : build a' = b') : Cuts (c.rename build parts inv) n b b' := by
  intro rest
  exact (congrArg (Option.map build) (cuts rest)).trans (congrArg some h)

/-- A number is cut to a smaller one, and to zero in front of its first byte. -/
lemma cuts_little {w : Nat} {val : α → Nat} {ofVal : Nat → α} {bound : ∀ a, val a < 256 ^ w}
    {inv : ∀ a, ofVal (val a) = a} (le : ∀ v, val (ofVal v) ≤ v) (n : Nat) (a : α) :
    ∃ a', Cuts (Codec.little w val ofVal bound inv) n a a' ∧ val a' ≤ val a ∧
      (n = 0 → a' = ofVal 0) := by
  have hlength : (zeroFrom n (leBytes w (val a))).length = w := by
    rw [zeroFrom_length, leBytes_length]
  have hvalue : leValue (leBytes w (val a)) = val a := by
    rw [leValue_leBytes, Nat.mod_eq_of_lt (bound a)]
  refine ⟨ofVal (leValue (zeroFrom n (leBytes w (val a)))), ?_, ?_, ?_⟩
  · intro rest
    have hlong : w ≤ (zeroFrom n (leBytes w (val a)) ++ rest).length := by
      rw [List.length_append]
      omega
    change (if w ≤ (zeroFrom n (leBytes w (val a)) ++ rest).length then
      some (ofVal (leValue ((zeroFrom n (leBytes w (val a)) ++ rest).take w))) else none) = _
    rw [if_pos hlong, List.take_left' hlength]
  · exact (le _).trans ((leValue_zeroFrom_le _ _).trans_eq hvalue)
  · rintro rfl
    rw [zeroFrom_zero, leValue_zeros]

lemma cuts_u32 (n : Nat) (a : UInt32) :
    ∃ a', Cuts Codec.u32 n a a' ∧ a'.toNat ≤ a.toNat ∧ (n = 0 → a' = 0) :=
  cuts_little (fun v => by rw [UInt32.toNat_ofNat']; exact Nat.mod_le _ _) n a

lemma cuts_u64 (n : Nat) (a : UInt64) :
    ∃ a', Cuts Codec.u64 n a a' ∧ a'.toNat ≤ a.toNat ∧ (n = 0 → a' = 0) :=
  cuts_little (fun v => by rw [UInt64.toNat_ofNat']; exact Nat.mod_le _ _) n a

end Fields

end CutRecords
