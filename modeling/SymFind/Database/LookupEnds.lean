import SymFind.Database.DatabaseReading

/-!
# When a lookup ends

The reader probes from the home slot until a slot is empty or holds the code.
Builder tables always have an empty slot on the way; the reader does not check
that its table has one.
-/
namespace LookupEnds
open RecordCodec BoundedLoop StepWalk Machine SymbolData TrigramCodes DatabaseLayout TrigramTable
open Compression Config DatabaseReading

section Probing

variable (slotsBuf : Bytes) (capacity : UInt32) (code : TrigramCode)

/-- The slots in the order in which the loop looks at them. -/
def probeIndex : Nat → Nat
  | 0 => (trigramHomeSlot code (getTrigramCapacityBits capacity)).toNat
  | d + 1 => (probeIndex d + 1) &&& (capacity - 1).toNat

/-- The slots whose code lies in the array. -/
def codeCount : Nat :=
  (slotsBuf.length + (trigramSlotCodec.width - Codec.u32.width)) / trigramSlotCodec.width

/-- A slot at which the loop returns: it is empty or holds the code. -/
def Answers (idx : Nat) : Prop :=
  slotCode slotsBuf idx = some trigramEmptySlot ∨ slotCode slotsBuf idx = some code

/-- A slot after which the loop goes on. -/
def Passes (idx : Nat) : Prop := idx < codeCount slotsBuf ∧ ¬ Answers slotsBuf code idx

instance (idx : Nat) : Decidable (Answers slotsBuf code idx) :=
  inferInstanceAs (Decidable (_ ∨ _))

variable {slotsBuf capacity code}

lemma inArray_iff (idx : Nat) :
    (∃ found, slotCode slotsBuf idx = some found) ↔ idx < codeCount slotsBuf := by
  have h := Codec.sized_u32 (slotsBuf.drop (idx * trigramSlotCodec.width))
  rw [List.length_drop] at h
  rw [slotCode, h, codeCount, trigramSlotCodec_width, Codec.u32_width]
  omega

lemma probeCode_outside {idx : Nat} (h : ¬ idx < codeCount slotsBuf) :
    probeCode slotsBuf capacity code idx = .inl (.error .outOfBounds) := by
  rw [← inArray_iff, ← Option.ne_none_iff_exists', not_not] at h
  simp only [probeCode, h]

lemma probeCode_passes {idx : Nat} (h : Passes slotsBuf code idx) :
    probeCode slotsBuf capacity code idx = .inr ((idx + 1) &&& (capacity - 1).toNat) := by
  obtain ⟨found, hfound⟩ := (inArray_iff idx).mpr h.1
  have hempty : found ≠ trigramEmptySlot := fun heq => h.2 (.inl (heq ▸ hfound))
  have hother : found ≠ code := fun heq => h.2 (.inr (heq ▸ hfound))
  simp only [probeCode, hfound, if_neg hempty, if_neg hother]

/-- The ways to leave the loop at a slot. -/
lemma probeCode_leaves_iff {idx : Nat} {x : Except Fault (Option Nat)} :
    probeCode slotsBuf capacity code idx = .inl x ↔
      (¬ idx < codeCount slotsBuf ∧ x = .error .outOfBounds) ∨
      (slotCode slotsBuf idx = some trigramEmptySlot ∧ x = .ok none) ∨
      (slotCode slotsBuf idx = some code ∧ code ≠ trigramEmptySlot ∧ x = .ok (some idx)) := by
  rw [← inArray_iff, probeCode]
  cases hfound : slotCode slotsBuf idx with
  | none => simp [eq_comm]
  | some found =>
    by_cases hempty : found = trigramEmptySlot
    · subst hempty
      simp only [if_true, Sum.inl.injEq, Option.some.injEq, exists_eq', not_true_eq_false,
        false_and, false_or, true_and, eq_comm (a := x)]
      refine ⟨.inl, ?_⟩
      rintro (h | ⟨heq, hne, -⟩)
      · exact h
      · exact absurd heq.symm hne
    · by_cases hcode : found = code
      · subst hcode
        simp [hempty, eq_comm]
      · simp [hempty, hcode]

lemma probeCode_answers {idx : Nat} (h : Answers slotsBuf code idx) :
    ∃ stop, probeCode slotsBuf capacity code idx = .inl (.ok stop) := by
  by_cases hempty : slotCode slotsBuf idx = some trigramEmptySlot
  · exact ⟨none, probeCode_leaves_iff.mpr (.inr (.inl ⟨hempty, rfl⟩))⟩
  · have hcode := h.resolve_left hempty
    have hne : code ≠ trigramEmptySlot := fun heq => hempty (heq ▸ hcode)
    exact ⟨some idx, probeCode_leaves_iff.mpr (.inr (.inr ⟨hcode, hne, rfl⟩))⟩

/-- After `d` passes the loop is at the `d`-th slot of the way, if it passes all before. -/
lemma walk_probe_iff (d idx : Nat) :
    walk (goesOn (probeCode slotsBuf capacity code)) d (probeIndex capacity code 0) = some idx ↔
      idx = probeIndex capacity code d ∧
        ∀ e, e < d → Passes slotsBuf code (probeIndex capacity code e) := by
  induction d generalizing idx with
  | zero =>
    constructor
    · intro h
      exact ⟨(Option.some.inj h).symm, fun e he => absurd he (Nat.not_lt_zero e)⟩
    · rintro ⟨rfl, _⟩
      rfl
  | succ d ih =>
    rw [walk_succ, Option.bind_eq_some_iff]
    constructor
    · rintro ⟨at_d, hwalk, hstep⟩
      obtain ⟨rfl, hbefore⟩ := (ih at_d).mp hwalk
      have hpasses : Passes slotsBuf code (probeIndex capacity code d) := by
        by_contra hno
        by_cases hin : probeIndex capacity code d < codeCount slotsBuf
        · obtain ⟨span, hspan⟩ : ∃ span, probeCode slotsBuf capacity code _ = .inl (.ok span) :=
            probeCode_answers (not_not.mp (fun hna => hno ⟨hin, hna⟩))
          rw [goesOn_of_inl hspan] at hstep
          cases hstep
        · rw [goesOn_of_inl (probeCode_outside hin)] at hstep
          cases hstep
      rw [goesOn_of_inr (probeCode_passes hpasses)] at hstep
      refine ⟨(Option.some.inj hstep).symm, ?_⟩
      intro e he
      rcases Nat.lt_succ_iff_lt_or_eq.mp he with hlt | rfl
      · exact hbefore e hlt
      · exact hpasses
    · rintro ⟨rfl, hall⟩
      refine ⟨_, (ih _).mpr ⟨rfl, fun e he => hall e (Nat.lt_succ_of_lt he)⟩, ?_⟩
      exact goesOn_of_inr (probeCode_passes (hall d (Nat.lt_succ_self d)))

/-- Where the loop over a table with slots stops, by the slots on its way. -/
lemma probeSlots_eq_iff (some_slots : capacity ≠ 0) (fuel : Nat) {r : Except Fault (Option Nat)}
    (finished : r ≠ .error .diverged) :
    probeSlots fuel slotsBuf capacity code = r ↔
      ∃ d, d < fuel ∧ (∀ e, e < d → Passes slotsBuf code (probeIndex capacity code e)) ∧
        probeCode slotsBuf capacity code (probeIndex capacity code d) = .inl r := by
  have hrun : probeSlots fuel slotsBuf capacity code = r ↔
      run (probeCode slotsBuf capacity code) fuel (probeIndex capacity code 0) = some r := by
    rw [probeSlots, if_neg some_slots, runLoop, ← probeIndex]
    cases run (probeCode slotsBuf capacity code) fuel (probeIndex capacity code 0) with
    | none => simp [finished.symm]
    | some r' => simp
  rw [hrun, run_eq_some_iff]
  constructor
  · rintro ⟨d, hd, idx, hwalk, hleave⟩
    obtain ⟨rfl, hpasses⟩ := (walk_probe_iff d idx).mp hwalk
    exact ⟨d, hd, hpasses, hleave⟩
  · rintro ⟨d, hd, hpasses, hleave⟩
    exact ⟨d, hd, _, (walk_probe_iff d _).mpr ⟨rfl, hpasses⟩, hleave⟩

/-- A way that ends passes each slot of the array at most once. -/
lemma passed_at_most {d : Nat}
    (passes : ∀ e, e < d → Passes slotsBuf code (probeIndex capacity code e))
    (leaves : ¬ Passes slotsBuf code (probeIndex capacity code d)) : d ≤ codeCount slotsBuf := by
  have inside : ∀ s t, goesOn (probeCode slotsBuf capacity code) s = some t →
      s ∈ List.range (codeCount slotsBuf) := by
    intro s t h
    by_contra hout
    rw [List.mem_range] at hout
    rw [goesOn_of_inl (probeCode_outside hout)] at h
    cases h
  have stops : walk (goesOn (probeCode slotsBuf capacity code)) (d + 1)
      (probeIndex capacity code 0) = none := by
    by_contra hgo
    obtain ⟨idx, hidx⟩ := Option.ne_none_iff_exists'.mp hgo
    exact leaves (((walk_probe_iff _ _).mp hidx).2 d (Nat.lt_succ_self d))
  have hwithin := walk_stops_within inside stops
  rw [List.length_range] at hwithin
  by_contra hmore
  have hgo := (walk_probe_iff (codeCount slotsBuf + 1) _).mpr
    ⟨rfl, fun e he => passes e (by omega)⟩
  rw [hwithin] at hgo
  cases hgo

/-- The loop of a lookup ends exactly when the way from the home slot meets an empty slot or the
code before it leaves the array; it does so within one pass a slot, or never. -/
theorem lookup_ends_iff (slotsBuf : Bytes) (capacity : UInt32) (code : TrigramCode) :
    (∃ fuel stop, probeSlots fuel slotsBuf capacity code = .ok stop) ↔
      capacity = 0 ∨ ∃ d ≤ codeCount slotsBuf,
        Answers slotsBuf code (probeIndex capacity code d) ∧
          ∀ e < d, probeIndex capacity code e < codeCount slotsBuf := by
  by_cases hzero : capacity = 0
  · exact iff_of_true ⟨0, none, by rw [probeSlots, if_pos hzero]⟩ (Or.inl hzero)
  constructor
  · rintro ⟨fuel, stop, hstop⟩
    obtain ⟨d, _, hpasses, hleave⟩ :=
      (probeSlots_eq_iff hzero fuel (by intro h; cases h)).mp hstop
    have hanswers : Answers slotsBuf code (probeIndex capacity code d) := by
      by_contra hno
      by_cases hin : probeIndex capacity code d < codeCount slotsBuf
      · rw [probeCode_passes ⟨hin, hno⟩] at hleave
        cases hleave
      · rw [probeCode_outside hin] at hleave
        cases hleave
    exact Or.inr ⟨d, passed_at_most hpasses (fun h => h.2 hanswers), hanswers,
      fun e he => (hpasses e he).1⟩
  · rintro (h | ⟨d, _, hanswers, hinside⟩)
    · exact absurd h hzero
    · -- the first slot on the way that answers
      have meets : ∃ d, Answers slotsBuf code (probeIndex capacity code d) := ⟨d, hanswers⟩
      have hle : Nat.find meets ≤ d := Nat.find_min' meets hanswers
      obtain ⟨stop, hstop⟩ : ∃ stop, probeCode slotsBuf capacity code _ = .inl (.ok stop) :=
        probeCode_answers (Nat.find_spec meets)
      refine ⟨Nat.find meets + 1, stop,
        (probeSlots_eq_iff hzero _ (by intro h; cases h)).mpr
          ⟨Nat.find meets, Nat.lt_succ_self _, ?_, hstop⟩⟩
      intro e he
      exact ⟨hinside e (Nat.lt_of_lt_of_le he hle), Nat.find_min meets he⟩

/-- A capacity of two over a whole slot and the empty code of a second one: the loop ends there. -/
example : probeSlots 3 (trigramSlotCodec.encode ⟨0x616161, 0, 0⟩ ++
    Codec.u32.encode trigramEmptySlot) 2 0x6D656D = .ok none := by decide +kernel

end Probing

section FullTable

/-- A header whose only block is a table of two slots right behind it. -/
def fullTableHeader : DatabaseHeader :=
  { DatabaseHeader.init with
    magic := databaseHeaderMagic
    version := databaseHeaderVersionNumber
    trigramIndexHdr := ⟨⟨220, 24, 24⟩, 2, .zero, 0, 0, 0⟩ }

/-- Both slots are taken, by the codes of `aaa` and `bbb`. -/
def fullTableFile : Bytes :=
  databaseHeaderCodec.encode fullTableHeader ++
    trigramSlotCodec.encodeAll [⟨0x616161, 0, 0⟩, ⟨0x626262, 0, 0⟩]

/-- The file is opened, and the lookup of `mem` goes round its table for ever. -/
theorem full_table_never_ends :
    ∃ r, decompressDatabase Zstd.stored ConfigParser.new (mappedPages fullTableFile) = .ok r ∧
      ¬ ∃ fuel stop, probeSlots fuel r.trigramSlotsBuf r.trigramCapacity 0x6D656D =
        .ok stop := by
  have hopened : (decompressDatabase Zstd.stored ConfigParser.new
      (mappedPages fullTableFile)).toOption.map
      (fun r => (r.trigramSlotsBuf, r.trigramCapacity)) =
      some (trigramSlotCodec.encodeAll [⟨0x616161, 0, 0⟩, ⟨0x626262, 0, 0⟩], 2) := by
    decide +kernel
  rcases hr : decompressDatabase Zstd.stored ConfigParser.new (mappedPages fullTableFile) with
    halt | r
  · rw [hr] at hopened
    cases hopened
  rw [hr] at hopened
  obtain ⟨hslots, hcapacity⟩ := Prod.mk.inj (Option.some.inj hopened)
  refine ⟨r, rfl, ?_⟩
  rw [hslots, hcapacity]
  rintro ⟨fuel, stop, hstop⟩
  obtain ⟨d, _, _, hleave⟩ :=
    (probeSlots_eq_iff (by decide) fuel (by intro h; cases h)).mp hstop
  have hway : probeIndex 2 0x6D656D d < 2 := by
    cases d with
    | zero => decide +kernel
    | succ d => exact Nat.and_lt_two_pow _ (show (2 - 1 : UInt32).toNat < 2 ^ 1 by decide)
  have hpasses : ∀ idx < 2, Passes (trigramSlotCodec.encodeAll
      [⟨0x616161, 0, 0⟩, ⟨0x626262, 0, 0⟩]) 0x6D656D idx := by
    intro idx hidx
    refine ⟨hidx, ?_⟩
    revert idx
    decide +kernel
  rw [probeCode_passes (hpasses _ hway)] at hleave
  cases hleave

end FullTable
end LookupEnds
