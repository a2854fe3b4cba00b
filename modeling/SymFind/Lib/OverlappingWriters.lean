import SymFind.Lib.FilePatch
import SymFind.Lib.Shuffle

/-!
# Several writers of one file

Each writer truncates the file and writes it anew, and the operations of the
writers may come in any order that keeps those of each writer in theirs. If the
last write of each writer to a position puts the same byte there, the file that
they leave is the one that each of them would leave alone.
-/
namespace OverlappingWriters
open RecordCodec FilePatch Shuffle

inductive FileOp where
  | truncate
  | write (offset : Nat) (bs : Bytes)

def FileOp.apply (file : Bytes) : FileOp → Bytes
  | .truncate => []
  | .write offset bs => patch file offset bs

def applyAll (file : Bytes) (ops : List FileOp) : Bytes := ops.foldl FileOp.apply file

lemma applyAll_append (file : Bytes) (ops more : List FileOp) :
    applyAll file (ops ++ more) = applyAll (applyAll file ops) more := List.foldl_append

section Positions

variable {file bs : Bytes} {offset p : Nat}

lemma patch_inside (h : offset ≤ p) (hp : p < offset + bs.length) :
    (patch file offset bs)[p]? = bs[p - offset]? := by
  have hfront : (file.take offset ++ List.replicate (offset - file.length) 0).length = offset := by
    rw [List.length_append, List.length_take, List.length_replicate]
    omega
  rw [patch, List.append_assoc, List.getElem?_append_right (by omega), hfront,
    List.getElem?_append_left (by omega)]

lemma patch_outside (hfile : p < file.length) (h : ¬ (offset ≤ p ∧ p < offset + bs.length)) :
    (patch file offset bs)[p]? = file[p]? := by
  by_cases hgap : offset ≤ file.length
  · rw [getElem?_patch hgap]
    by_cases hbefore : p < offset
    · rw [if_pos hbefore]
    · rw [if_neg hbefore, if_neg (by omega)]
  · rw [patch, List.append_assoc, List.append_assoc, List.take_of_length_le (by omega),
      List.getElem?_append_left hfile]

end Positions

section Writers

/-- Some write of the operations puts a byte at the position. -/
def Covers (p : Nat) (ops : List FileOp) : Prop :=
  ∃ offset bs, .write offset bs ∈ ops ∧ offset ≤ p ∧ p < offset + bs.length

lemma not_covers_nil (p : Nat) : ¬ Covers p [] := by
  rintro ⟨offset, bs, hmem, -⟩
  cases hmem

lemma covers_truncate {p : Nat} {ops : List FileOp} :
    Covers p (.truncate :: ops) ↔ Covers p ops := by
  constructor
  · rintro ⟨offset, bs, hmem, h⟩
    exact ⟨offset, bs, (List.mem_cons.mp hmem).resolve_left nofun, h⟩
  · rintro ⟨offset, bs, hmem, h⟩
    exact ⟨offset, bs, List.mem_cons_of_mem _ hmem, h⟩

lemma covers_write {p offset : Nat} {bs : Bytes} {ops : List FileOp} :
    Covers p (.write offset bs :: ops) ↔ (offset ≤ p ∧ p < offset + bs.length) ∨ Covers p ops := by
  constructor
  · rintro ⟨offset', bs', hmem, h⟩
    rcases List.mem_cons.mp hmem with heq | hmem
    · cases heq
      exact .inl h
    · exact .inr ⟨offset', bs', hmem, h⟩
  · rintro (h | ⟨offset', bs', hmem, h⟩)
    · exact ⟨offset, bs, List.mem_cons_self, h⟩
    · exact ⟨offset', bs', List.mem_cons_of_mem _ hmem, h⟩

/-- A truncation is followed by writes of everything, no write reaches over the end, and the last
write to a position puts the byte of the image there. -/
def Settles (image : Bytes) : List FileOp → Prop
  | [] => True
  | .truncate :: rest => (∀ p, p < image.length → Covers p rest) ∧ Settles image rest
  | .write offset bs :: rest =>
    offset + bs.length ≤ image.length ∧
      (∀ p, offset ≤ p → p < offset + bs.length → ¬ Covers p rest →
        bs[p - offset]? = image[p]?) ∧
      Settles image rest

/-- A file that is truncated and written may have been truncated before. -/
lemma Settles.truncate {image : Bytes} {ops : List FileOp}
    (settles : Settles image (.truncate :: ops)) :
    Settles image (.truncate :: .truncate :: ops) :=
  ⟨fun p hp => covers_truncate.mpr (settles.1 p hp), settles⟩

/-- Of each position either some writer has still to write it, or the file has the byte of the
image. The file is too long only as long as somebody has to truncate it. -/
structure Pending (image file : Bytes) (streams : List (List FileOp)) : Prop where
  settles : ∀ s ∈ streams, Settles image s
  reached : ∀ p, p < image.length →
    (∃ s ∈ streams, Covers p s) ∨ file[p]? = image[p]?
  short : file.length ≤ image.length ∨ ∃ s ∈ streams, .truncate ∈ s

variable {image file : Bytes} {before after : List (List FileOp)} {rest : List FileOp}

/-- Somebody else, or the writer in the middle, which is now at `rest`. -/
lemma exists_middle {P : List FileOp → Prop} {s : List FileOp} :
    (∃ t ∈ before ++ s :: after, P t) ↔ P s ∨ ∃ t ∈ before ++ after, P t := by
  simp only [List.mem_append, List.mem_cons]
  constructor
  · rintro ⟨t, ht | rfl | ht, hP⟩
    · exact .inr ⟨t, .inl ht, hP⟩
    · exact .inl hP
    · exact .inr ⟨t, .inr ht, hP⟩
  · rintro (hP | ⟨t, ht | ht, hP⟩)
    · exact ⟨s, .inr (.inl rfl), hP⟩
    · exact ⟨t, .inl ht, hP⟩
    · exact ⟨t, .inr (.inr ht), hP⟩

lemma settles_rest {op : FileOp} (h : Settles image (op :: rest)) : Settles image rest := by
  cases op with
  | truncate => exact h.2
  | write offset bs => exact h.2.2

/-- One operation of one writer. -/
lemma Pending.step {op : FileOp} (pending : Pending image file (before ++ (op :: rest) :: after)) :
    Pending image (op.apply file) (before ++ rest :: after) := by
  obtain ⟨settles, reached, short⟩ := pending
  have own : Settles image (op :: rest) := settles _ (by simp)
  constructor
  · intro s hs
    rw [List.mem_append, List.mem_cons] at hs
    rcases hs with hs | rfl | hs
    · exact settles s (by simp [hs])
    · exact settles_rest own
    · exact settles s (by simp [hs])
  · intro p hp
    rw [exists_middle]
    cases op with
    | truncate => exact .inl (.inl (own.1 p hp))
    | write offset bs =>
      by_cases later : Covers p rest
      · exact .inl (.inl later)
      · by_cases inside : offset ≤ p ∧ p < offset + bs.length
        · right
          rw [FileOp.apply, patch_inside inside.1 inside.2]
          exact own.2.1 p inside.1 inside.2 later
        · have hreached := reached p hp
          rw [exists_middle, covers_write] at hreached
          rcases hreached with ((h | h) | others) | hfile
          · exact absurd h inside
          · exact absurd h later
          · exact .inl (.inr others)
          · right
            have hlength : p < file.length := by
              rw [List.getElem?_eq_getElem hp] at hfile
              exact (List.getElem?_eq_some_iff.mp hfile).1
            rw [FileOp.apply, patch_outside hlength inside, hfile]
  · cases op with
    | truncate => exact .inl (Nat.zero_le _)
    | write offset bs =>
      rcases short with h | h
      · left
        have hinside := own.1
        rw [FileOp.apply, patch_length]
        omega
      · right
        rw [exists_middle] at h ⊢
        rcases h with hmem | others
        · exact .inl ((List.mem_cons.mp hmem).resolve_left nofun)
        · exact .inr others

/-- With nothing left to do the file is the image. -/
lemma Pending.finished {streams : List (List FileOp)} (pending : Pending image file streams)
    (empty : ∀ s ∈ streams, s = []) : file = image := by
  have hshort : file.length ≤ image.length := by
    rcases pending.short with h | ⟨s, hs, hmem⟩
    · exact h
    · rw [empty s hs] at hmem
      cases hmem
  have hbytes : ∀ p, p < image.length → file[p]? = image[p]? := by
    intro p hp
    rcases pending.reached p hp with ⟨s, hs, hcovers⟩ | h
    · rw [empty s hs] at hcovers
      exact absurd hcovers (not_covers_nil p)
    · exact h
  apply List.ext_getElem?
  intro p
  by_cases hp : p < image.length
  · exact hbytes p hp
  · rw [List.getElem?_eq_none (by omega), List.getElem?_eq_none (by omega)]

/-- What is left of the writers brings the file to the image, in whatever order. -/
theorem Pending.settled {streams : List (List FileOp)} {out : List FileOp}
    (shuffles : Shuffles streams out) {file : Bytes} (pending : Pending image file streams) :
    applyAll file out = image := by
  induction shuffles generalizing file with
  | done empty => exact pending.finished empty
  | take later ih => exact ih pending.step

/-- Writers that all truncate the file first, and each settle the same image, leave the image. -/
theorem overlapping_settled {streams : List (List FileOp)} {out : List FileOp}
    (shuffles : Shuffles streams out) (some_writer : streams ≠ [])
    (writers : ∀ s ∈ streams, ∃ ops, s = .truncate :: ops ∧ Settles image s) (file : Bytes) :
    applyAll file out = image := by
  obtain ⟨first, hfirst⟩ := List.exists_mem_of_ne_nil streams some_writer
  obtain ⟨ops, hops, hsettles⟩ := writers first hfirst
  apply Pending.settled shuffles
  constructor
  · intro s hs
    obtain ⟨_, -, h⟩ := writers s hs
    exact h
  · intro p hp
    rw [hops] at hsettles hfirst
    exact .inl ⟨_, hfirst, covers_truncate.mpr (hsettles.1 p hp)⟩
  · exact .inr ⟨first, hfirst, by rw [hops]; exact List.mem_cons_self⟩

end Writers

section Laying

/-- Writes one behind another that put the content between two positions into the file. -/
inductive Lays (content : Bytes) : Nat → List FileOp → Nat → Prop
  | done (offset : Nat) : Lays content offset [] offset
  | write {offset stop : Nat} {bs : Bytes} {ops : List FileOp} (part : bs <+: content.drop offset)
      (rest : Lays content (offset + bs.length) ops stop) :
      Lays content offset (.write offset bs :: ops) stop

variable {content draft image : Bytes} {start middle stop : Nat} {ops more : List FileOp}

lemma Lays.append (first : Lays content start ops middle) (second : Lays content middle more stop) :
    Lays content start (ops ++ more) stop := by
  induction first with
  | done offset => exact second
  | write part rest ih => exact .write part (ih second)

lemma Lays.covers (lays : Lays content start ops stop) {p : Nat} (from_start : start ≤ p)
    (before_stop : p < stop) : Covers p ops := by
  induction lays with
  | done offset => omega
  | @write offset stop bs ops part rest ih =>
    rw [covers_write]
    by_cases inside : p < offset + bs.length
    · exact .inl ⟨from_start, inside⟩
    · exact .inr (ih (by omega) before_stop)

lemma covers_append {p : Nat} : Covers p (ops ++ more) ↔ Covers p ops ∨ Covers p more := by
  constructor
  · rintro ⟨offset, bs, hmem, h⟩
    rcases List.mem_append.mp hmem with hmem | hmem
    · exact .inl ⟨offset, bs, hmem, h⟩
    · exact .inr ⟨offset, bs, hmem, h⟩
  · rintro (⟨offset, bs, hmem, h⟩ | ⟨offset, bs, hmem, h⟩)
    · exact ⟨offset, bs, List.mem_append_left _ hmem, h⟩
    · exact ⟨offset, bs, List.mem_append_right _ hmem, h⟩

/-- What is laid may differ from the image where it is written anew. -/
lemma Lays.settles (lays : Lays draft start ops stop) (inside : start ≤ draft.length)
    (length : draft.length ≤ image.length)
    (agree : ∀ p, ¬ Covers p more → p < draft.length → draft[p]? = image[p]?)
    (later : Settles image more) : Settles image (ops ++ more) := by
  induction lays with
  | done offset => exact later
  | @write offset stop bs ops part rest ih =>
    have hlength := part.length_le
    rw [List.length_drop] at hlength
    rw [List.cons_append]
    refine ⟨by omega, ?_, ih (by omega)⟩
    intro p from_offset before_end hnot
    rw [covers_append, not_or] at hnot
    obtain ⟨behind, hdrop⟩ := part
    rw [← agree p hnot.2 (by omega), ← List.getElem?_append_left (by omega), hdrop,
      List.getElem?_drop, Nat.add_sub_cancel' from_offset]

lemma Lays.le (lays : Lays content start ops stop) : start ≤ stop := by
  induction lays with
  | done offset => exact Nat.le_refl offset
  | write part rest ih => omega

/-- In a file that is long enough the content between the two positions replaces what is there. -/
lemma Lays.applied (lays : Lays content start ops stop) {file : Bytes} (long : stop ≤ file.length)
    (p : Nat) :
    (applyAll file ops)[p]? = if start ≤ p ∧ p < stop then content[p]? else file[p]? := by
  induction lays generalizing file with
  | done offset => rw [if_neg (by omega), applyAll, List.foldl_nil]
  | @write offset stop bs ops part rest ih =>
    have hle := rest.le
    obtain ⟨behind, hdrop⟩ := part
    have hlength : (patch file offset bs).length = file.length := by
      rw [patch_length]
      omega
    change (applyAll (patch file offset bs) ops)[p]? = _
    rw [ih (by omega), getElem?_patch (by omega)]
    by_cases hbefore : p < offset
    · rw [if_neg (by omega), if_pos hbefore, if_neg (by omega)]
    by_cases hinside : p < offset + bs.length
    · rw [if_neg (by omega), if_neg hbefore, if_pos hinside, if_pos (by omega),
        ← List.getElem?_append_left (by omega), hdrop, List.getElem?_drop,
        Nat.add_sub_cancel' (by omega)]
    · by_cases hstop : p < stop
      · rw [if_pos (by omega), if_pos (by omega)]
      · rw [if_neg (by omega), if_neg hbefore, if_neg hinside, if_neg (by omega)]

/-- So what lays the front of a content leaves the rest of the file behind it. -/
lemma Lays.applied_front (lays : Lays content 0 ops stop) (full : stop ≤ content.length)
    {file : Bytes} (long : stop ≤ file.length) :
    applyAll file ops = content.take stop ++ file.drop stop := by
  apply List.ext_getElem?
  intro p
  have hlength : (content.take stop).length = stop := by
    rw [List.length_take]
    omega
  rw [lays.applied long]
  by_cases hp : p < stop
  · rw [if_pos ⟨Nat.zero_le p, hp⟩, List.getElem?_append_left (by omega),
      List.getElem?_take_of_lt hp]
  · rw [if_neg (by omega), List.getElem?_append_right (by omega), hlength, List.getElem?_drop,
      Nat.add_sub_cancel' (by omega)]

/-- Truncate, lay the draft, and lay the front of the image over it. -/
theorem settles_relaid {k : Nat} (first : Lays draft 0 ops draft.length)
    (second : Lays image 0 more k) (length : draft.length = image.length)
    (agree : ∀ p, k ≤ p → draft[p]? = image[p]?) : Settles image (.truncate :: (ops ++ more)) := by
  constructor
  · intro p hp
    exact covers_append.mpr (.inl (first.covers (Nat.zero_le p) (by omega)))
  · have hmore := @Lays.settles image image 0 k more [] second (Nat.zero_le _) (Nat.le_refl _)
      (fun p _ _ => rfl) trivial
    rw [List.append_nil] at hmore
    refine first.settles (Nat.zero_le _) length.le ?_ hmore
    intro p hnot _
    by_cases front : p < k
    · exact absurd (second.covers (Nat.zero_le p) front) hnot
    · exact agree p (by omega)

end Laying

end OverlappingWriters
