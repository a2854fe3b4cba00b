import Mathlib.Data.List.Nodup
import Mathlib.Tactic.Lemma

/-!
# Descriptors of a process

A process holds numbers below a limit; a new one is the lowest that is free. A
log of openings, reads and closings is nested when every call concerns the
number that was opened last and is still open.
-/
namespace DescriptorTable

structure Table where
  limit : Nat
  inUse : List Nat

namespace Table

def free (t : Table) : List Nat := (List.range t.limit).filter (fun n => n ∉ t.inUse)

/-- The lowest free number, and the table in which it is in use. -/
def openNext (t : Table) : Option (Nat × Table) :=
  t.free.head?.map (fun n => (n, { t with inUse := n :: t.inUse }))

def close (t : Table) (n : Nat) : Table := { t with inUse := t.inUse.erase n }

lemma mem_free {t : Table} {n : Nat} : n ∈ t.free ↔ n < t.limit ∧ n ∉ t.inUse := by
  rw [free, List.mem_filter, List.mem_range, decide_eq_true_eq]

lemma openNext_eq_none {t : Table} : t.openNext = none ↔ t.free.length = 0 := by
  rw [openNext, Option.map_eq_none_iff, List.head?_eq_none_iff, List.length_eq_zero_iff]

/-- What opening does: a fresh number is in use, and one fewer is free. -/
lemma openNext_spec {t t' : Table} {n : Nat} (opened : t.openNext = some (n, t')) :
    n < t.limit ∧ n ∉ t.inUse ∧ t' = { t with inUse := n :: t.inUse } ∧
      t'.free.length + 1 = t.free.length := by
  obtain ⟨m, hhead, heq⟩ := Option.map_eq_some_iff.mp opened
  obtain ⟨rfl, rfl⟩ := Prod.mk.inj heq
  have hmem : m ∈ t.free := List.mem_of_head? hhead
  obtain ⟨hlt, hfresh⟩ := mem_free.mp hmem
  refine ⟨hlt, hfresh, rfl, ?_⟩
  have hless : ({ t with inUse := m :: t.inUse } : Table).free = t.free.erase m := by
    have hnodup : t.free.Nodup := List.nodup_range.filter _
    rw [hnodup.erase_eq_filter, free, free, List.filter_filter]
    apply List.filter_congr
    intro x _
    rw [Bool.eq_iff_iff]
    simp
  rw [hless, List.length_erase_of_mem hmem]
  have hpos := List.length_pos_of_mem hmem
  omega

lemma close_cons (t : Table) (n : Nat) :
    ({ t with inUse := n :: t.inUse } : Table).close n = t := by
  rw [close, List.erase_cons_head]

end Table

/-- A call that opens a number below another one or from nothing, reads it or closes it. -/
inductive Call where
  | opened (via : Option Nat) (n : Nat)
  | refused (via : Option Nat)
  | read (n : Nat)
  | closed (n : Nat)
  deriving DecidableEq

/-- A call that opens concerns the last number, or none. -/
def Above (held : List Nat) (via : Option Nat) : Prop := via = none ∨ via = held.head?

instance (held : List Nat) (via : Option Nat) : Decidable (Above held via) :=
  inferInstanceAs (Decidable (_ ∨ _))

/-- The open numbers after a call, the last one first; `none` when the call concerns another than
the last one or opens one that is open. -/
def follow (held : List Nat) : Call → Option (List Nat)
  | .opened via n => if Above held via ∧ n ∉ held then some (n :: held) else none
  | .refused via => if Above held via then some held else none
  | .read n => if held.head? = some n then some held else none
  | .closed n => if held.head? = some n then some held.tail else none

/-- A whole log, from the numbers held before it to those held behind it. -/
def Nested (held : List Nat) (calls : List Call) (after : List Nat) : Prop :=
  calls.foldlM follow held = some after

lemma Nested.nil (held : List Nat) : Nested held [] held := rfl

lemma Nested.append {held between after : List Nat} {calls calls' : List Call}
    (first : Nested held calls between) (second : Nested between calls' after) :
    Nested held (calls ++ calls') after := by
  rw [Nested, List.foldlM_append, first]
  exact second

lemma Nested.single {held after : List Nat} {call : Call} (h : follow held call = some after) :
    Nested held [call] after := by
  rw [Nested, List.foldlM_cons, h]
  rfl

lemma follow_read (n : Nat) (held : List Nat) : follow (n :: held) (.read n) = some (n :: held) :=
  if_pos rfl

lemma follow_refused {held : List Nat} {via : Option Nat} (above : Above held via) :
    follow held (.refused via) = some held := if_pos above

lemma follow_opened {n : Nat} {held : List Nat} {via : Option Nat} (above : Above held via)
    (fresh : n ∉ held) : follow held (.opened via n) = some (n :: held) := if_pos ⟨above, fresh⟩

lemma follow_closed (n : Nat) (held : List Nat) : follow (n :: held) (.closed n) = some held :=
  if_pos rfl

end DescriptorTable
