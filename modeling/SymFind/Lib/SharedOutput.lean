import Mathlib.Logic.Relation
import Mathlib.Order.RelClasses
import SymFind.Lib.Shuffle

/-!
# Parties that write to one output

Each party is a deterministic machine that may write an item in a step, and it
may fall. Only the output is shared: what an interleaving of the parties writes
is a shuffle of what each of them writes on its own, and every such shuffle is
written by some interleaving.
-/
namespace SharedOutput
open Shuffle
universe u v w
variable {σ : Type u} {ε : Type v} {α : Type w}

/-- One of the parties takes a step, and what it writes goes behind what is there. -/
inductive Step (next : σ → Option (Except ε (σ × Option α))) :
    List σ × List α → List σ × List α → Prop
  | party {before after : List σ} {s s' : σ} {item : Option α} {out : List α}
      (moves : next s = some (.ok (s', item))) :
      Step next (before ++ s :: after, out) (before ++ s' :: after, out ++ item.toList)

abbrev Steps (next : σ → Option (Except ε (σ × Option α))) :
    List σ × List α → List σ × List α → Prop :=
  Relation.ReflTransGen (Step next)

/-- A party on its own, and what it writes. -/
inductive Alone (next : σ → Option (Except ε (σ × Option α))) : σ → List α → σ → Prop
  | refl (s : σ) : Alone next s [] s
  | step {s t s' : σ} {item : Option α} {log : List α} (moves : next s = some (.ok (t, item)))
      (later : Alone next t log s') : Alone next s (item.toList ++ log) s'

variable {next : σ → Option (Except ε (σ × Option α))}

/-- Between any two items that it writes a party can be found. -/
lemma Alone.split {s s' : σ} {front rest : List α} (alone : Alone next s (front ++ rest) s') :
    ∃ t, Alone next s front t ∧ Alone next t rest s' := by
  generalize hlog : front ++ rest = log at alone
  induction alone generalizing front with
  | refl s =>
    obtain ⟨rfl, rfl⟩ := List.append_eq_nil_iff.mp hlog
    exact ⟨s, .refl s, .refl s⟩
  | @step s t s' item log moves later ih =>
    cases item with
    | none =>
      obtain ⟨t', hfront, hrest⟩ := ih hlog
      exact ⟨t', .step moves hfront, hrest⟩
    | some a =>
      cases front with
      | nil =>
        rw [List.nil_append] at hlog
        exact ⟨s, .refl s, hlog ▸ .step moves later⟩
      | cons b front =>
        obtain ⟨rfl, hlater⟩ := List.cons.inj hlog
        obtain ⟨t', hfront, hrest⟩ := ih hlater
        exact ⟨t', .step moves hfront, hrest⟩

/-- Among others a party does what it does on its own. -/
lemma Alone.among {s s' : σ} {log : List α} (alone : Alone next s log s') (before after : List σ)
    (out : List α) :
    Steps next (before ++ s :: after, out) (before ++ s' :: after, out ++ log) := by
  induction alone generalizing out with
  | refl s => rw [List.append_nil]
  | step moves later ih =>
    rw [← List.append_assoc]
    exact .head (.party moves) (ih _)

/-- Any party can go on until it stops or falls. -/
lemma exists_end {μ : Type*} [LT μ] [WellFoundedLT μ] {measure : σ → μ}
    (lowers : ∀ s s' item, next s = some (.ok (s', item)) → measure s' < measure s) (s : σ) :
    ∃ log s', Alone next s log s' ∧ ∀ t item, next s' ≠ some (.ok (t, item)) := by
  induction h : measure s using WellFoundedLT.induction generalizing s with
  | ind work ih =>
    by_cases moves : ∃ t item, next s = some (.ok (t, item))
    · obtain ⟨t, item, moves⟩ := moves
      obtain ⟨log, s', alone, ended⟩ := ih (measure t) (h ▸ lowers s t item moves) t rfl
      exact ⟨item.toList ++ log, s', .step moves alone, ended⟩
    · exact ⟨[], s, .refl s, fun t item hmoves => moves ⟨t, item, hmoves⟩⟩

/-- A run of one party. -/
structure Run (next : σ → Option (Except ε (σ × Option α))) where
  first : σ
  log : List α
  last : σ
  alone : Alone next first log last

/-- Parties that write nothing more may take their last steps one after the other. -/
lemma steps_of_silent (runs : List (Run next)) (silent : ∀ r ∈ runs, r.log = [])
    (before : List σ) (out : List α) :
    Steps next (before ++ runs.map Run.first, out) (before ++ runs.map Run.last, out) := by
  induction runs generalizing before with
  | nil => exact .refl
  | cons r rest ih =>
    have hfirst := r.alone.among before (rest.map Run.first) out
    rw [silent r List.mem_cons_self, List.append_nil] at hfirst
    have hrest := ih (fun q hq => silent q (List.mem_cons_of_mem r hq)) (before ++ [r.last])
    rw [List.append_assoc, List.append_assoc] at hrest
    exact hfirst.trans hrest

/-- The runs of the parties can be interleaved as their items are shuffled. -/
lemma steps_of_shuffles {runs : List (Run next)} {more : List α}
    (shuffles : Shuffles (runs.map Run.log) more) (out : List α) :
    Steps next (runs.map Run.first, out) (runs.map Run.last, out ++ more) := by
  generalize hlogs : runs.map Run.log = logs at shuffles
  induction shuffles generalizing runs out with
  | done empty =>
    subst hlogs
    rw [List.append_nil]
    exact steps_of_silent runs (fun r hr => empty r.log (List.mem_map_of_mem hr)) [] out
  | @take before after a rest more later ih =>
    obtain ⟨before, runs', rfl, rfl, hrest⟩ := List.map_eq_append_iff.mp hlogs
    obtain ⟨r, after, rfl, hlog, rfl⟩ := List.map_eq_cons_iff.mp hrest
    obtain ⟨t, hitem, halone⟩ := @Alone.split _ _ _ _ _ _ [a] rest (hlog ▸ r.alone)
    have hlater := @ih (before ++ ⟨t, rest, r.last, halone⟩ :: after) (out ++ [a]) (by simp)
    have hfirst := hitem.among (before.map Run.first) (after.map Run.first) out
    simp only [List.map_append, List.map_cons, List.append_assoc, List.singleton_append]
      at hlater hfirst ⊢
    exact hfirst.trans hlater

/-- What parties write together is a shuffle of what they write on their own, in their own runs,
and any such shuffle may be written. -/
theorem steps_iff {ws ws' : List σ} {out out' : List α} :
    Steps next (ws, out) (ws', out') ↔ ∃ (runs : List (Run next)) (more : List α),
      runs.map Run.first = ws ∧ runs.map Run.last = ws' ∧ Shuffles (runs.map Run.log) more ∧
        out' = out ++ more := by
  constructor
  · intro steps
    generalize hstart : (ws, out) = start at steps
    induction steps using Relation.ReflTransGen.head_induction_on generalizing ws out with
    | refl =>
      cases hstart
      refine ⟨ws'.map (fun s => ⟨s, [], s, .refl s⟩), [], ?_, ?_, .done ?_, ?_⟩
      · rw [List.map_map]
        exact List.map_id ws'
      · rw [List.map_map]
        exact List.map_id ws'
      · intro log hlog
        obtain ⟨r, hr, rfl⟩ := List.mem_map.mp hlog
        obtain ⟨s, -, rfl⟩ := List.mem_map.mp hr
        rfl
      · rw [List.append_nil]
    | head step _ ih =>
      cases step with
      | @party before after s s' item _ moves =>
        cases hstart
        obtain ⟨runs, more, hfirst, hlast, hshuffles, hout⟩ := ih rfl
        obtain ⟨before, runs', rfl, rfl, hrest⟩ := List.map_eq_append_iff.mp hfirst
        obtain ⟨r, after, rfl, rfl, rfl⟩ := List.map_eq_cons_iff.mp hrest
        refine ⟨before ++ ⟨s, item.toList ++ r.log, r.last, .step moves r.alone⟩ :: after,
          item.toList ++ more, ?_, ?_, ?_, ?_⟩
        · rw [List.map_append, List.map_cons]
        · rw [← hlast, List.map_append, List.map_append, List.map_cons, List.map_cons]
        · rw [List.map_append, List.map_cons] at hshuffles ⊢
          exact hshuffles.advance item.toList
        · rw [hout, List.append_assoc]
  · rintro ⟨runs, more, rfl, rfl, shuffles, rfl⟩
    exact steps_of_shuffles shuffles out

/-- From any state the parties can go on until each of them stops or falls. -/
theorem exists_ended {μ : Type*} [LT μ] [WellFoundedLT μ] {measure : σ → μ}
    (lowers : ∀ s s' item, next s = some (.ok (s', item)) → measure s' < measure s)
    (ws : List σ) (out : List α) :
    ∃ ws' more, Steps next (ws, out) (ws', out ++ more) ∧
      ∀ s ∈ ws', ∀ t item, next s ≠ some (.ok (t, item)) := by
  obtain ⟨runs, rfl, ended⟩ : ∃ runs : List (Run next), runs.map Run.first = ws ∧
      ∀ r ∈ runs, ∀ t item, next r.last ≠ some (.ok (t, item)) := by
    induction ws with
    | nil => exact ⟨[], rfl, nofun⟩
    | cons s ws ih =>
      obtain ⟨runs, rfl, ended⟩ := ih
      obtain ⟨log, s', alone, hs'⟩ := exists_end lowers s
      exact ⟨⟨s, log, s', alone⟩ :: runs, rfl, List.forall_mem_cons.mpr ⟨hs', ended⟩⟩
  refine ⟨_, _, steps_of_shuffles (shuffles_flatten (runs.map Run.log)) out, ?_⟩
  intro s hs
  obtain ⟨r, hr, rfl⟩ := List.mem_map.mp hs
  exact ended r hr

end SharedOutput
