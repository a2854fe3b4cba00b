import Mathlib.Data.List.Basic
import Mathlib.Tactic.Lemma

/-!
# Computations that may fail

`Returns` and `Fails` say which way a computation ends. A sequence returns when
each of its steps does, and fails in its first step or in the rest.
-/
namespace Outcome
universe u v
variable {ε : Type u} {α β : Type v}

/-- A value came out. -/
def Returns (x : Except ε α) : Prop := ∃ a, x = .ok a

/-- An error came out. -/
def Fails (x : Except ε α) : Prop := ∃ e, x = .error e

lemma bind_ok {x : Except ε α} {f : α → Except ε β} {b : β} (h : (x >>= f) = .ok b) :
    ∃ a, x = .ok a ∧ f a = .ok b := by
  cases x with
  | error e => cases h
  | ok a => exact ⟨a, rfl, h⟩

@[simp] lemma returns_ok (a : α) : Returns (.ok a : Except ε α) := ⟨a, rfl⟩

@[simp] lemma not_returns_error (e : ε) : ¬ Returns (.error e : Except ε α) := by
  rintro ⟨a, h⟩
  cases h

lemma returns_bind {x : Except ε α} {f : α → Except ε β} :
    Returns (x >>= f) ↔ ∃ a, x = .ok a ∧ Returns (f a) := by
  constructor
  · rintro ⟨b, hb⟩
    obtain ⟨a, ha, hf⟩ := bind_ok hb
    exact ⟨a, ha, b, hf⟩
  · rintro ⟨a, rfl, b, hb⟩
    exact ⟨b, hb⟩

/-- A rest that returns for every value asks nothing. -/
lemma returns_bind_total {x : Except ε α} {f : α → Except ε β} (total : ∀ a, Returns (f a)) :
    Returns (x >>= f) ↔ Returns x := by
  rw [returns_bind]
  constructor
  · rintro ⟨a, ha, _⟩
    exact ⟨a, ha⟩
  · rintro ⟨a, ha⟩
    exact ⟨a, ha, total a⟩

lemma returns_mapM {f : α → Except ε β} {l : List α} :
    Returns (l.mapM f) ↔ ∀ a ∈ l, Returns (f a) := by
  induction l with
  | nil => exact iff_of_true ⟨[], rfl⟩ (fun a ha => by cases ha)
  | cons a rest ih =>
    rw [List.forall_mem_cons, ← ih, List.mapM_cons]
    constructor
    · intro h
      obtain ⟨b, hb, hrest⟩ := returns_bind.mp h
      obtain ⟨bs, hbs, _⟩ := returns_bind.mp hrest
      exact ⟨⟨b, hb⟩, bs, hbs⟩
    · rintro ⟨⟨b, hb⟩, bs, hbs⟩
      exact returns_bind.mpr ⟨b, hb, returns_bind.mpr ⟨bs, hbs, b :: bs, rfl⟩⟩

/-- What ends the one step or the rest ends a sequence. -/
lemma bind_error {P : ε → Prop} {x : Except ε α} {f : α → Except ε β} {e : ε}
    (h : (x >>= f) = .error e) (first : ∀ e, x = .error e → P e)
    (rest : ∀ a e, f a = .error e → P e) : P e := by
  cases x with
  | error e' =>
    cases h
    exact first e rfl
  | ok a => exact rest a e h

/-- A list of steps is ended by one of them. -/
lemma mapM_error {P : ε → Prop} {f : α → Except ε β} {l : List α} {e : ε}
    (h : l.mapM f = .error e) (each : ∀ a ∈ l, ∀ e, f a = .error e → P e) : P e := by
  induction l generalizing e with
  | nil => cases h
  | cons a rest ih =>
    rw [List.mapM_cons] at h
    refine bind_error h (each a List.mem_cons_self) fun b e' hrest => ?_
    refine bind_error hrest (fun e'' herror => ?_) (fun _ _ hlast => by cases hlast)
    exact ih herror (fun a' ha' => each a' (List.mem_cons_of_mem a ha'))

/-- Steps whose values are known give the list of the values. -/
lemma mapM_of_ok {f : α → Except ε β} {g : α → β} {l : List α} (h : ∀ a ∈ l, f a = .ok (g a)) :
    l.mapM f = .ok (l.map g) := by
  induction l with
  | nil => rfl
  | cons a rest ih =>
    rw [List.mapM_cons, h a List.mem_cons_self, ih (fun b hb => h b (List.mem_cons_of_mem a hb))]
    rfl

lemma not_fails_ok (a : α) : ¬ Fails (.ok a : Except ε α) := by
  rintro ⟨e, h⟩
  cases h

/-- A computation whose rest fails alike for every value fails in its first step or there. -/
lemma then_fails {x : Except ε α} {f : α → Except ε β} {p : Prop}
    (rest : ∀ a, Fails (f a) ↔ p) : Fails (x >>= f) ↔ Fails x ∨ p := by
  cases x with
  | error e => exact iff_of_true ⟨e, rfl⟩ (Or.inl ⟨e, rfl⟩)
  | ok a =>
    refine (rest a).trans ⟨Or.inr, ?_⟩
    rintro (h | hp)
    · exact absurd h (not_fails_ok a)
    · exact hp

/-- A last step that only shapes the value does not fail. -/
lemma last_fails {x : Except ε α} {f : α → β} :
    Fails (x >>= fun a => (.ok (f a) : Except ε β)) ↔ Fails x :=
  (then_fails fun a => iff_of_false (not_fails_ok (f a)) id).trans (iff_of_eq (or_false _))

section Folds
universe w
variable {σ : Type v} {τ : Type w} {f : σ → τ → Except ε σ}

lemma foldlM_cons_ok {s s' : σ} {a : τ} {l : List τ} (h : (a :: l).foldlM f s = .ok s') :
    ∃ s₁, f s a = .ok s₁ ∧ l.foldlM f s₁ = .ok s' := by
  rw [List.foldlM_cons] at h
  exact bind_ok h

/-- What every step keeps, the whole fold keeps. -/
lemma foldlM_keeps {P : σ → Prop} (step : ∀ s a s', P s → f s a = .ok s' → P s') {l : List τ}
    {s s' : σ} (start : P s) (h : l.foldlM f s = .ok s') : P s' := by
  induction l generalizing s with
  | nil =>
    cases h
    exact start
  | cons a l ih =>
    obtain ⟨s₁, ha, hl⟩ := foldlM_cons_ok h
    exact ih (step s a s₁ start ha) hl

/-- What holds after a step if it held or the step brought it about, holds after the fold if it
held or one of the steps brought it about. -/
lemma foldlM_recorded {Q : σ → Prop} {R : τ → Prop}
    (step : ∀ s a s', f s a = .ok s' → (Q s' ↔ Q s ∨ R a)) {l : List τ} {s s' : σ}
    (h : l.foldlM f s = .ok s') : Q s' ↔ Q s ∨ ∃ a ∈ l, R a := by
  induction l generalizing s with
  | nil =>
    cases h
    simp
  | cons a l ih =>
    obtain ⟨s₁, ha, hl⟩ := foldlM_cons_ok h
    rw [ih hl, step s a s₁ ha, List.exists_mem_cons_iff, or_assoc]

/-- Every step of a fold that returns has returned. -/
lemma foldlM_step_ok {l : List τ} {s s' : σ} (h : l.foldlM f s = .ok s') {a : τ} (ha : a ∈ l) :
    ∃ s₁ s₂, f s₁ a = .ok s₂ := by
  induction l generalizing s with
  | nil => cases ha
  | cons b l ih =>
    obtain ⟨s₁, hb, hl⟩ := foldlM_cons_ok h
    cases ha with
    | head => exact ⟨s, s₁, hb⟩
    | tail _ ha => exact ih hl ha

/-- A fold fails in one of its steps, with the error of that step. -/
lemma foldlM_fails {l : List τ} {s : σ} {e : ε} (h : l.foldlM f s = .error e) :
    ∃ before a after s₁, l = before ++ a :: after ∧ before.foldlM f s = .ok s₁ ∧
      f s₁ a = .error e := by
  induction l generalizing s with
  | nil => cases h
  | cons a l ih =>
    rw [List.foldlM_cons] at h
    cases hstep : f s a with
    | error e' =>
      rw [hstep] at h
      cases h
      exact ⟨[], a, l, s, rfl, rfl, hstep⟩
    | ok s₁ =>
      rw [hstep] at h
      obtain ⟨before, b, after, s₂, rfl, hbefore, hb⟩ := ih h
      exact ⟨a :: before, b, after, s₂, rfl, by rw [List.foldlM_cons, hstep]; exact hbefore, hb⟩

end Folds
end Outcome
