import Mathlib.Data.List.Basic
import Mathlib.Tactic.Lemma

/-!
# Texts that show where they end

A writer is self-delimiting if what it writes can be told apart from whatever
follows: two written values with something behind them agree only if the values
and what is behind them do. Fixed widths, a terminator that the values do not
have, and terminated lists of terminated items are self-delimiting.
-/
namespace SelfDelimiting
universe u v
variable {α : Type u} {β : Type v}

def ShowsEnd (valid : α → Prop) (write : α → List β) : Prop :=
  ∀ x y, valid x → valid y → ∀ after later, write x ++ after = write y ++ later →
    x = y ∧ after = later

/-- Different values of one width. -/
lemma of_width {write : α → List β} {width : Nat} (widths : ∀ x, (write x).length = width)
    (injective : ∀ x y, write x = write y → x = y) :
    ShowsEnd (fun _ => True) write := by
  intro x y _ _ after later h
  obtain ⟨hwritten, hafter⟩ := List.append_inj h ((widths x).trans (widths y).symm)
  exact ⟨injective x y hwritten, hafter⟩

/-- What is written of a list, one value after the other, shows the values. -/
lemma ShowsEnd.flatMap {valid : α → Prop} {write : α → List β} (shows : ShowsEnd valid write)
    (nonempty : ∀ x, write x ≠ []) {xs ys : List α} (hxs : ∀ x ∈ xs, valid x)
    (hys : ∀ y ∈ ys, valid y) (h : xs.flatMap write = ys.flatMap write) : xs = ys := by
  induction xs generalizing ys with
  | nil =>
    cases ys with
    | nil => rfl
    | cons y ys =>
      rw [List.flatMap_nil, List.flatMap_cons] at h
      exact absurd (List.append_eq_nil_iff.mp h.symm).1 (nonempty y)
  | cons x xs ih =>
    cases ys with
    | nil =>
      rw [List.flatMap_nil, List.flatMap_cons] at h
      exact absurd (List.append_eq_nil_iff.mp h).1 (nonempty x)
    | cons y ys =>
      rw [List.flatMap_cons, List.flatMap_cons] at h
      obtain ⟨hfirst, hrest⟩ :=
        shows x y (hxs x List.mem_cons_self) (hys y List.mem_cons_self) _ _ h
      have hmore := ih (fun z hz => hxs z (List.mem_cons_of_mem x hz))
        (fun z hz => hys z (List.mem_cons_of_mem y hz)) hrest
      rw [hfirst, hmore]

variable (terminator : β)

variable {terminator} in
/-- The first terminator is where the texts before it end. -/
lemma split_at_terminator {x y after later : List β} (hx : terminator ∉ x) (hy : terminator ∉ y)
    (h : x ++ terminator :: after = y ++ terminator :: later) : x = y ∧ after = later := by
  induction x generalizing y with
  | nil =>
    cases y with
    | nil => exact ⟨rfl, (List.cons.inj h).2⟩
    | cons b y => exact absurd (List.cons.inj h).1 (fun heq => hy (heq ▸ List.mem_cons_self))
  | cons a x ih =>
    cases y with
    | nil => exact absurd (List.cons.inj h).1 (fun heq => hx (heq ▸ List.mem_cons_self))
    | cons b y =>
      obtain ⟨hfirst, hrest⟩ := List.cons.inj h
      obtain ⟨hmore, hafter⟩ := ih (fun hmem => hx (List.mem_cons_of_mem _ hmem))
        (fun hmem => hy (List.mem_cons_of_mem _ hmem)) hrest
      exact ⟨by rw [hfirst, hmore], hafter⟩

variable {terminator} in
/-- The last terminator is where the texts behind it begin. -/
lemma split_at_last {x y after later : List β} (hafter : terminator ∉ after)
    (hlater : terminator ∉ later) (h : x ++ terminator :: after = y ++ terminator :: later) :
    x = y ∧ after = later := by
  have hreversed : after.reverse ++ terminator :: x.reverse =
      later.reverse ++ terminator :: y.reverse := by
    have hboth := congrArg List.reverse h
    rwa [List.reverse_append, List.reverse_append, List.reverse_cons, List.reverse_cons,
      List.append_assoc, List.append_assoc] at hboth
  obtain ⟨hbehind, hfront⟩ := split_at_terminator (mt List.mem_reverse.mp hafter)
    (mt List.mem_reverse.mp hlater) hreversed
  exact ⟨List.reverse_injective hfront, List.reverse_injective hbehind⟩

variable {terminator} in
/-- A run of terminators in front of something else shows how long it is. -/
lemma leading_run {x y : List β} (hx : x.head? ≠ some terminator) (hy : y.head? ≠ some terminator)
    {m n : Nat} (h : List.replicate m terminator ++ x = List.replicate n terminator ++ y) :
    m = n ∧ x = y := by
  induction m generalizing n with
  | zero =>
    cases n with
    | zero => exact ⟨rfl, h⟩
    | succ n =>
      rw [List.replicate_zero, List.nil_append] at h
      exact absurd (by rw [h]; rfl) hx
  | succ m ih =>
    cases n with
    | zero =>
      rw [List.replicate_zero, List.nil_append] at h
      exact absurd (by rw [← h]; rfl) hy
    | succ n =>
      obtain ⟨hmn, hrest⟩ := ih (List.cons.inj h).2
      exact ⟨congrArg Nat.succ hmn, hrest⟩

/-- A text and a terminator that is not in it. -/
lemma of_terminator : ShowsEnd (fun x => terminator ∉ x) (fun x => x ++ [terminator]) := by
  intro x y hx hy after later h
  rw [List.append_assoc, List.append_assoc] at h
  exact split_at_terminator hx hy h

/-- An item that can stand in a terminated list. -/
def Item (item : List β) : Prop := item ≠ [] ∧ terminator ∉ item

def writeList (items : List (List β)) : List β :=
  items.flatMap (fun item => item ++ [terminator]) ++ [terminator]

lemma writeList_cons (item : List β) (rest : List (List β)) (after : List β) :
    writeList terminator (item :: rest) ++ after =
      (item ++ [terminator]) ++ (writeList terminator rest ++ after) := by
  simp [writeList]

lemma writeList_nil (after : List β) : writeList terminator [] ++ after = terminator :: after := rfl

lemma item_ne_end {item rest after : List β} (h : Item terminator item) :
    terminator :: after ≠ (item ++ [terminator]) ++ rest := by
  obtain ⟨hne, hnot⟩ := h
  obtain ⟨first, more, rfl⟩ := List.exists_cons_of_ne_nil hne
  intro heq
  exact hnot ((List.cons.inj heq).1 ▸ List.mem_cons_self)

/-- A list of terminated items and a terminator behind the last one. -/
theorem of_list : ShowsEnd (fun items => ∀ item ∈ items, Item terminator item)
    (writeList terminator) := by
  intro items
  induction items with
  | nil =>
    intro others _ hothers after later h
    cases others with
    | nil => exact ⟨rfl, (List.cons.inj h).2⟩
    | cons other rest =>
      rw [writeList_nil, writeList_cons] at h
      exact absurd h (item_ne_end terminator (hothers other List.mem_cons_self))
  | cons item rest ih =>
    intro others hitems hothers after later h
    cases others with
    | nil =>
      rw [writeList_nil, writeList_cons] at h
      exact absurd h.symm (item_ne_end terminator (hitems item List.mem_cons_self))
    | cons other more =>
      rw [writeList_cons, writeList_cons] at h
      obtain ⟨hitem, hrest⟩ := of_terminator terminator item other
        (hitems item List.mem_cons_self).2 (hothers other List.mem_cons_self).2 _ _ h
      obtain ⟨hmore, hafter⟩ := ih more (fun x hx => hitems x (List.mem_cons_of_mem _ hx))
        (fun x hx => hothers x (List.mem_cons_of_mem _ hx)) _ _ hrest
      exact ⟨by rw [hitem, hmore], hafter⟩

/-- A terminated list with a run of terminators in front. -/
def writeLed (lead : Nat) (items : List (List β)) : List β :=
  List.replicate lead terminator ++ writeList terminator items

variable {terminator}

lemma item_head {item : List β} (h : Item terminator item) (after : List β) :
    (item ++ after).head? ≠ some terminator := by
  obtain ⟨hne, hnot⟩ := h
  obtain ⟨first, more, rfl⟩ := List.exists_cons_of_ne_nil hne
  intro heq
  exact hnot (List.mem_cons.mpr (.inl (Option.some.inj heq).symm))

lemma writeLed_nil (lead : Nat) (after : List β) :
    writeLed terminator lead [] ++ after = List.replicate (lead + 1) terminator ++ after := by
  simp [writeLed, writeList, List.replicate_succ']

lemma writeLed_cons (lead : Nat) (item : List β) (rest : List (List β)) (after : List β) :
    writeLed terminator lead (item :: rest) ++ after =
      List.replicate lead terminator ++
        (item ++ terminator :: (writeList terminator rest ++ after)) := by
  simp [writeLed, writeList]

/-- An empty led list with a name behind it reads like one that begins with this name. -/
def TakesName (name : List β) (lead : Nat) (items : List (List β)) (after : List β) (lead' : Nat)
    (items' : List (List β)) (after' : List β) : Prop :=
  items = [] ∧ lead' = lead + 1 ∧ ∃ rest, items' = name :: rest ∧
    after = writeList terminator rest ++ (name ++ terminator :: after')

/-- Led lists with a name behind them are told apart, but for the name. -/
theorem led_cases {name : List β} (hname : Item terminator name) {lead lead' : Nat}
    {items items' : List (List β)} (hitems : ∀ item ∈ items, Item terminator item)
    (hitems' : ∀ item ∈ items', Item terminator item) {after after' : List β}
    (h : writeLed terminator lead items ++ (name ++ terminator :: after) =
      writeLed terminator lead' items' ++ (name ++ terminator :: after')) :
    (lead = lead' ∧ items = items' ∧ after = after') ∨
      @TakesName _ terminator name lead items after lead' items' after' ∨
      @TakesName _ terminator name lead' items' after' lead items after := by
  cases items with
  | nil =>
    rw [writeLed_nil] at h
    cases items' with
    | nil =>
      rw [writeLed_nil] at h
      obtain ⟨hlead, hrest⟩ := leading_run (item_head hname _) (item_head hname _) h
      exact .inl ⟨by omega, rfl, (split_at_terminator hname.2 hname.2 hrest).2⟩
    | cons item' rest' =>
      have hitem' := hitems' item' List.mem_cons_self
      rw [writeLed_cons] at h
      obtain ⟨hlead, hrest⟩ := leading_run (item_head hname _) (item_head hitem' _) h
      obtain ⟨rfl, hafter⟩ := split_at_terminator hname.2 hitem'.2 hrest
      exact .inr (.inl ⟨rfl, hlead.symm, rest', rfl, hafter⟩)
  | cons item rest =>
    have hitem := hitems item List.mem_cons_self
    rw [writeLed_cons] at h
    cases items' with
    | nil =>
      rw [writeLed_nil] at h
      obtain ⟨hlead, hrest⟩ := leading_run (item_head hitem _) (item_head hname _) h
      obtain ⟨rfl, hafter⟩ := split_at_terminator hitem.2 hname.2 hrest
      exact .inr (.inr ⟨rfl, hlead, rest, rfl, hafter.symm⟩)
    | cons item' rest' =>
      have hitem' := hitems' item' List.mem_cons_self
      rw [writeLed_cons] at h
      obtain ⟨hlead, hrest⟩ := leading_run (item_head hitem _) (item_head hitem' _) h
      obtain ⟨hitem_eq, hmore⟩ := split_at_terminator hitem.2 hitem'.2 hrest
      obtain ⟨hrest_eq, hafter⟩ := of_list terminator rest rest'
        (fun x hx => hitems x (List.mem_cons_of_mem _ hx))
        (fun x hx => hitems' x (List.mem_cons_of_mem _ hx)) _ _ hmore
      exact .inl ⟨hlead, by rw [hitem_eq, hrest_eq],
        (split_at_terminator hname.2 hname.2 hafter).2⟩

end SelfDelimiting
