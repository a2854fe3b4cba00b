import SymFind.Filesystem.BindMounts
import SymFind.Lib.Outcome
import SymFind.Lib.StepWalk

/-!
# Pruned status along the parents

The search for a pruned ancestor climbs from a mount to its parent until the
cache or a mount decides. It ends unless the climb comes to a mount that is its
own ancestor. When it ends for every entry, what is left is exactly the entries
without a pruned mount above them.
-/
namespace PrunedInheritance
open RecordCodec SymbolData InsertionMap Machine Config MountInfo BindMounts StepWalk Outcome

variable {entries : MountEntries}

section Search

/-- The parent asked next, when neither the cache nor the mount decides. -/
def climb (entries : MountEntries) (cache : Map Int Bool) (id : Int) : Option Int :=
  if (cache.get id).isSome then none
  else
    match idToMount entries id with
    | none => none
    | some mount =>
      if mount.prunedDueToFsType || mount.prunedDueToPath then none
      else if mount.parentId ≠ 0 then some mount.parentId
      else none

/-- One call either answers at once or asks for the parent. -/
lemma findWhetherUnderPruned_step (fuel : Nat) (id : Int) (cache : Map Int Bool) :
    Returns (findWhetherUnderPruned entries (fuel + 1) id cache) ↔
      ∀ parent, climb entries cache id = some parent →
        Returns (findWhetherUnderPruned entries fuel parent cache) := by
  rw [findWhetherUnderPruned, climb]
  cases hget : cache.get id with
  | some stored => simp
  | none =>
    cases known : idToMount entries id with
    | none => simp
    | some mount =>
      by_cases hpruned : (mount.prunedDueToFsType || mount.prunedDueToPath) = true
      · simp [hpruned]
      · by_cases hparent : mount.parentId ≠ 0
        · simp only [Option.isSome_none, Bool.false_eq_true, if_neg hpruned, if_pos hparent,
            if_false, Option.some.injEq, forall_eq']
          cases findWhetherUnderPruned entries fuel mount.parentId cache <;> simp
        · simp [hpruned, hparent]

/-- Each call inside another one takes one step of the climb. -/
lemma findWhetherUnderPruned_returns_iff (fuel : Nat) (id : Int) (cache : Map Int Bool) :
    Returns (findWhetherUnderPruned entries fuel id cache) ↔
      walk (climb entries cache) fuel id = none := by
  induction fuel generalizing id with
  | zero => simp [findWhetherUnderPruned]
  | succ fuel ih =>
    rw [findWhetherUnderPruned_step, walk, Option.bind_eq_none_iff]
    exact forall_congr' fun parent => imp_congr Iff.rfl (ih parent)

lemma climb_listed {cache : Map Int Bool} {id parent : Int}
    (h : climb entries cache id = some parent) :
    ∃ mount ∈ entries, mount.id = id ∧ mount.parentId = parent ∧ parent ≠ 0 := by
  rw [climb] at h
  cases hget : cache.get id with
  | some stored => simp [hget] at h
  | none =>
    cases known : idToMount entries id with
    | none => simp [hget, known] at h
    | some mount =>
      have hmem := List.mem_reverse.mp (List.mem_of_find?_eq_some known)
      have hid := List.find?_some known
      simp only [hget, known, Option.isSome_none, Bool.false_eq_true, if_false] at h
      split at h
      · cases h
      · split at h
        next hparent =>
          cases h
          exact ⟨mount, hmem, by simpa using hid, rfl, hparent⟩
        next => cases h

/-- The numbers from which the climb can go on are those of the entries. -/
lemma climb_inside (cache : Map Int Bool) (id parent : Int)
    (h : climb entries cache id = some parent) : id ∈ entries.map Mount.id := by
  obtain ⟨mount, hmem, rfl, -⟩ := climb_listed h
  exact List.mem_map_of_mem hmem

/-- A search that ends takes no more calls than there are entries, and one. -/
lemma returns_within {fuel : Nat} {id : Int} {cache : Map Int Bool}
    (h : Returns (findWhetherUnderPruned entries fuel id cache)) :
    Returns (findWhetherUnderPruned entries (entries.length + 1) id cache) := by
  rw [findWhetherUnderPruned_returns_iff] at h ⊢
  simpa using walk_stops_within (climb_inside cache) h

/-- The search returns exactly if the climb comes to no mount that is its own ancestor. -/
theorem search_ends_iff (entries : MountEntries) (id : Int) (cache : Map Int Bool) :
    (∃ fuel answer, findWhetherUnderPruned entries fuel id cache = .ok answer) ↔
      Acyclic (climb entries cache) id := by
  constructor
  · rintro ⟨fuel, hreturns⟩
    exact acyclic_of_stops ((findWhetherUnderPruned_returns_iff fuel id cache).mp hreturns)
  · intro acyclic
    exact ⟨_, (findWhetherUnderPruned_returns_iff _ id cache).mpr
      (stops_of_acyclic (climb_inside cache) acyclic)⟩

/-- The root of a mount namespace, with its own number as its parent. -/
def rootTable : Bytes := text "1 1 8:1 / / rw - ext4 /dev/sda1 rw\n"

def rootEntries : MountEntries :=
  collect ConfigParser.new (readMounts (rootTable.length + 1) rootTable)

/-- The search for the root that is its own parent never returns. -/
theorem own_parent_never_ends :
    rootEntries.map (fun mount => (mount.id, mount.parentId)) = [(1, 1)] ∧
      ¬ ∃ fuel answer, findWhetherUnderPruned rootEntries fuel 1 Map.empty = .ok answer := by
  constructor
  · decide +kernel
  · rintro ⟨fuel, hreturns⟩
    have hclimb : climb rootEntries Map.empty 1 = some 1 := by decide +kernel
    have hround : walk (climb rootEntries Map.empty) 1 1 = some 1 := by
      rw [walk, hclimb, Option.bind_some, walk_zero]
    exact walk_of_return Nat.one_pos hround fuel
      ((findWhetherUnderPruned_returns_iff fuel 1 Map.empty).mp hreturns)

end Search
section Inheritance

/-- Following the parents from a number comes to 0 or to a number that no entry has. -/
inductive Grounded (entries : MountEntries) : Int → Prop
  | zero : Grounded entries 0
  | unlisted {id : Int} (missing : ∀ mount ∈ entries, mount.id ≠ id) : Grounded entries id
  | parent {mount : Mount} (listed : mount ∈ entries) (above : Grounded entries mount.parentId) :
      Grounded entries mount.id

/-- The second mount is the first one or an ancestor of it in the list. -/
inductive LiesUnder (entries : MountEntries) : Mount → Mount → Prop
  | self (mount : Mount) : LiesUnder entries mount mount
  | parent {mount above top : Mount} (listed : above ∈ entries) (hasParent : mount.parentId ≠ 0)
      (link : above.id = mount.parentId) (under : LiesUnder entries above top) :
      LiesUnder entries mount top

/-- The mount or one of its ancestors is pruned. -/
def Inherits (entries : MountEntries) (mount : Mount) : Prop :=
  ∃ top, LiesUnder entries mount top ∧ (top.prunedDueToFsType || top.prunedDueToPath) = true

/-- With distinct numbers an entry is found under its own number. -/
lemma idToMount_self (distinct : (entries.map Mount.id).Nodup) {mount : Mount}
    (listed : mount ∈ entries) : idToMount entries mount.id = some mount := by
  obtain ⟨found, hfound⟩ : ∃ found, idToMount entries mount.id = some found := by
    apply Option.isSome_iff_exists.mp
    rw [idToMount, List.find?_isSome]
    exact ⟨mount, List.mem_reverse.mpr listed, beq_self_eq_true _⟩
  have hmem := List.mem_reverse.mp (List.mem_of_find?_eq_some hfound)
  have hid : found.id = mount.id := by simpa using List.find?_some hfound
  rw [hfound, List.inj_on_of_nodup_map distinct hmem listed hid]

lemma underPruned_of_inherits (distinct : (entries.map Mount.id).Nodup) {mount top : Mount}
    (listed : mount ∈ entries) (under : LiesUnder entries mount top)
    (pruned : (top.prunedDueToFsType || top.prunedDueToPath) = true) :
    UnderPruned entries mount.id := by
  induction under with
  | self mount => exact .self (idToMount_self distinct listed) pruned
  | parent habove hasParent link _ ih =>
    have hunder := ih habove pruned
    rw [link] at hunder
    exact .parent (idToMount_self distinct listed) hasParent hunder

/-- Lying under a pruned mount is the same for the numbers and for the entries. -/
lemma underPruned_iff_inherits (distinct : (entries.map Mount.id).Nodup) {mount : Mount}
    (listed : mount ∈ entries) : UnderPruned entries mount.id ↔ Inherits entries mount := by
  constructor
  · intro hunder
    generalize hid : mount.id = id at hunder
    induction hunder generalizing mount with
    | self found pruned =>
      subst hid
      obtain rfl := Option.some.inj ((idToMount_self distinct listed).symm.trans found)
      exact ⟨mount, .self mount, pruned⟩
    | parent found hasParent under ih =>
      subst hid
      obtain rfl := Option.some.inj ((idToMount_self distinct listed).symm.trans found)
      -- the parent is listed, for a number that is not has nothing above it
      obtain ⟨above, habove⟩ : ∃ above, idToMount entries mount.parentId = some above := by
        cases under with
        | self found _ => exact ⟨_, found⟩
        | parent found _ _ => exact ⟨_, found⟩
      have hmem := List.mem_reverse.mp (List.mem_of_find?_eq_some habove)
      have hlink : above.id = mount.parentId := by simpa using List.find?_some habove
      obtain ⟨top, htop, pruned⟩ := ih hmem hlink
      exact ⟨top, .parent hmem hasParent hlink htop, pruned⟩
  · rintro ⟨top, under, pruned⟩
    exact underPruned_of_inherits distinct listed under pruned

/-- From an entry the climb stops if it stops from the parent, or if there is none. -/
lemma walk_from_entry (distinct : (entries.map Mount.id).Nodup) {cache : Map Int Bool}
    {mount : Mount} (listed : mount ∈ entries) {d : Nat}
    (rest : walk (climb entries cache) d mount.parentId = none ∨ mount.parentId = 0) :
    walk (climb entries cache) (d + 1) mount.id = none := by
  rw [walk, Option.bind_eq_none_iff]
  intro parent hclimb
  obtain ⟨found, hmem, hid, rfl, hne⟩ := climb_listed hclimb
  obtain rfl := List.inj_on_of_nodup_map distinct hmem listed hid
  exact rest.resolve_right hne

lemma grounded_stops (distinct : (entries.map Mount.id).Nodup) (cache : Map Int Bool) {id : Int}
    (grounded : Grounded entries id) :
    ∃ d, walk (climb entries cache) d id = none ∨ id = 0 := by
  induction grounded with
  | zero => exact ⟨0, .inr rfl⟩
  | unlisted missing =>
    refine ⟨1, .inl ?_⟩
    rw [walk, Option.bind_eq_none_iff]
    intro parent hclimb
    obtain ⟨found, hmem, hid, -⟩ := climb_listed hclimb
    exact absurd hid (missing found hmem)
  | parent listed _ ih =>
    obtain ⟨d, hd⟩ := ih
    exact ⟨d + 1, .inl (walk_from_entry distinct listed hd)⟩

/-- For an entry whose parents come to an end the search returns, whatever the cache holds. -/
lemma grounded_returns (distinct : (entries.map Mount.id).Nodup) {mount : Mount}
    (listed : mount ∈ entries) (grounded : Grounded entries mount.parentId)
    (cache : Map Int Bool) :
    Returns (findWhetherUnderPruned entries (entries.length + 1) mount.id cache) := by
  obtain ⟨d, hd⟩ := grounded_stops distinct cache grounded
  exact returns_within ((findWhetherUnderPruned_returns_iff _ _ cache).mpr
    (walk_from_entry distinct listed hd))

lemma setToRemove_returns {fuel : Nat} {mounts : List Mount}
    (each : ∀ mount ∈ mounts, ∀ cache,
      Returns (findWhetherUnderPruned entries fuel mount.id cache)) (cache : Map Int Bool) :
    Returns (setToRemove entries fuel mounts cache) := by
  induction mounts generalizing cache with
  | nil => exact returns_ok []
  | cons first rest ih =>
    obtain ⟨⟨result, cache'⟩, hfirst⟩ := each first List.mem_cons_self cache
    obtain ⟨marked, hrest⟩ := ih (fun mount hmem => each mount (List.mem_cons_of_mem _ hmem)) cache'
    refine ⟨{ first with toRemove := result } :: marked, ?_⟩
    rw [setToRemove, hfirst]
    simp only [hrest]

open Classical in
/-- With distinct numbers and parents that come to an end, exactly the entries are left that
inherit no pruned status, in their order and with their fields. -/
theorem pruned_status_inherited (distinct : (entries.map Mount.id).Nodup)
    (grounded : ∀ mount ∈ entries, Grounded entries mount.parentId) :
    takeOutPruned entries = .ok
      ((entries.filter (fun mount => ¬ Inherits entries mount)).map unmarked) := by
  obtain ⟨marked, hmarked⟩ := setToRemove_returns
    (fun mount hmem => grounded_returns distinct hmem (grounded mount hmem)) Map.empty
  obtain ⟨kept, hkept⟩ : ∃ kept, takeOutPruned entries = .ok kept := by
    rw [takeOutPruned, hmarked]
    exact ⟨_, rfl⟩
  have hsame : entries.filter (fun mount => ¬ UnderPruned entries mount.id) =
      entries.filter (fun mount => ¬ Inherits entries mount) := by
    apply List.filter_congr
    intro mount hmem
    simp only [underPruned_iff_inherits distinct hmem]
  rw [hkept, takeOutPruned_eq hkept, hsame]

/-- A tree of mounts of which one is pruned, listed before its parent. -/
def prunedTree : MountEntries :=
  [⟨3, 2, 0, 22, text "/", text "/run/lock", text "ext4", text "lock", false, false, false⟩,
    ⟨2, 1, 0, 21, text "/", text "/run", text "tmpfs", text "run", true, false, false⟩,
    ⟨1, 0, 8, 1, text "/", text "/", text "ext4", text "/dev/sda1", false, false, false⟩]

example : takeOutPruned prunedTree = .ok
    [⟨1, 0, 8, 1, text "/", text "/", text "ext4", text "/dev/sda1", false, false, false⟩] := by
  decide +kernel

open Classical in
/-- The facts asked for hold of that tree. -/
theorem pruned_status_inherited_tree : takeOutPruned prunedTree = .ok
    ((prunedTree.filter (fun mount => ¬ Inherits prunedTree mount)).map unmarked) := by
  have htop : Grounded prunedTree 1 :=
    @Grounded.parent prunedTree (prunedTree.get ⟨2, by decide⟩) (List.get_mem _ _) .zero
  have hrun : Grounded prunedTree 2 :=
    @Grounded.parent prunedTree (prunedTree.get ⟨1, by decide⟩) (List.get_mem _ _) htop
  apply pruned_status_inherited (by decide)
  intro mount hmem
  simp only [prunedTree, List.mem_cons, List.not_mem_nil, or_false] at hmem
  rcases hmem with rfl | rfl | rfl
  · exact hrun
  · exact htop
  · exact .zero

end Inheritance
end PrunedInheritance
