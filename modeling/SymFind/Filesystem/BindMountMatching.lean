import SymFind.Filesystem.BindMounts
import Mathlib.Data.Fintype.EquivFin
import Mathlib.Data.Fintype.Sets

/-!
# Which mounts the matching takes for duplicates

A mount is added when another one of its device has a root that is a prefix of
its own, byte by byte. What hides a mount may be hidden itself, but the hiding
comes to an end at a mount that stays. A prefix that ends inside a name is not a
parent directory, so a mount may be added although nothing else shows it.
-/
namespace BindMountMatching
open RecordCodec SymbolData PathStrings MountInfo BindMounts

variable {entries : MountEntries}

section Hiding

/-- The first mount is hidden by the second. -/
def HiddenBy (mount other : Mount) : Prop :=
  sameDevice mount other = true ∧ other.id ≠ mount.id ∧ duplicates mount other = true

lemma isSelected_iff_hidden (mount : Mount) :
    isSelected entries mount = true ↔ ∃ other ∈ entries, HiddenBy mount other :=
  isSelected_iff mount

lemma sameDevice_iff (a b : Mount) :
    sameDevice a b = true ↔ a.devMajor = b.devMajor ∧ a.devMinor = b.devMinor := by
  simp [sameDevice]

lemma sameDevice_refl (a : Mount) : sameDevice a a = true := by simp [sameDevice]

lemma sameDevice_trans {a b c : Mount} (hab : sameDevice a b = true)
    (hbc : sameDevice b c = true) : sameDevice a c = true := by
  rw [sameDevice_iff] at *
  exact ⟨hab.1.trans hbc.1, hab.2.trans hbc.2⟩

/-- A duplicate has a longer root that begins with the other one, or the same root and a larger
number. -/
lemma duplicates_iff (mount other : Mount) : duplicates mount other = true ↔
    (other.root.length < mount.root.length ∧ other.root <+: mount.root) ∨
      (mount.root = other.root ∧ other.id < mount.id) := by
  simp [duplicates]

lemma duplicates_root {mount other : Mount} (h : duplicates mount other = true) :
    other.root <+: mount.root := by
  rcases (duplicates_iff mount other).mp h with ⟨-, hprefix⟩ | ⟨hroot, -⟩
  · exact hprefix
  · rw [hroot]

lemma duplicates_trans {a b c : Mount} (hab : duplicates a b = true)
    (hbc : duplicates b c = true) : duplicates a c = true := by
  have hprefix : c.root <+: a.root := (duplicates_root hbc).trans (duplicates_root hab)
  have hca : b.root.length ≤ a.root.length := (duplicates_root hab).length_le
  have hcb : c.root.length ≤ b.root.length := (duplicates_root hbc).length_le
  rw [duplicates_iff] at hab hbc ⊢
  rcases hab with ⟨hlt, -⟩ | ⟨hroot, hid⟩
  · exact .inl ⟨by omega, hprefix⟩
  · rcases hbc with ⟨hlt, -⟩ | ⟨hroot', hid'⟩
    · exact .inl ⟨by omega, hprefix⟩
    · exact .inr ⟨hroot.trans hroot', by omega⟩

lemma duplicates_irrefl (a : Mount) : ¬ duplicates a a = true := by
  simp [duplicates_iff]

/-- Hiding goes down in the length of the root and then in the number, so over finitely many
mounts it is well founded. -/
lemma hiding_wellFounded (entries : MountEntries) :
    WellFounded (fun other mount : { m // m ∈ entries } =>
      duplicates mount.val other.val = true) := by
  have : IsTrans { m // m ∈ entries } (fun other mount => duplicates mount.val other.val = true) :=
    ⟨fun _ _ _ hab hbc => duplicates_trans hbc hab⟩
  have : Std.Irrefl (fun other mount : { m // m ∈ entries } =>
      duplicates mount.val other.val = true) := ⟨fun a => duplicates_irrefl a.val⟩
  exact Finite.wellFounded_of_trans_of_irrefl _

/-- For every mount there is one of its device that stays and whose root begins its own. -/
lemma exists_staying {mount : Mount} (hmem : mount ∈ entries) :
    ∃ other ∈ entries, sameDevice mount other = true ∧ isSelected entries other = false ∧
      other.root <+: mount.root := by
  suffices h : ∀ m : { m // m ∈ entries }, ∃ other ∈ entries, sameDevice m.val other = true ∧
      isSelected entries other = false ∧ other.root <+: m.val.root from h ⟨mount, hmem⟩
  intro m
  induction m using (hiding_wellFounded entries).induction with
  | _ m ih =>
    cases hselected : isSelected entries m.val with
    | false => exact ⟨m.val, m.property, sameDevice_refl _, hselected, List.prefix_refl _⟩
    | true =>
      obtain ⟨hider, hhider, hdevice, -, hduplicate⟩ := (isSelected_iff_hidden _).mp hselected
      obtain ⟨other, hother, hdevice', hstays, hprefix⟩ := ih ⟨hider, hhider⟩ hduplicate
      exact ⟨other, hother, sameDevice_trans hdevice hdevice', hstays,
        hprefix.trans (duplicates_root hduplicate)⟩

/-- Each added mount has a copy that stays, each device keeps a mount, and of the mounts with one
device and root those that have not the lowest number are added. -/
theorem never_all_hidden (entries : MountEntries) :
    (∀ mount ∈ entries, isSelected entries mount = true →
      ∃ other ∈ entries, sameDevice mount other = true ∧ isSelected entries other = false ∧
        other.root <+: mount.root) ∧
    (∀ mount ∈ entries, ∃ other ∈ entries,
      sameDevice mount other = true ∧ isSelected entries other = false) ∧
    ∀ mount ∈ entries, isSelected entries mount = false →
      ∀ other ∈ entries, sameDevice mount other = true → mount.root = other.root →
        mount.id ≤ other.id := by
  refine ⟨fun mount hmem _ => exists_staying hmem, ?_, ?_⟩
  · intro mount hmem
    obtain ⟨other, hother, hdevice, hstays, -⟩ := exists_staying hmem
    exact ⟨other, hother, hdevice, hstays⟩
  · intro mount hmem hstays other hother hdevice hroot
    by_contra hlt
    have hid : other.id < mount.id := by omega
    have hadded : isSelected entries mount = true :=
      (isSelected_iff_hidden mount).mpr ⟨other, hother, hdevice, by omega,
        (duplicates_iff mount other).mpr (.inr ⟨hroot, hid⟩)⟩
    simp [hadded] at hstays

end Hiding

section Children

/-- A directory below the other one, by whole names. -/
def IsChildOf (root other : Bytes) : Prop :=
  (∃ more, more ≠ [] ∧ root = other ++ slash :: more) ∨
    (other = [slash] ∧ ∃ more, more ≠ [] ∧ root = slash :: more)

/-- Another mount of the device has the same root or a parent of it. -/
def ShownThrough (mount other : Mount) : Prop :=
  sameDevice mount other = true ∧ other.id ≠ mount.id ∧
    (mount.root = other.root ∨ IsChildOf mount.root other.root)

def OnlyDuplicatesAdded (entries : MountEntries) : Prop :=
  ∀ mount ∈ entries, isSelected entries mount = true → ∃ other ∈ entries, ShownThrough mount other

/-- The root of another mount of the device is a proper prefix but not a parent. -/
def SiblingPrefix (mount other : Mount) : Prop :=
  sameDevice mount other = true ∧ other.id ≠ mount.id ∧ other.root <+: mount.root ∧
    other.root.length < mount.root.length ∧ ¬ IsChildOf mount.root other.root

/-- A mount is hidden by what also shows it or by a sibling. -/
lemma hiddenBy_cases {mount other : Mount} (h : HiddenBy mount other) :
    ShownThrough mount other ∨ SiblingPrefix mount other := by
  obtain ⟨hdevice, hid, hduplicate⟩ := h
  rcases (duplicates_iff mount other).mp hduplicate with ⟨hlt, hprefix⟩ | ⟨hroot, -⟩
  · by_cases hchild : IsChildOf mount.root other.root
    · exact .inl ⟨hdevice, hid, .inr hchild⟩
    · exact .inr ⟨hdevice, hid, hprefix, hlt, hchild⟩
  · exact .inl ⟨hdevice, hid, .inl hroot⟩

lemma hiddenBy_sibling {mount other : Mount} (h : SiblingPrefix mount other) :
    HiddenBy mount other := by
  obtain ⟨hdevice, hid, hprefix, hlt, -⟩ := h
  exact ⟨hdevice, hid, (duplicates_iff mount other).mpr (.inl ⟨hlt, hprefix⟩)⟩

/-- Only duplicates are added exactly if each mount with a sibling prefix is shown by another
mount as well. -/
theorem only_duplicates_added_iff (entries : MountEntries) : OnlyDuplicatesAdded entries ↔
    ∀ mount ∈ entries, (∃ other ∈ entries, SiblingPrefix mount other) →
      ∃ other ∈ entries, ShownThrough mount other := by
  constructor
  · rintro only mount hmem ⟨other, hother, hsibling⟩
    exact only mount hmem
      ((isSelected_iff_hidden mount).mpr ⟨other, hother, hiddenBy_sibling hsibling⟩)
  · intro condition mount hmem hselected
    obtain ⟨other, hother, hhidden⟩ := (isSelected_iff_hidden mount).mp hselected
    rcases hiddenBy_cases hhidden with hshown | hsibling
    · exact ⟨other, hother, hshown⟩
    · exact condition mount hmem ⟨other, hother, hsibling⟩

/-- Two subvolumes of one device; the name of the second begins with that of the first. -/
def subvolumes : MountEntries :=
  [⟨28, 1, 0, 35, text "/@", text "/", text "btrfs", text "/dev/sda2", false, false, false⟩,
    ⟨45, 28, 0, 35, text "/@home", text "/home", text "btrfs", text "/dev/sda2",
      false, false, false⟩]

/-- `/home` is added, and no other mount shows it. -/
theorem sibling_subvolume_added : (subvolumes.map Mount.id).Nodup ∧
    matchBindMounts subvolumes = [text "/home"] ∧ ¬ OnlyDuplicatesAdded subvolumes := by
  refine ⟨by decide, by decide +kernel, ?_⟩
  intro only
  obtain ⟨other, hother, -, hid, hshown⟩ := only _ (List.mem_cons_of_mem _ List.mem_cons_self)
    (by decide +kernel)
  rcases List.mem_cons.mp hother with rfl | hother
  · rcases hshown with hroot | ⟨more, -, hroot⟩ | ⟨hroot, -⟩
    · exact absurd hroot (by decide +kernel)
    · exact absurd (List.cons.inj (List.cons.inj (List.cons.inj hroot).2).2).1 (by decide)
    · exact absurd hroot (by decide +kernel)
  · rw [List.mem_singleton] at hother
    exact hid (by rw [hother])

end Children
end BindMountMatching
