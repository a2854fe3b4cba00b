import SymFind.Filesystem.PathStrings

/-!
# The grammar of tracked file names

A name has an extension when it is a stem that is not empty, the extension, and
a version. The search from the right end stops at the first occurrence behind
which something else than a version stands, and no occurrence further left can
do better, for the same bytes stand behind it.
-/
namespace ExtensionGrammar
open RecordCodec SymbolData PathStrings

/-- Nothing, or a dot and then digits and dots. -/
def VersionSuffix (suffix : Bytes) : Prop :=
  suffix = [] ∨ ∃ rest, suffix = dot :: rest ∧ ∀ ch ∈ rest, isDigit ch = true ∨ ch = dot

def HasExtension (name extension : Bytes) : Prop :=
  ∃ stem suffix, stem ≠ [] ∧ name = stem ++ extension ++ suffix ∧ VersionSuffix suffix

section Occurrence

variable {name extension : Bytes}

/-- What stands behind an occurrence that ends `k` bytes before the end. -/
def behind (name : Bytes) (k : Nat) : Bytes := (name.reverse.take k).reverse

/-- The comparison of the scan finds the extension in front of the last `k` bytes. -/
lemma occurs_iff (k : Nat) :
    (name.reverse.drop k).take extension.reverse.length = extension.reverse ↔
      ∃ stem, name = stem ++ extension ++ behind name k := by
  rw [eq_comm, ← List.prefix_iff_eq_take]
  constructor
  · rintro ⟨front, hfront⟩
    refine ⟨front.reverse, List.reverse_injective ?_⟩
    have hall := List.take_append_drop k name.reverse
    rw [← hfront] at hall
    simpa [behind] using hall.symm
  · rintro ⟨stem, hname⟩
    have hreverse : name.reverse.take k ++ (extension.reverse ++ stem.reverse) =
        name.reverse.take k ++ name.reverse.drop k := by
      have hrev := congrArg List.reverse hname
      rw [List.take_append_drop]
      simpa [behind] using hrev.symm
    exact ⟨stem.reverse, List.append_cancel_left hreverse⟩

lemma behind_succ {k : Nat} (inside : k < name.reverse.length) :
    behind name (k + 1) = name.reverse.get ⟨k, inside⟩ :: behind name k := by
  rw [behind, List.take_succ_eq_append_getElem inside, List.reverse_append]
  rfl

/-- The tests behind an occurrence accept exactly the versions. -/
lemma versionSuffix_behind_iff {k : Nat} (inside : k ≤ name.length) :
    VersionSuffix (behind name k) ↔
      k = 0 ∨ (name.reverse[k - 1]? = some dot ∧
        (name.reverse.take k).all (fun ch => isDigit ch || ch == dot) = true) := by
  cases k with
  | zero => simp [VersionSuffix, behind]
  | succ k =>
    have hk : k < name.reverse.length := by
      rw [List.length_reverse]
      omega
    have hall : (name.reverse.take (k + 1)).all (fun ch => isDigit ch || ch == dot) = true ↔
        ∀ ch ∈ behind name (k + 1), isDigit ch = true ∨ ch = dot := by
      simp [behind, List.all_eq_true]
    rw [hall, behind_succ hk, VersionSuffix]
    simp only [reduceCtorEq, false_or, List.cons.injEq, Nat.succ_ne_zero, Nat.add_sub_cancel,
      List.getElem?_eq_getElem hk, Option.some.injEq, List.forall_mem_cons, List.get_eq_getElem]
    constructor
    · rintro ⟨rest, ⟨hdot, rfl⟩, hrest⟩
      exact ⟨hdot, .inr hdot, hrest⟩
    · rintro ⟨hdot, -, hrest⟩
      exact ⟨_, ⟨hdot, rfl⟩, hrest⟩

/-- One pass of the scan returns true exactly at an occurrence with a version behind it. -/
lemma extensionAt_true_iff {k : Nat} (inside : k ≤ name.length) :
    extensionAt name.reverse extension.reverse k = some true ↔
      (∃ stem, name = stem ++ extension ++ behind name k) ∧ VersionSuffix (behind name k) := by
  rw [extensionAt, ← occurs_iff, versionSuffix_behind_iff inside]
  by_cases hoccurs :
      (name.reverse.drop k).take extension.reverse.length = extension.reverse
  · rw [if_pos hoccurs, and_iff_right hoccurs]
    by_cases hzero : k = 0
    · simp [hzero]
    · by_cases hdot : name.reverse[k - 1]? = some dot <;> simp [hzero, hdot]
  · rw [if_neg hoccurs]
    exact iff_of_false (fun h => by cases h) (fun h => hoccurs h.1)

/-- The scan stops without success only in front of a byte that no version has. -/
lemma extensionAt_false {k : Nat}
    (h : extensionAt name.reverse extension.reverse k = some false) :
    ∃ ch ∈ behind name k, ¬ (isDigit ch = true ∨ ch = dot) := by
  rw [extensionAt] at h
  split at h
  · split at h
    · cases h
    · split at h
      · cases h
      · have hall := Option.some.inj h
        rw [List.all_eq_false] at hall
        obtain ⟨ch, hmem, hch⟩ := hall
        exact ⟨ch, List.mem_reverse.mpr hmem, by simpa using hch⟩
  · cases h

lemma version_digits {suffix : Bytes} (version : VersionSuffix suffix) :
    ∀ ch ∈ suffix, isDigit ch = true ∨ ch = dot := by
  rcases version with rfl | ⟨rest, rfl, hrest⟩
  · intro ch hmem
    cases hmem
  · exact List.forall_mem_cons.mpr ⟨.inr rfl, hrest⟩

/-- Where the scan stops without success no occurrence further left has a version behind it. -/
lemma stop_hides_nothing {j k : Nat} (further : j ≤ k)
    (stop : extensionAt name.reverse extension.reverse j = some false) :
    ¬ VersionSuffix (behind name k) := by
  intro version
  obtain ⟨ch, hmem, hch⟩ := extensionAt_false stop
  apply hch
  apply version_digits version
  rw [behind, List.mem_reverse] at hmem ⊢
  exact (List.take_prefix_take_left further).mem hmem

end Occurrence

section Scan

/-- The first pass that decides accepts exactly if some pass does. -/
lemma scan_true_iff {name extension : Bytes} {bound : Nat} (inside : bound ≤ name.length) :
    ((List.range bound).findSome? (extensionAt name.reverse extension.reverse)).getD false = true ↔
      ∃ k < bound, extensionAt name.reverse extension.reverse k = some true := by
  constructor
  · intro h
    cases hscan : (List.range bound).findSome? (extensionAt name.reverse extension.reverse) with
    | none => simp [hscan] at h
    | some answer =>
      obtain rfl : answer = true := by simpa [hscan] using h
      obtain ⟨k, hk, htrue⟩ := List.exists_of_findSome?_eq_some hscan
      exact ⟨k, List.mem_range.mp hk, htrue⟩
  · rintro ⟨k, hk, htrue⟩
    obtain ⟨answer, hscan⟩ : ∃ answer, (List.range bound).findSome?
        (extensionAt name.reverse extension.reverse) = some answer := by
      apply Option.isSome_iff_exists.mp
      rw [List.findSome?_isSome_iff]
      exact ⟨k, List.mem_range.mpr hk, by simp [htrue]⟩
    have hfirst := List.findSome?_eq_some_iff.mp hscan
    obtain ⟨earlier, j, later, hrange, hj, hnone⟩ := hfirst
    have hsorted : (earlier ++ j :: later).Pairwise (· < ·) := hrange ▸ List.pairwise_lt_range
    have hmem : k ∈ earlier ++ j :: later := hrange ▸ List.mem_range.mpr hk
    have hle : j ≤ k := by
      rcases List.mem_append.mp hmem with hbefore | hafter
      · rw [hnone k hbefore] at htrue
        cases htrue
      · rcases List.mem_cons.mp hafter with rfl | hafter
        · exact Nat.le_refl k
        · have htail := (List.pairwise_append.mp hsorted).2.1
          exact Nat.le_of_lt ((List.pairwise_cons.mp htail).1 k hafter)
    cases answer with
    | true => rw [hscan, Option.getD_some]
    | false =>
      have hversion := ((extensionAt_true_iff (by omega)).mp htrue).2
      exact absurd hversion (stop_hides_nothing hle hj)

/-- The search accepts a stem that is not empty, the extension and a version. -/
lemma filenameHasExtension_iff (name : Bytes) {extension : Bytes} (nonempty : extension ≠ []) :
    filenameHasExtension name extension = true ↔ HasExtension name extension := by
  rw [filenameHasExtension]
  by_cases hshort : name = [] ∨ extension = [] ∨ extension.length > name.length
  · rw [if_pos hshort]
    apply iff_of_false Bool.false_ne_true
    rintro ⟨stem, suffix, hstem, rfl, -⟩
    have hpos := List.length_pos_of_ne_nil hstem
    rcases hshort with hnil | hnil | hlong
    · simp [hstem] at hnil
    · exact nonempty hnil
    · simp only [List.length_append] at hlong
      omega
  · rw [if_neg hshort, scan_true_iff (Nat.sub_le _ _)]
    simp only [not_or, not_lt, gt_iff_lt] at hshort
    obtain ⟨-, -, hlength⟩ := hshort
    constructor
    · rintro ⟨k, hk, htrue⟩
      obtain ⟨⟨stem, hname⟩, hversion⟩ := (extensionAt_true_iff (by omega)).mp htrue
      refine ⟨stem, behind name k, ?_, hname, hversion⟩
      -- the bound leaves a byte in front
      rintro rfl
      have hcount := congrArg List.length hname
      simp only [List.nil_append, List.length_append, behind, List.length_reverse,
        List.length_take] at hcount
      omega
    · rintro ⟨stem, suffix, hstem, hname, hversion⟩
      have hpos := List.length_pos_of_ne_nil hstem
      have hcount := congrArg List.length hname
      simp only [List.length_append] at hcount
      have hbehind : behind name suffix.length = suffix := by
        rw [behind, hname, List.reverse_append, ← List.length_reverse, List.take_left',
          List.reverse_reverse]
        rfl
      refine ⟨suffix.length, by omega, (extensionAt_true_iff (by omega)).mpr ?_⟩
      rw [hbehind]
      exact ⟨⟨stem, hname⟩, hversion⟩

/-- A name is accepted exactly if it is a stem, one of the extensions and a version. -/
theorem has_any_extension_iff (name : Bytes) {exts : List Bytes}
    (nonempty : ∀ extension ∈ exts, extension ≠ []) :
    filenameHasAnyOfExtensions name exts = true ↔
      ∃ extension ∈ exts, HasExtension name extension := by
  rw [filenameHasAnyOfExtensions, List.any_eq_true]
  constructor
  · rintro ⟨extension, hmem, hhas⟩
    exact ⟨extension, hmem, (filenameHasExtension_iff name (nonempty extension hmem)).mp hhas⟩
  · rintro ⟨extension, hmem, hhas⟩
    exact ⟨extension, hmem, (filenameHasExtension_iff name (nonempty extension hmem)).mpr hhas⟩

/-- A name in which the extension stands twice. -/
theorem has_any_extension_twice :
    filenameHasAnyOfExtensions (text "a.so.so.1.2") trackingExtensions = true ↔
      ∃ extension ∈ trackingExtensions, HasExtension (text "a.so.so.1.2") extension :=
  has_any_extension_iff _ (by decide)

end Scan
end ExtensionGrammar
