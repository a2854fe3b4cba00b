import SymFind.Core.SymbolData

/-!
# Path names, path lists and file name extensions

The order of directory paths puts `/` before every other byte. A sorted list is
searched with a cursor that only moves forward. Extensions are looked for from
the right end of a name, and digits and dots may follow them.
-/
namespace PathStrings
open RecordCodec SymbolData

def slash : UInt8 := 0x2F

/-- `dir_path_cmp`: the common front is skipped, then `/` comes first. -/
def dirPathCmp : Bytes → Bytes → Int
  | [], [] => 0
  | [], _ :: _ => -1
  | _ :: _, [] => 1
  | a :: as, b :: bs =>
    if a = b then dirPathCmp as bs
    else if a = slash then -1
    else if b = slash then 1
    else (a.toNat : Int) - b.toNat

/-- Two paths compare equal only when they are the same. -/
theorem dirPathCmp_eq_zero_iff (a b : Bytes) : dirPathCmp a b = 0 ↔ a = b := by
  induction a generalizing b with
  | nil => cases b <;> simp [dirPathCmp]
  | cons x xs ih =>
    cases b with
    | nil => simp [dirPathCmp]
    | cons y ys =>
      rw [dirPathCmp]
      by_cases h : x = y
      · rw [if_pos h, ih, h]
        simp
      · have hnat : (x.toNat : Int) - y.toNat ≠ 0 := by
          intro hz
          exact h (UInt8.toNat_inj.mp (by omega))
        have hcons : x :: xs ≠ y :: ys := fun he => h (List.cons.inj he).1
        rw [if_neg h]
        split
        · simp [hcons]
        · split <;> simp [hcons, hnat]

def stringListDirPathSort (list : List Bytes) : List Bytes :=
  list.mergeSort (fun a b => decide (¬ dirPathCmp b a < 0))

/-- The loop of `string_list_contains_dir_path` from an index on: the answer and the index. -/
def scanFrom (path : Bytes) : List Bytes → Nat → Bool × Nat
  | [], idx => (false, idx)
  | entry :: rest, idx =>
    if dirPathCmp entry path ≠ 0 then scanFrom path rest (idx + 1) else (true, idx + 1)

def stringListContainsDirPath (list : List Bytes) (idx : Nat) (path : Bytes) : Bool × Nat :=
  scanFrom path (list.drop idx) idx

lemma scanFrom_iff (path : Bytes) (list : List Bytes) (idx : Nat) :
    (scanFrom path list idx).1 = true ↔ path ∈ list := by
  induction list generalizing idx with
  | nil => simp [scanFrom]
  | cons entry rest ih =>
    rw [scanFrom]
    by_cases h : dirPathCmp entry path = 0
    · have heq : path = entry := ((dirPathCmp_eq_zero_iff entry path).mp h).symm
      rw [if_neg (not_not.mpr h), heq]
      simp
    · have hne : path ≠ entry := fun he => h ((dirPathCmp_eq_zero_iff entry path).mpr he.symm)
      rw [if_pos h, ih, List.mem_cons, or_iff_right hne]

/-- A search that fails has moved the cursor over the whole list. -/
lemma scanFrom_miss (path : Bytes) (list : List Bytes) (idx : Nat)
    (miss : (scanFrom path list idx).1 = false) :
    (scanFrom path list idx).2 = idx + list.length := by
  induction list generalizing idx with
  | nil => rfl
  | cons entry rest ih =>
    rw [scanFrom] at miss ⊢
    split at miss
    next hne =>
      rw [if_pos hne, ih (idx + 1) miss, List.length_cons]
      omega
    next => cases miss

/-- A search that fails leaves nothing ahead of the cursor. -/
lemma end_after_miss {list : List Bytes} {idx : Nat} {path : Bytes}
    (miss : (stringListContainsDirPath list idx path).1 = false) :
    list.drop (stringListContainsDirPath list idx path).2 = [] := by
  rw [stringListContainsDirPath, scanFrom_miss path _ idx miss]
  apply List.drop_eq_nil_of_le
  rw [List.length_drop]
  omega

/-- A search from the start of a list finds every entry, sorted or not. -/
theorem containsDirPath_zero_iff (list : List Bytes) (path : Bytes) :
    (stringListContainsDirPath list 0 path).1 = true ↔ path ∈ list := scanFrom_iff path list 0

section Extensions

def isDigit (ch : UInt8) : Bool := 0x30 ≤ ch && ch ≤ 0x39

def dot : UInt8 := 0x2E

/-- One pass over the reversed name: go on, or return. -/
def extensionAt (name extension : Bytes) (k : Nat) : Option Bool :=
  if (name.drop k).take extension.length = extension then
    if k ≠ 0 ∧ name[k - 1]? ≠ some dot then none
    else if k = 0 then some true
    else some ((name.take k).all (fun ch => isDigit ch || ch == dot))
  else none

/-- A match at the very front of the name is not looked for. A name is shorter than 2^31 bytes, so
`ext_size` is the length. -/
def filenameHasExtension (filename extension : Bytes) : Bool :=
  if filename = [] ∨ extension = [] ∨ extension.length > filename.length then false
  else
    ((List.range (filename.length - extension.length)).findSome?
      (extensionAt filename.reverse extension.reverse)).getD false

def filenameHasAnyOfExtensions (filename : Bytes) (exts : List Bytes) : Bool :=
  exts.any (filenameHasExtension filename)

def trackingExtensions : List Bytes := [text ".so", text ".o", text ".a"]

/-- A version may follow the extension, another suffix may not. -/
example : filenameHasAnyOfExtensions (text "libc.so.6") trackingExtensions = true ∧
    filenameHasAnyOfExtensions (text "libc.so.gz") trackingExtensions = false ∧
    filenameHasAnyOfExtensions (text ".so") trackingExtensions = false := by decide

end Extensions

section Mounts

def toUpper (c : UInt8) : UInt8 := if 0x61 ≤ c ∧ c ≤ 0x7A then c - 0x61 + 0x41 else c

/-- Directory and type of the entries of `/proc/mounts`; `none` if it cannot be opened. -/
abbrev MountTable := Option (List (Bytes × Bytes))

def filesystemIsExcluded (mounts : MountTable) (list : List Bytes) (path : Bytes) : Bool :=
  match mounts with
  | none => false
  | some entries =>
    match entries.find? (fun entry => path == entry.1) with
    | none => false
    | some entry => list.contains (entry.2.map toUpper)

end Mounts
end PathStrings
