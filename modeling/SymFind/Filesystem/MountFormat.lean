import SymFind.Filesystem.MountInfo
import SymFind.Lib.SelfDelimiting
import Mathlib.Data.List.Forall2

/-!
# The format of the mount table

A record is written in one line: numbers in decimal, strings with some of their
bytes as octal escapes, single spaces between the fields, and a dash before the
last three. Reading the line gives the record back, in whatever pieces the line
comes.
-/
namespace MountFormat
open RecordCodec SymbolData PathStrings MountInfo SelfDelimiting

section Numbers

def space : UInt8 := 0x20
def minus : UInt8 := 0x2D

def decimal (n : Nat) : Bytes := (Nat.toDigits 10 n).map (fun c => UInt8.ofNat c.toNat)

def signedDecimal (i : Int) : Bytes :=
  if i < 0 then minus :: decimal i.natAbs else decimal i.natAbs

lemma digit_toNat {n : Nat} {c : Char} (h : c ∈ Nat.toDigits 10 n) :
    0x30 ≤ c.toNat ∧ c.toNat ≤ 0x39 ∧ (UInt8.ofNat c.toNat).toNat = c.toNat := by
  have hdigit := Char.isDigit_iff_toNat.mp (Nat.isDigit_of_mem_toDigits (by decide) (by decide) h)
  simp only [Char.reduceToNat] at hdigit
  refine ⟨hdigit.1, hdigit.2, ?_⟩
  rw [UInt8.toNat_ofNat', Nat.mod_eq_of_lt (by omega)]

lemma decimal_isDigit (n : Nat) : ∀ c ∈ decimal n, isDigit c = true := by
  intro c hc
  obtain ⟨d, hd, rfl⟩ := List.mem_map.mp hc
  obtain ⟨hlow, hhigh, hsame⟩ := digit_toNat hd
  simp only [isDigit, Bool.and_eq_true, decide_eq_true_eq, UInt8.le_iff_toNat_le, hsame]
  exact ⟨hlow, hhigh⟩

lemma decimal_ne_nil (n : Nat) : decimal n ≠ [] := by
  simp [decimal, Nat.toDigits_ne_nil]

lemma digitsValue_decimal (n : Nat) : digitsValue (decimal n) = n := by
  have hvalue : ∀ (digits : List Char) (start : Nat), (∀ c ∈ digits, c ∈ Nat.toDigits 10 n) →
      (digits.map (fun c => UInt8.ofNat c.toNat)).foldl
        (fun n c => 10 * n + (c.toNat - 0x30)) start = Nat.ofDigitChars 10 digits start := by
    intro digits
    induction digits with
    | nil => simp
    | cons c rest ih =>
      intro start hall
      obtain ⟨-, -, hsame⟩ := digit_toNat (hall c List.mem_cons_self)
      rw [List.map_cons, List.foldl_cons, hsame, Nat.ofDigitChars_cons,
        ih _ (fun d hd => hall d (List.mem_cons_of_mem _ hd))]
      rfl
  rw [digitsValue, decimal, hvalue _ 0 (fun c h => h), Nat.ofDigitChars_ten_toDigits]

/-- A number ends before what is no digit. -/
def NoDigitFirst (s : Bytes) : Prop := ∀ c ∈ s.head?, isDigit c = false

lemma noDigitFirst_cons {c : UInt8} (h : isDigit c = false) (s : Bytes) :
    NoDigitFirst (c :: s) := by
  intro d hd
  rwa [← Option.some.inj hd]

lemma takeWhile_decimal (n : Nat) {after : Bytes} (h : NoDigitFirst after) :
    (decimal n ++ after).takeWhile isDigit = decimal n ∧
      (decimal n ++ after).dropWhile isDigit = after := by
  have hdigits := decimal_isDigit n
  have hstop : after.takeWhile isDigit = [] ∧ after.dropWhile isDigit = after := by
    cases after with
    | nil => exact ⟨rfl, rfl⟩
    | cons c rest => simp [h c rfl]
  rw [List.takeWhile_append_of_pos hdigits, List.dropWhile_append_of_pos hdigits, hstop.1, hstop.2,
    List.append_nil]
  exact ⟨rfl, rfl⟩

lemma decimal_first (n : Nat) : ∃ c rest, decimal n = c :: rest ∧ isSpace c = false ∧
    c ≠ 0x2D ∧ c ≠ 0x2B := by
  obtain ⟨c, rest, heq⟩ := List.exists_cons_of_ne_nil (decimal_ne_nil n)
  have hdigit := decimal_isDigit n c (heq ▸ List.mem_cons_self)
  simp only [isDigit, Bool.and_eq_true, decide_eq_true_eq, UInt8.le_iff_toNat_le] at hdigit
  refine ⟨c, rest, heq, ?_, ?_, ?_⟩
  · simp only [isSpace, Bool.or_eq_false_iff, beq_eq_false_iff_ne, ne_eq, Bool.and_eq_false_iff,
      decide_eq_false_iff_not, UInt8.le_iff_toNat_le, ← UInt8.toNat_inj]
    simp at hdigit ⊢
    omega
  · rintro rfl
    simp at hdigit
  · rintro rfl
    simp at hdigit

/-- A written number is scanned with what follows left over. -/
lemma scanNumber_decimal (n : Nat) {after : Bytes} (h : NoDigitFirst after) :
    scanNumber (decimal n ++ after) = some (false, n, after) := by
  obtain ⟨c, rest, heq, hspace, hminus, hplus⟩ := decimal_first n
  obtain ⟨htake, hdrop⟩ := takeWhile_decimal n h
  have hstart : (decimal n ++ after).dropWhile isSpace = decimal n ++ after := by
    rw [heq, List.cons_append, List.dropWhile_cons_of_neg (by simp [hspace])]
  have hhead : (decimal n ++ after).head? = some c := by rw [heq]; rfl
  simp only [scanNumber, hstart, hhead, Option.some.injEq, hminus, hplus, or_self, if_false, htake,
    hdrop, decimal_ne_nil, digitsValue_decimal]
  simp [hminus]

lemma scanNumber_minus (n : Nat) {after : Bytes} (h : NoDigitFirst after) :
    scanNumber (minus :: decimal n ++ after) = some (true, n, after) := by
  obtain ⟨htake, hdrop⟩ := takeWhile_decimal n h
  have hstart : (minus :: decimal n ++ after).dropWhile isSpace = minus :: decimal n ++ after :=
    List.dropWhile_cons_of_neg (by decide)
  simp only [scanNumber, hstart]
  simp [minus, htake, hdrop, decimal_ne_nil, digitsValue_decimal]

/-- Blanks before a number are skipped. -/
lemma scanNumber_space (s : Bytes) : scanNumber (space :: s) = scanNumber s := by
  rw [scanNumber, scanNumber, List.dropWhile_cons_of_pos (by decide)]

lemma scanInt_space (s : Bytes) : scanInt (space :: s) = scanInt s := by
  rw [scanInt, scanNumber_space, ← scanInt]

lemma scanUnsigned_space (s : Bytes) : scanUnsigned (space :: s) = scanUnsigned s := by
  rw [scanUnsigned, scanNumber_space, ← scanUnsigned]

lemma scanInt_signedDecimal (i : Int32) {after : Bytes} (h : NoDigitFirst after) :
    scanInt (signedDecimal i.toInt ++ after) = some (i.toInt, after) := by
  have hlow := i.le_toInt
  have hhigh := i.toInt_lt
  have hsame : i.toInt.bmod (2 ^ 32) = i.toInt := Int.bmod_eq_of_le (by omega) (by omega)
  rw [scanInt, signedDecimal]
  by_cases hneg : i.toInt < 0
  · have hmin : -((min i.toInt.natAbs (2 ^ 63) : Nat) : Int) = i.toInt := by omega
    rw [if_pos hneg, scanNumber_minus _ h]
    simp only [if_true, hmin, hsame]
  · have hmin : ((min i.toInt.natAbs (2 ^ 63 - 1) : Nat) : Int) = i.toInt := by omega
    rw [if_neg hneg, scanNumber_decimal _ h]
    simp only [Bool.false_eq_true, if_false, hmin, hsame]

lemma scanUnsigned_decimal (u : UInt32) {after : Bytes} (h : NoDigitFirst after) :
    scanUnsigned (decimal u.toNat ++ after) = some (u, after) := by
  have hlt := u.toNat_lt
  have hsmall : ¬ u.toNat ≥ 2 ^ 64 := by omega
  rw [scanUnsigned, scanNumber_decimal _ h]
  simp only [hsmall, Bool.false_eq_true, if_false, UInt32.ofNat_toNat]

end Numbers
section Strings

/-- A byte that may stand for itself. -/
def isLiteral (c : UInt8) : Bool :=
  !([0, space, 0x09, newline, backslash].contains c)

/-- A field and a way to write it: each byte as itself or as an escape. -/
inductive Written : Bytes → Bytes → Prop
  | nil : Written [] []
  | literal {c : UInt8} {field written : Bytes} (plain : isLiteral c = true)
      (rest : Written field written) : Written (c :: field) (c :: written)
  | escaped {c a b d : UInt8} {field written : Bytes} (nonzero : c ≠ 0)
      (octal : isOctal a = true ∧ isOctal b = true ∧ isOctal d = true)
      (value : octalValue a b d = c.toNat) (rest : Written field written) :
      Written (c :: field) (backslash :: a :: b :: d :: written)

variable {field written : Bytes}

lemma isLiteral_iff (c : UInt8) : isLiteral c = true ↔
    c ≠ 0 ∧ isBlank c = false ∧ c ≠ newline ∧ c ≠ backslash := by
  simp only [isLiteral, Bool.not_eq_true', List.contains_eq_mem, decide_eq_false_iff_not,
    List.mem_cons, List.not_mem_nil, or_false, not_or, isBlank, space, Bool.or_eq_false_iff,
    beq_eq_false_iff_ne, ne_eq]
  constructor
  · rintro ⟨h1, h2, h3, h4, h5⟩
    exact ⟨h1, ⟨h2, h3⟩, h4, h5⟩
  · rintro ⟨h1, ⟨h2, h3⟩, h4, h5⟩
    exact ⟨h1, h2, h3, h4, h5⟩

lemma octalEscape_literal {c : UInt8} (h : c ≠ backslash) (s : Bytes) :
    octalEscape (c :: s) = none := by
  rcases s with _ | ⟨a, _ | ⟨b, _ | ⟨d, rest⟩⟩⟩ <;> simp [octalEscape, h]

lemma octalEscape_escaped {c a b d : UInt8}
    (octal : isOctal a = true ∧ isOctal b = true ∧ isOctal d = true)
    (value : octalValue a b d = c.toNat) (rest : Bytes) :
    octalEscape (backslash :: a :: b :: d :: rest) = some (c, rest) := by
  have hlt := c.toNat_lt
  simp only [octalEscape, octal, value, true_and]
  rw [if_pos (by omega), UInt8.ofNat_toNat]

/-- A field ends before a blank or at the end of the line. -/
def BlankFirst (s : Bytes) : Prop := ∀ c ∈ s.head?, isBlank c = true

/-- Scanning up to the next blank undoes the writing. -/
lemma takeMountString_written (h : Written field written) {after : Bytes}
    (blank : BlankFirst after) {fuel : Nat} (enough : (written ++ after).length ≤ fuel) :
    takeMountString fuel (written ++ after) = (field, after) := by
  induction h generalizing fuel with
  | nil =>
    cases after with
    | nil => cases fuel <;> rfl
    | cons c rest =>
      cases fuel with
      | zero => simp at enough
      | succ fuel => simp [takeMountString, blank c rfl]
  | @literal c field written plain rest ih =>
    obtain ⟨-, hblank, -, hbackslash⟩ := (isLiteral_iff c).mp plain
    cases fuel with
    | zero => simp at enough
    | succ fuel =>
      rw [List.cons_append, takeMountString, hblank, octalEscape_literal hbackslash]
      simp only [ih (by simpa using enough), Bool.false_eq_true, if_false]
  | @escaped c a b d field written nonzero octal value rest ih =>
    cases fuel with
    | zero => simp at enough
    | succ fuel =>
      have hrest : (written ++ after).length ≤ fuel := by
        simp only [List.cons_append, List.length_cons] at enough
        omega
      simp only [List.cons_append, takeMountString, octalEscape_escaped octal value, ih hrest]
      rfl

lemma written_ne_nil (h : Written field written) (nonempty : field ≠ []) :
    ∃ c rest, written = c :: rest ∧ isBlank c = false := by
  cases h with
  | nil => exact absurd rfl nonempty
  | @literal c _ more plain _ => exact ⟨c, more, rfl, ((isLiteral_iff c).mp plain).2.1⟩
  | @escaped _ a b d _ more _ _ _ _ => exact ⟨backslash, a :: b :: d :: more, rfl, rfl⟩

/-- `parse_mount_string` reads a written field behind a space. -/
lemma parseMountString_written (h : Written field written) (nonempty : field ≠ [])
    {after : Bytes} (blank : BlankFirst after) :
    parseMountString (space :: written ++ after) = some (field, after) := by
  obtain ⟨c, rest, heq, hblank⟩ := written_ne_nil h nonempty
  have hskip : (space :: written ++ after).dropWhile isBlank = written ++ after := by
    rw [List.cons_append, List.dropWhile_cons_of_pos rfl, heq, List.cons_append,
      List.dropWhile_cons_of_neg (by simp [hblank])]
  have hne : written ++ after ≠ [] := by simp [heq]
  simp only [parseMountString, hskip, if_neg hne,
    takeMountString_written h blank (Nat.le_refl _)]

/-- A written field has no NUL and no newline, nor has the field a NUL. -/
lemma written_clean (h : Written field written) :
    (∀ c ∈ written, c ≠ 0 ∧ c ≠ newline) ∧ 0 ∉ field := by
  have hoctal : ∀ c, isOctal c = true → c ≠ 0 ∧ c ≠ newline := by
    intro c hc
    constructor <;> rintro rfl <;> exact absurd hc (by decide)
  induction h with
  | nil => simp
  | @literal c field written plain rest ih =>
    obtain ⟨hzero, -, hnewline, -⟩ := (isLiteral_iff c).mp plain
    exact ⟨List.forall_mem_cons.mpr ⟨⟨hzero, hnewline⟩, ih.1⟩, by simp [ih.2, Ne.symm hzero]⟩
  | @escaped c a b d field written nonzero octal value rest ih =>
    have hbackslash : backslash ≠ 0 ∧ backslash ≠ newline := by decide
    simp only [List.forall_mem_cons]
    exact ⟨⟨hbackslash, hoctal a octal.1, hoctal b octal.2.1, hoctal d octal.2.2, ih.1⟩,
      by simp [ih.2, Ne.symm nonzero]⟩

end Strings
section Records

def dash : Bytes := text "-"

/-- A line's record; no optional field is the separator, and no other field is empty. -/
structure MountRecord where
  id : Int32
  parentId : Int32
  devMajor : UInt32
  devMinor : UInt32
  root : Bytes
  mountPoint : Bytes
  mountOptions : Bytes
  optionalFields : List Bytes
  fsType : Bytes
  source : Bytes
  superOptions : Bytes
  nonempty : ∀ field ∈ [root, mountPoint, mountOptions, fsType, source, superOptions], field ≠ []
  optional : ∀ field ∈ optionalFields, field ≠ dash

/-- Each text behind a space. -/
def spaced (texts : List Bytes) : Bytes := texts.flatMap (fun written => space :: written)

namespace MountRecord

def numbers (record : MountRecord) : Bytes :=
  signedDecimal record.id.toInt ++ space :: (signedDecimal record.parentId.toInt ++
    space :: (decimal record.devMajor.toNat ++ colon :: decimal record.devMinor.toNat))

/-- The line has the numbers and then each written field behind a space, the separator among
them. -/
def WrittenAs (record : MountRecord) (line : Bytes) : Prop :=
  ∃ front back, List.Forall₂ Written
      (record.root :: record.mountPoint :: record.mountOptions :: record.optionalFields) front ∧
    List.Forall₂ Written [record.fsType, record.source, record.superOptions] back ∧
    line = record.numbers ++ spaced (front ++ dash :: back)

/-- What is kept of a record. -/
def mount (record : MountRecord) : Mount :=
  ⟨record.id.toInt, record.parentId.toInt, record.devMajor, record.devMinor, record.root,
    record.mountPoint, record.fsType, record.source, false, false, false⟩

end MountRecord

variable {record : MountRecord}

lemma spaced_blankFirst (texts : List Bytes) : BlankFirst (spaced texts) := by
  intro c hc
  cases texts with
  | nil => cases hc
  | cons first rest =>
    obtain rfl := Option.some.inj hc
    rfl

lemma spaced_noDigitFirst (texts : List Bytes) : NoDigitFirst (spaced texts) := by
  cases texts with
  | nil => exact fun c hc => by cases hc
  | cons first rest => exact noDigitFirst_cons rfl _

/-- The four numbers are read, and the fields are left. -/
lemma scanNumbers_written (record : MountRecord) (texts : List Bytes) :
    scanNumbers (record.numbers ++ spaced texts) = some (record.id.toInt, record.parentId.toInt,
      record.devMajor, record.devMinor, spaced texts) := by
  have hspace : ∀ s, NoDigitFirst (space :: s) := noDigitFirst_cons rfl
  have hcolon : ∀ s, NoDigitFirst (colon :: s) := noDigitFirst_cons rfl
  simp only [MountRecord.numbers, scanNumbers, List.append_assoc, List.cons_append,
    scanInt_signedDecimal _ (hspace _), scanInt_space, scanUnsigned_space,
    scanUnsigned_decimal _ (hcolon _), scanUnsigned_decimal _ (spaced_noDigitFirst texts),
    Option.bind_eq_bind, Option.bind_some, if_true]
  rfl

lemma parseMountString_first {field written : Bytes} (h : Written field written)
    (nonempty : field ≠ []) (texts : List Bytes) :
    parseMountString (spaced (written :: texts)) = some (field, spaced texts) := by
  rw [spaced, List.flatMap_cons]
  exact parseMountString_written h nonempty (spaced_blankFirst texts)

/-- The separator is written as itself. -/
lemma dash_written : Written dash dash :=
  .literal (by decide) .nil

/-- Blanks before a field are skipped. -/
lemma parseMountString_space (s : Bytes) : parseMountString (space :: s) = parseMountString s := by
  rw [parseMountString, parseMountString, List.dropWhile_cons_of_pos rfl]

lemma skipOptions_space (fuel : Nat) (s : Bytes) :
    skipOptions fuel (space :: s) = skipOptions fuel s := by
  cases fuel with
  | zero => rfl
  | succ fuel => rw [skipOptions, skipOptions, parseMountString_space]

/-- The optional fields are skipped up to the separator; one that is empty is a blank more. -/
lemma skipOptions_written {fields front : List Bytes} (h : List.Forall₂ Written fields front)
    (optional : ∀ field ∈ fields, field ≠ dash) (back : List Bytes) {fuel : Nat}
    (enough : front.length < fuel) :
    skipOptions fuel (spaced (front ++ dash :: back)) = some (spaced back) := by
  induction h generalizing fuel with
  | nil =>
    cases fuel with
    | zero => omega
    | succ fuel =>
      rw [List.nil_append, skipOptions, parseMountString_first dash_written (by decide)]
      exact if_pos rfl
  | @cons field written fields front hfield _ ih =>
    have hrest := fun other hother => optional other (List.mem_cons_of_mem field hother)
    cases fuel with
    | zero => omega
    | succ fuel =>
      rw [List.length_cons] at enough
      by_cases hempty : field = []
      · subst hempty
        cases hfield
        exact (skipOptions_space _ _).trans (ih hrest (by omega))
      · have hstring : cString field = field := cString_of_no_nul (written_clean hfield).2
        rw [List.cons_append, skipOptions, parseMountString_first hfield hempty]
        simp only [hstring]
        rw [if_neg (show field ≠ text "-" from optional field List.mem_cons_self)]
        exact ih hrest (by omega)

/-- Every field takes at least its space. -/
lemma spaced_length (texts : List Bytes) : texts.length ≤ (spaced texts).length := by
  induction texts with
  | nil => simp
  | cons written rest ih =>
    simp only [spaced, List.flatMap_cons, List.length_append, List.length_cons] at ih ⊢
    omega

/-- The line of a record is read as the record. -/
lemma parseMountLine_written {line : Bytes} (h : record.WrittenAs line) :
    parseMountLine line = some record.mount := by
  obtain ⟨front, back, hfront, hback, rfl⟩ := h
  obtain ⟨hroot, hpoint, hoptions, htype, hsource, hsuper⟩ : record.root ≠ [] ∧
      record.mountPoint ≠ [] ∧ record.mountOptions ≠ [] ∧ record.fsType ≠ [] ∧
      record.source ≠ [] ∧ record.superOptions ≠ [] := by simpa using record.nonempty
  rcases hfront with _ | ⟨hwroot, _ | ⟨hwpoint, _ | ⟨hwoptions, hoptional⟩⟩⟩
  rcases hback with _ | ⟨hwtype, _ | ⟨hwsource, _ | ⟨hwsuper, _ | _⟩⟩⟩
  rename_i wroot wpoint woptions optionals wtype wsource wsuper
  have hfuel := spaced_length (optionals ++ dash :: [wtype, wsource, wsuper])
  rw [List.length_append] at hfuel
  have hskip := skipOptions_written hoptional record.optional [wtype, wsource, wsuper]
    (show optionals.length < (spaced (optionals ++ dash :: [wtype, wsource, wsuper])).length + 1
      by simp only [List.length_cons] at hfuel; omega)
  simp only [parseMountLine, scanNumbers_written, List.cons_append, Option.bind_eq_bind,
    Option.bind_some, parseMountString_first hwroot hroot, parseMountString_first hwpoint hpoint,
    parseMountString_first hwoptions hoptions, hskip, parseMountString_first hwtype htype,
    parseMountString_first hwsource hsource, parseMountString_first hwsuper hsuper]
  rfl

end Records
section Lines

/-- `read_mount_entry` on the stream: the entry, if there is one, and what is left. -/
def readMountEntry (s : Bytes) : Option Mount × Bytes :=
  let (line, rest) := readMountLine (s.length + 1) s []
  (if line = [] then none else parseMountLine line, rest)

/-- The loop of `read_mount_line` over the pieces that `fgets` returns. -/
def joinPieces : List Bytes → Bytes → Bytes
  | [], line => line
  | buf :: more, line =>
    let chunk := cString buf
    if chunk.getLast? = some newline then line ++ chunk.dropLast
    else joinPieces more (line ++ chunk)

/-- No byte of a line ends it or a string. -/
def Clean (line : Bytes) : Prop := ∀ c ∈ line, c ≠ 0 ∧ c ≠ newline

lemma clean_append {a b : Bytes} : Clean (a ++ b) ↔ Clean a ∧ Clean b := List.forall_mem_append

lemma clean_cons {c : UInt8} {s : Bytes} : Clean (c :: s) ↔ (c ≠ 0 ∧ c ≠ newline) ∧ Clean s :=
  List.forall_mem_cons

lemma Clean.no_nul {line : Bytes} (clean : Clean line) : 0 ∉ line := fun h => (clean 0 h).1 rfl

lemma Clean.no_newline {line : Bytes} (clean : Clean line) : newline ∉ line :=
  fun h => (clean newline h).2 rfl

lemma decimal_clean (n : Nat) : Clean (decimal n) := by
  intro c hc
  have hdigit := decimal_isDigit n c hc
  constructor <;> rintro rfl <;> exact absurd hdigit (by decide)

lemma signedDecimal_clean (i : Int) : Clean (signedDecimal i) := by
  rw [signedDecimal]
  split
  · exact clean_cons.mpr ⟨by decide, decimal_clean _⟩
  · exact decimal_clean _

lemma spaced_clean {fields texts : List Bytes} (h : List.Forall₂ Written fields texts) :
    Clean (spaced texts) := by
  induction h with
  | nil => exact fun _ hc => by cases hc
  | cons hfield _ ih =>
    rw [spaced, List.flatMap_cons]
    exact clean_append.mpr ⟨clean_cons.mpr ⟨by decide, (written_clean hfield).1⟩, ih⟩

lemma line_clean {record : MountRecord} {line : Bytes} (h : record.WrittenAs line) :
    Clean line := by
  obtain ⟨front, back, hfront, hback, rfl⟩ := h
  have hnumbers : Clean record.numbers :=
    clean_append.mpr ⟨signedDecimal_clean _, clean_cons.mpr ⟨by decide, clean_append.mpr
      ⟨signedDecimal_clean _, clean_cons.mpr ⟨by decide, clean_append.mpr
        ⟨decimal_clean _, clean_cons.mpr ⟨by decide, decimal_clean _⟩⟩⟩⟩⟩⟩
  have hfields : spaced (front ++ dash :: back) = spaced front ++ spaced (dash :: back) :=
    List.flatMap_append
  rw [hfields]
  exact clean_append.mpr ⟨hnumbers, clean_append.mpr
    ⟨spaced_clean hfront, spaced_clean (.cons dash_written hback)⟩⟩

/-- A clean line is read up to its newline, whatever follows. -/
lemma readMountLine_newline {line : Bytes} (clean : Clean line) (rest before : Bytes) {fuel : Nat}
    (enough : line.length < fuel) :
    readMountLine fuel (line ++ newline :: rest) before = (before ++ line, rest) := by
  induction fuel generalizing line before with
  | zero => omega
  | succ fuel ih =>
    rw [readMountLine, if_neg (by simp)]
    rcases takeChunk_cases (lineMax - 1) (line ++ newline :: rest) with
      ⟨a, b, hsplit, ha, hchunk⟩ | ⟨hlong, hchunk⟩
    · obtain ⟨rfl, rfl⟩ := split_at_terminator clean.no_newline ha hsplit
      have hnul : 0 ∉ line ++ [newline] := by
        simpa using ⟨clean.no_nul, by decide⟩
      rw [hchunk]
      simp only [cString_of_no_nul hnul]
      rw [if_pos List.getLast?_concat, List.dropLast_concat]
    · have hle : lineMax - 1 ≤ line.length := by
        by_contra hlt
        apply hlong
        rw [List.take_append, List.mem_append]
        right
        obtain ⟨k, hk⟩ : ∃ k, lineMax - 1 - line.length = k + 1 :=
          ⟨lineMax - 1 - line.length - 1, by omega⟩
        rw [hk, List.take_succ_cons]
        exact List.mem_cons_self
      have hfront : Clean (line.take (lineMax - 1)) := fun c hc => clean c (List.mem_of_mem_take hc)
      have hback : Clean (line.drop (lineMax - 1)) := fun c hc => clean c (List.mem_of_mem_drop hc)
      have hlast : (line.take (lineMax - 1)).getLast? ≠ some newline :=
        fun h => hfront.no_newline (List.mem_of_getLast? h)
      have hshorter : (line.drop (lineMax - 1)).length < fuel := by
        rw [List.length_drop, lineMax] at *
        omega
      rw [hchunk, List.take_append_of_le_length hle, List.drop_append_of_le_length hle]
      simp only [cString_of_no_nul hfront.no_nul]
      rw [if_neg hlast, ih hback _ hshorter, List.append_assoc, List.take_append_drop]

/-- However a clean line is cut, its pieces add up to it. -/
lemma joinPieces_line {pieces : List Bytes} {line : Bytes} (clean : Clean line) (before : Bytes)
    (cut : pieces.flatten = line ∨ pieces.flatten = line ++ [newline]) :
    joinPieces pieces before = before ++ line := by
  induction pieces generalizing line before with
  | nil =>
    rcases cut with rfl | hcut
    · exact (List.append_nil before).symm
    · exact absurd hcut (by simp)
  | cons buf more ih =>
    -- a piece that is not the last one has no newline, and is appended as it is
    have hpiece : ∀ {rest}, Clean (buf ++ rest) →
        (more.flatten = rest ∨ more.flatten = rest ++ [newline]) →
        joinPieces (buf :: more) before = before ++ (buf ++ rest) := by
      intro rest hclean hcut
      obtain ⟨hbuf, hrest⟩ := clean_append.mp hclean
      have hlast : buf.getLast? ≠ some newline :=
        fun h => hbuf.no_newline (List.mem_of_getLast? h)
      rw [joinPieces]
      simp only [cString_of_no_nul hbuf.no_nul]
      rw [if_neg hlast, ih hrest _ hcut, List.append_assoc]
    rw [List.flatten_cons] at cut
    rcases cut with rfl | hcut
    · exact hpiece clean (.inl rfl)
    · rcases List.eq_nil_or_concat more.flatten with hmore | ⟨rest, last, hmore⟩
      · rw [hmore, List.append_nil] at hcut
        have hnul : 0 ∉ line ++ [newline] := by simpa using ⟨clean.no_nul, by decide⟩
        rw [joinPieces, hcut]
        simp only [cString_of_no_nul hnul]
        rw [if_pos List.getLast?_concat, List.dropLast_concat]
      · rw [List.concat_eq_append] at hmore
        rw [hmore, ← List.append_assoc] at hcut
        obtain ⟨rfl, hlast⟩ := List.append_inj' hcut rfl
        exact hpiece clean (.inr (by rw [hmore, hlast]))

/-- A written line is read as its record, with the line behind it left over; at the end of the
file, and in whatever pieces it comes. -/
theorem mount_entry_round_trip {record : MountRecord} {line : Bytes}
    (written : record.WrittenAs line) :
    (∀ rest, readMountEntry (line ++ newline :: rest) = (some record.mount, rest)) ∧
    readMountEntry line = (some record.mount, []) ∧
    ∀ pieces : List Bytes, pieces.flatten = line ∨ pieces.flatten = line ++ [newline] →
      parseMountLine (joinPieces pieces []) = some record.mount := by
  have clean := line_clean written
  have hparse := parseMountLine_written written
  have hne : line ≠ [] := by
    rintro rfl
    cases hparse
  refine ⟨?_, ?_, ?_⟩
  · intro rest
    rw [readMountEntry, readMountLine_newline clean rest []
      (by rw [List.length_append]; omega)]
    simp only [List.nil_append, if_neg hne, hparse]
  · rcases readMountLine_cases (Nat.lt_succ_self line.length) clean.no_nul [] with
      ⟨a, b, hsplit, -, -⟩ | ⟨-, hread⟩
    · exact absurd (by simp [hsplit]) clean.no_newline
    · rw [readMountEntry, hread]
      simp only [List.nil_append, if_neg hne, hparse]
  · intro pieces cut
    rw [joinPieces_line clean [] cut, List.nil_append, hparse]

/-- A record whose mount point has a blank, with two optional fields. -/
def blankRecord : MountRecord where
  id := 36
  parentId := 35
  devMajor := 98
  devMinor := 0
  root := text "/"
  mountPoint := text "/a b"
  mountOptions := text "rw"
  optionalFields := [text "shared:1", text "-1"]
  fsType := text "ext3"
  source := text "/dev/root"
  superOptions := text "rw"
  nonempty := by decide
  optional := by decide

/-- The blank is written as an escape, and so is a byte that need not be. -/
def blankLine : Bytes := text "36 35 98:0 / /\\141\\040b rw shared:1 -1 - ext3 /dev/root rw"

lemma written_plain {field : Bytes} (plain : field.all isLiteral = true) : Written field field := by
  induction field with
  | nil => exact .nil
  | cons c rest ih =>
    obtain ⟨hc, hrest⟩ := Bool.and_eq_true_iff.mp (List.all_cons.symm.trans plain)
    exact .literal hc (ih hrest)

lemma blankRecord_written : blankRecord.WrittenAs blankLine := by
  have hpoint : Written (text "/a b") (text "/\\141\\040b") :=
    .literal (by decide) (.escaped (by decide) (by decide) (by decide)
      (.escaped (by decide) (by decide) (by decide) (.literal (by decide) .nil)))
  refine ⟨[text "/", text "/\\141\\040b", text "rw", text "shared:1", text "-1"],
    [text "ext3", text "/dev/root", text "rw"], ?_, ?_, by decide +kernel⟩
  · exact .cons (written_plain (by decide)) (.cons hpoint
      (.cons (written_plain (by decide)) (.cons (written_plain (by decide))
        (.cons (written_plain (by decide)) .nil))))
  · exact .cons (written_plain (by decide)) (.cons (written_plain (by decide))
      (.cons (written_plain (by decide)) .nil))

theorem mount_entry_round_trip_blank : blankRecord.WrittenAs blankLine ∧
    readMountEntry blankLine = (some blankRecord.mount, []) :=
  ⟨blankRecord_written, (mount_entry_round_trip blankRecord_written).2.1⟩

end Lines
end MountFormat
