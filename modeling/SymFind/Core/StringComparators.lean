import SymFind.Core.SymbolData
import Mathlib.Algebra.Order.Field.Rat
import Mathlib.Data.List.Infix

/-!
# Comparators of symbol names

A regex comparator searches for the escaped text. The engines behind the regex and
the fuzzy comparator are parameters; of RE2 it is assumed that a pattern of
literals is searched for as the text that it stands for.
-/
namespace StringComparators
open RecordCodec SymbolData

section Comparators

inductive StringComparatorType where
  | notSet
  | default
  | regex
  | fuzzy
  | unknown
  deriving DecidableEq

def specialChars : Bytes := text ".^$|()[]\x7b\x7d*+?\\/"

def backslash : UInt8 := 0x5C

def regexEscape (text : Bytes) : Bytes :=
  text.flatMap (fun c => if specialChars.contains c then [backslash, c] else [c])

/-- The functions of RE2 and rapidfuzz that the comparators call. -/
structure Engines where
  /-- Whether a part of the text matches the pattern. -/
  partialMatch : Bytes → Bytes → Bool
  /-- A percentage, of the fixed string and the text. -/
  similarity : Bytes → Bytes → Rat

def re2RegexStringComparator (engines : Engines) (fixedStr : Bytes) : StringComparator :=
  fun strToCompare => engines.partialMatch strToCompare (regexEscape fixedStr)

def fuzzyStringComparator (engines : Engines) (fixedStr : Bytes) : StringComparator :=
  fun strToCompare => decide (80 ≤ engines.similarity fixedStr strToCompare)

/-- `make_string_comparator` for one string; `none` is the null pointer. -/
def makeStringComparator (engines : Engines) (compType : StringComparatorType) (fixedStr : Bytes) :
    Option StringComparator :=
  match compType with
  | .default => some (defaultStringComparator fixedStr)
  | .regex => some (re2RegexStringComparator engines fixedStr)
  | .fuzzy => some (fuzzyStringComparator engines fixedStr)
  | _ => none

end Comparators

section Literals

def metacharacters : Bytes := text ".^$|()[]\x7b\x7d*+?\\"

/-- `ispunct` of an ASCII character. -/
def isPunct (c : UInt8) : Bool :=
  (0x21 ≤ c && c ≤ 0x2F) || (0x3A ≤ c && c ≤ 0x40) || (0x5B ≤ c && c ≤ 0x60) ||
    (0x7B ≤ c && c ≤ 0x7E)

/-- The text that a pattern of literals stands for: punctuation behind a backslash, and what is not
a metacharacter, stands for itself. -/
def readLiteral : Bytes → Option Bytes
  | [] => some []
  | c :: rest =>
    if c = backslash then
      match rest with
      | [] => none
      | d :: rest => if isPunct d then (readLiteral rest).map (d :: ·) else none
    else if metacharacters.contains c then none
    else (readLiteral rest).map (c :: ·)

def ValidUtf8 (s : Bytes) : Prop := ∃ chars : List Char, s = chars.flatMap String.utf8EncodeChar

/-- A pattern of literals matches where its text occurs. -/
def Engines.LiteralSyntax (engines : Engines) : Prop :=
  ∀ pattern literal, readLiteral pattern = some literal → ValidUtf8 literal →
    ∀ t, engines.partialMatch t pattern = true ↔ literal <:+: t

lemma readLiteral_escaped {c : UInt8} (h : isPunct c = true) (rest : Bytes) :
    readLiteral (backslash :: c :: rest) = (readLiteral rest).map (c :: ·) := by
  rw [readLiteral, if_pos rfl, if_pos h]

lemma readLiteral_plain {c : UInt8} (plain : c ≠ backslash)
    (literal : ¬ metacharacters.contains c = true) (rest : Bytes) :
    readLiteral (c :: rest) = (readLiteral rest).map (c :: ·) := by
  rw [readLiteral.eq_def]
  simp only [if_neg plain, if_neg literal]

/-- Every special character is punctuation. -/
lemma isPunct_of_special {c : UInt8} (h : specialChars.contains c = true) : isPunct c = true := by
  have hall : specialChars.all isPunct = true := by decide
  exact List.all_eq_true.mp hall c (List.contains_iff_mem.mp h)

lemma special_of_meta {c : UInt8} (h : metacharacters.contains c = true) :
    specialChars.contains c = true := by
  have hall : metacharacters.all (fun c => specialChars.contains c) = true := by decide
  exact List.all_eq_true.mp hall c (List.contains_iff_mem.mp h)

lemma regexEscape_cons (c : UInt8) (rest : Bytes) : regexEscape (c :: rest) =
    (if specialChars.contains c then [backslash, c] else [c]) ++ regexEscape rest := by
  rw [regexEscape, List.flatMap_cons, ← regexEscape]

/-- Escaping is undone by reading literals, to the end of the pattern. -/
lemma readLiteral_regexEscape (s : Bytes) : readLiteral (regexEscape s) = some s := by
  induction s with
  | nil => rfl
  | cons c rest ih =>
    rw [regexEscape_cons]
    by_cases hspecial : specialChars.contains c = true
    · rw [if_pos hspecial, List.cons_append, List.cons_append, List.nil_append,
        readLiteral_escaped (isPunct_of_special hspecial), ih, Option.map_some]
    · have hplain : c ≠ backslash := by
        rintro rfl
        exact hspecial (by decide)
      have hliteral : ¬ metacharacters.contains c = true := fun h => hspecial (special_of_meta h)
      rw [if_neg hspecial, List.cons_append, List.nil_append, readLiteral_plain hplain hliteral, ih,
        Option.map_some]

lemma regexEscape_injective : Function.Injective regexEscape := by
  intro s s' h
  have hread := readLiteral_regexEscape s
  rw [h, readLiteral_regexEscape] at hread
  exact (Option.some.inj hread).symm

/-- The escaped text is a pattern of literals that stands for the text, the regex comparator of a
valid text accepts what the text occurs in, and different texts have different patterns. -/
theorem escaped_pattern_literal {engines : Engines} (literals : engines.LiteralSyntax) :
    (∀ s, readLiteral (regexEscape s) = some s) ∧
    (∀ s, ValidUtf8 s → ∀ t, re2RegexStringComparator engines s t = true ↔ s <:+: t) ∧
    ∀ s s', s ≠ s' → regexEscape s ≠ regexEscape s' := by
  refine ⟨readLiteral_regexEscape, ?_, fun _ _ hne h => hne (regexEscape_injective h)⟩
  intro s valid t
  exact literals (regexEscape s) s (readLiteral_regexEscape s) valid t

/-- Engines that search for literals, and take equal texts for similar. -/
def literalEngines : Engines where
  partialMatch t pattern :=
    match readLiteral pattern with
    | some literal => decide (literal <:+: t)
    | none => false
  similarity fixedStr t := if fixedStr = t then 100 else 0

lemma literalEngines_literals : literalEngines.LiteralSyntax := by
  intro pattern literal hread _ t
  simp [literalEngines, hread]

theorem escaped_pattern_literal_dot :
    re2RegexStringComparator literalEngines (text "a.b") (text "xa.by") = true ∧
      re2RegexStringComparator literalEngines (text "a.b") (text "xaXby") = false := by
  have accepts := (escaped_pattern_literal literalEngines_literals).2.1 (text "a.b")
    ⟨['a', '.', 'b'], by decide⟩
  exact ⟨(accepts (text "xa.by")).mpr (by decide),
    Bool.eq_false_iff.mpr (fun h => absurd ((accepts (text "xaXby")).mp h) (by decide))⟩

end Literals
end StringComparators
