import SymFind.Core.Machine
import SymFind.Core.SymbolData
import SymFind.Filesystem.PathStrings

/-!
# Reading the mount table

A line of `/proc/self/mountinfo` has two numbers, a device, three strings,
options up to a single dash and three more strings. Strings may hold octal
escapes. Lines are read in pieces of a fixed size.
-/
namespace MountInfo
open RecordCodec SymbolData Machine PathStrings

structure Mount where
  id : Int
  parentId : Int
  devMajor : UInt32
  devMinor : UInt32
  root : Bytes
  mountPoint : Bytes
  fsType : Bytes
  source : Bytes
  prunedDueToFsType : Bool
  prunedDueToPath : Bool
  toRemove : Bool
  deriving DecidableEq

section Numbers

def isSpace (c : UInt8) : Bool := c == 0x20 || (0x09 ≤ c && c ≤ 0x0D)

def digitsValue (digits : Bytes) : Nat := digits.foldl (fun n c => 10 * n + (c.toNat - 0x30)) 0

/-- White space, a sign, digits: whether the sign is a minus, the magnitude and the rest. -/
def scanNumber (s : Bytes) : Option (Bool × Nat × Bytes) :=
  let s := s.dropWhile isSpace
  let negative := s.head? == some 0x2D
  let s := if s.head? = some 0x2D ∨ s.head? = some 0x2B then s.drop 1 else s
  let digits := s.takeWhile isDigit
  if digits = [] then none else some (negative, digitsValue digits, s.dropWhile isDigit)

/-- `%d`: a `long` with saturation, cut to an `int`. -/
def scanInt (s : Bytes) : Option (Int × Bytes) :=
  match scanNumber s with
  | none => none
  | some (negative, n, rest) =>
    let long : Int := if negative then -(min n (2 ^ 63) : Nat) else (min n (2 ^ 63 - 1) : Nat)
    some (long.bmod (2 ^ 32), rest)

/-- `%u`: an `unsigned long` with saturation, a minus negates it; cut to 32 bits. -/
def scanUnsigned (s : Bytes) : Option (UInt32 × Bytes) :=
  match scanNumber s with
  | none => none
  | some (negative, n, rest) =>
    let long := if n ≥ 2 ^ 64 then 2 ^ 64 - 1 else if negative then 2 ^ 64 - n else n
    some (UInt32.ofNat long, rest)

def colon : UInt8 := 0x3A

/-- `"%d %d %u:%u%zn"`: the four numbers and what follows them. -/
def scanNumbers (s : Bytes) : Option (Int × Int × UInt32 × UInt32 × Bytes) := do
  let (id, s) ← scanInt s
  let (parentId, s) ← scanInt s
  let (devMajor, s) ← scanUnsigned s
  match s with
  | [] => none
  | c :: s =>
    if c = colon then
      let (devMinor, s) ← scanUnsigned s
      return (id, parentId, devMajor, devMinor, s)
    else none

end Numbers

section Strings

def isBlank (c : UInt8) : Bool := c == 0x20 || c == 0x09

def isOctal (c : UInt8) : Bool := 0x30 ≤ c && c ≤ 0x37

def backslash : UInt8 := 0x5C

def octalValue (a b c : UInt8) : Nat :=
  64 * (a.toNat - 0x30) + 8 * (b.toNat - 0x30) + (c.toNat - 0x30)

/-- The escape that a string begins with, if it is one of a byte. -/
def octalEscape : Bytes → Option (UInt8 × Bytes)
  | c :: a :: b :: d :: rest =>
    if c = backslash ∧ isOctal a ∧ isOctal b ∧ isOctal d ∧ octalValue a b d ≤ 255 then
      some (UInt8.ofNat (octalValue a b d), rest)
    else none
  | _ => none

/-- Up to the next blank or the end. -/
def takeMountString : Nat → Bytes → Bytes × Bytes
  | 0, s => ([], s)
  | _ + 1, [] => ([], [])
  | fuel + 1, c :: s =>
    if isBlank c then ([], c :: s)
    else
      match octalEscape (c :: s) with
      | some (v, rest) =>
        let (string, rest) := takeMountString fuel rest
        (v :: string, rest)
      | none =>
        let (string, rest) := takeMountString fuel s
        (c :: string, rest)

/-- `parse_mount_string` -/
def parseMountString (s : Bytes) : Option (Bytes × Bytes) :=
  let s := s.dropWhile isBlank
  if s = [] then none else some (takeMountString s.length s)

/-- What a `const char *` shows of a string. -/
def cString (s : Bytes) : Bytes := s.takeWhile (fun c => c != 0)

/-- The optional fields up to the separator. -/
def skipOptions : Nat → Bytes → Option Bytes
  | 0, _ => none
  | fuel + 1, s =>
    match parseMountString s with
    | none => none
    | some (option, rest) => if cString option = text "-" then some rest else skipOptions fuel rest

end Strings

section Lines

/-- `read_mount_entry` on a line: all fields of the file are set, none of the derived ones. -/
def parseMountLine (line : Bytes) : Option Mount := do
  let (id, parentId, devMajor, devMinor, s) ← scanNumbers line
  let (root, s) ← parseMountString s
  let (mountPoint, s) ← parseMountString s
  let (_, s) ← parseMountString s
  let s ← skipOptions (s.length + 1) s
  let (fsType, s) ← parseMountString s
  let (source, s) ← parseMountString s
  let _ ← parseMountString s
  return ⟨id, parentId, devMajor, devMinor, root, mountPoint, fsType, source, false, false, false⟩

/-- The stream of a file, or the null pointer of one that did not open. -/
abbrev Stream := Option Bytes

def newline : UInt8 := 0x0A
def lineMax : Nat := 2048

/-- At most that many bytes, up to a newline. -/
def takeChunk : Nat → Bytes → Bytes × Bytes
  | 0, s => ([], s)
  | _ + 1, [] => ([], [])
  | n + 1, c :: s =>
    if c = newline then ([c], s)
    else
      let (chunk, rest) := takeChunk n s
      (c :: chunk, rest)

/-- `read_mount_line`: pieces up to one with a newline or to the end of the file. Each of them
takes at least one byte. -/
def readMountLine : Nat → Bytes → Bytes → Bytes × Bytes
  | 0, s, line => (line, s)
  | fuel + 1, s, line =>
    if s = [] then (line, [])
    else
      let (buf, rest) := takeChunk (lineMax - 1) s
      let chunk := cString buf
      if chunk.getLast? = some newline then (line ++ chunk.dropLast, rest)
      else readMountLine fuel rest (line ++ chunk)

/-- The loop over the entries, up to an empty line or one that does not parse. -/
def readMounts : Nat → Bytes → List Mount
  | 0, _ => []
  | fuel + 1, s =>
    let (line, rest) := readMountLine (s.length + 1) s []
    if line = [] then []
    else
      match parseMountLine line with
      | none => []
      | some mount => mount :: readMounts fuel rest

/-- All entries of a stream; reading from the null pointer is a fault. -/
def readStream : Stream → Except Fault (List Mount)
  | none => .error .nullPointer
  | some s => .ok (readMounts (s.length + 1) s)

/-- The lines of a text; the last one needs no newline. -/
def textLines : Bytes → List Bytes
  | [] => []
  | c :: s =>
    if c = newline then [] :: textLines s
    else
      match textLines s with
      | [] => [[c]]
      | line :: rest => (c :: line) :: rest

/-- A piece ends behind the first newline, or it is as long as it may be. -/
lemma takeChunk_cases (n : Nat) (s : Bytes) :
    (∃ a b, s = a ++ newline :: b ∧ newline ∉ a ∧ takeChunk n s = (a ++ [newline], b)) ∨
      (newline ∉ s.take n ∧ takeChunk n s = (s.take n, s.drop n)) := by
  induction n generalizing s with
  | zero => exact .inr ⟨List.not_mem_nil, rfl⟩
  | succ n ih =>
    cases s with
    | nil => exact .inr ⟨List.not_mem_nil, rfl⟩
    | cons c rest =>
      rw [takeChunk]
      by_cases hc : c = newline
      · rw [if_pos hc, hc]
        exact .inl ⟨[], rest, rfl, List.not_mem_nil, rfl⟩
      · have hne : newline ≠ c := fun h => hc h.symm
        rw [if_neg hc]
        rcases ih rest with ⟨a, b, hs, ha, hchunk⟩ | ⟨ha, hchunk⟩
        · exact .inl ⟨c :: a, b, by rw [hs]; rfl, by simp [hne, ha], by rw [hchunk]; rfl⟩
        · exact .inr ⟨by simp [hne, ha], by rw [hchunk]; rfl⟩

lemma cString_of_no_nul {s : Bytes} (h : 0 ∉ s) : cString s = s := by
  induction s with
  | nil => rfl
  | cons c rest ih =>
    obtain ⟨hc, hrest⟩ := not_or.mp (List.mem_cons.not.mp h)
    have hne : (c != 0) = true := bne_iff_ne.mpr (fun hz => hc hz.symm)
    have hih := ih hrest
    rw [cString] at hih
    rw [cString, List.takeWhile_cons, if_pos hne, hih]

/-- The pieces of a line add up to it, whatever their size. -/
lemma readMountLine_cases {fuel : Nat} {s : Bytes} (enough : s.length < fuel) (noNul : 0 ∉ s)
    (line : Bytes) :
    (∃ a b, s = a ++ newline :: b ∧ newline ∉ a ∧ readMountLine fuel s line = (line ++ a, b)) ∨
      (newline ∉ s ∧ readMountLine fuel s line = (line ++ s, [])) := by
  induction fuel generalizing s line with
  | zero => omega
  | succ fuel ih =>
    rw [readMountLine]
    by_cases hs : s = []
    · exact .inr ⟨by simp [hs], by rw [if_pos hs, hs, List.append_nil]⟩
    rw [if_neg hs]
    rcases takeChunk_cases (lineMax - 1) s with ⟨a, b, hsplit, ha, hchunk⟩ | ⟨ha, hchunk⟩
    · have hnul : 0 ∉ a ++ [newline] := by
        intro h
        rcases List.mem_append.mp h with h | h
        · exact noNul (by rw [hsplit]; exact List.mem_append_left _ h)
        · exact absurd (List.mem_singleton.mp h) (by decide)
      refine .inl ⟨a, b, hsplit, ha, ?_⟩
      rw [hchunk]
      simp only [cString_of_no_nul hnul]
      rw [if_pos List.getLast?_concat, List.dropLast_concat]
    · have hnul : 0 ∉ s.take (lineMax - 1) := fun h => noNul (List.mem_of_mem_take h)
      have hlast : (s.take (lineMax - 1)).getLast? ≠ some newline :=
        fun h => ha (List.mem_of_getLast? h)
      have hdrop : (s.drop (lineMax - 1)).length < fuel := by
        have hpos := List.length_pos_iff.mpr hs
        rw [List.length_drop, lineMax]
        omega
      rw [hchunk]
      simp only [cString_of_no_nul hnul]
      rw [if_neg hlast]
      rcases ih hdrop (fun h => noNul (List.mem_of_mem_drop h)) (line ++ s.take (lineMax - 1)) with
        ⟨a, b, hsplit, hafter, hread⟩ | ⟨hafter, hread⟩
      · refine .inl ⟨s.take (lineMax - 1) ++ a, b, ?_, ?_, ?_⟩
        · rw [List.append_assoc, ← hsplit, List.take_append_drop]
        · exact fun h => (List.mem_append.mp h).elim ha hafter
        · rw [hread, List.append_assoc]
      · refine .inr ⟨?_, ?_⟩
        · intro h
          rw [← List.take_append_drop (lineMax - 1) s] at h
          exact (List.mem_append.mp h).elim ha hafter
        · rw [hread, List.append_assoc, List.take_append_drop]

end Lines

/-- Escapes are resolved, and options are skipped up to the dash. -/
example : parseMountLine (text "36 35 98:0 /a /mnt\\040b rw shared:1 - ext3 /dev/root rw") =
    some ⟨36, 35, 98, 0, text "/a", text "/mnt b", text "ext3", text "/dev/root",
      false, false, false⟩ := by decide +kernel

end MountInfo
