import SymFind.Core.Machine
import SymFind.Elf.ElfParser
import SymFind.Lib.Outcome
import SymFind.Utils.Threading

/-!
# Parsing a file with libelf

What libelf answers about a file is a parameter: section headers, symbols,
string data and archive members may hold anything. The parser divides by an
entry size, follows pointers and ends the process as the source does, so a
file can stop the program; which files do is a condition on the answers.
-/
namespace ElfFiles
open RecordCodec Outcome Machine SymbolData ElfParser Threading

section Answers

structure GElfShdr where
  shType : UInt32
  shSize : UInt64
  shEntsize : UInt64
  shLink : UInt32

structure GElfSym where
  stName : UInt32
  stInfo : UInt8
  stOther : UInt8
  stShndx : UInt16

/-- A section in the order of `elf_nextscn`. Neither `gelf_getshdr` nor `gelf_getsym` is checked:
these are the contents of the variables after the call, the symbols by their index. -/
structure ElfScn where
  shdr : GElfShdr
  sym : Nat → GElfSym

/-- The sections of an object, and the data of the section at an index: no `Elf_Data`, or the
`d_size` bytes at `d_buf`. -/
structure ElfObject where
  sections : List ElfScn
  data : UInt32 → Option Bytes

/-- A member with or without a header; `object` if its kind is `ELF_K_ELF`. -/
structure ArchiveMember where
  hasArhdr : Bool
  object : Option ElfObject

inductive ElfKind where
  | elf (object : ElfObject)
  | ar (members : List ArchiveMember)
  | other

/-- Opening a file, its descriptor, and `elf_begin` on the descriptor. -/
structure FileAnswers where
  opened : Except Nat Unit
  fd : Except Nat Unit
  descriptor : Option ElfKind

/-- The libraries: the version that `elf_version` returned at the start, and pure functions. -/
structure Libraries where
  elfCurrentVersion : UInt32
  strerror : Nat → Bytes
  demangle : Bytes → Bytes

end Answers

section Parser

/-- The ways in which a file ends the process. -/
inductive ProcessEnd where
  | divideByZero
  | crashed (fault : Fault)
  | exited (errMsg : Bytes)
  deriving DecidableEq

abbrev Parsing := Except ProcessEnd

def evNone : UInt32 := 0
def shtSymtab : UInt32 := 2
def shtDynsym : UInt32 := 11

def isSymbolDefined (sym : GElfSym) : Bool := sym.stShndx != 0

def getSymbolType (symInfo : UInt8) : SymbolType :=
  match (symInfo &&& 0xF).toNat with
  | 0 => .noType
  | 2 => .func
  | 1 => .dataObj
  | 3 => .relocSym
  | 4 => .fileSym
  | _ => .unknown

def getSymbolBind (symInfo : UInt8) : SymbolBind :=
  match (symInfo >>> 4).toNat with
  | 0 => .local
  | 2 => .weak
  | 1 => .global
  | _ => .unknown

def getSymbolVisibility (symOther : UInt8) : SymbolVisibility :=
  match (symOther &&& 0x3).toNat with
  | 0 => .default
  | 1 => .internal
  | 2 => .hidden
  | 3 => .protected
  | _ => .unknown

/-- The string that starts at an offset; `none` when no zero byte ends it inside the data. -/
def stringAt (dBuf : Bytes) (offset : Nat) : Option Bytes :=
  if 0 ∈ dBuf.drop offset then some ((dBuf.drop offset).takeWhile (fun b => b != 0)) else none

variable (libs : Libraries)

/-- One pass of the loop over a symbol table; a symbol without a name is skipped. -/
def parseSymbol (elf : ElfObject) (scn : ElfScn) (sec : SymbolSourceSection) (i : Nat) :
    Parsing (Option SymbolEntry) :=
  let sym := scn.sym i
  match elf.data scn.shdr.shLink with
  | none => throw (.crashed .nullPointer)
  | some dBuf =>
    match stringAt dBuf sym.stName.toNat with
    | none => throw (.crashed .outOfBounds)
    | some symName =>
      if symName.length = 0 then pure none
      else
        let symMetadata : SymbolMetaData :=
          { isDefined := isSymbolDefined sym
            sourceSection := sec
            type := getSymbolType sym.stInfo
            bind := getSymbolBind sym.stInfo
            visibility := getSymbolVisibility sym.stOther
            offset := 0 }
        pure (some ⟨libs.demangle symName, symMetadata⟩)

/-- The symbols of one table that are handed to the store callback. -/
def parseSymtable (elf : ElfObject) (scn : ElfScn) (sec : SymbolSourceSection)
    (ignoreSymbol : SymbolShouldBeIgnoredCallback) : Parsing (List SymbolEntry) :=
  if scn.shdr.shEntsize = 0 then throw .divideByZero
  else do
    let count := scn.shdr.shSize / scn.shdr.shEntsize
    let found ← (List.range count.toNat).mapM (parseSymbol libs elf scn sec)
    pure (found.reduceOption.filter (fun symEnt => ! ignoreSymbol symEnt))

def parseSection (elf : ElfObject) (ignoreSymbol : SymbolShouldBeIgnoredCallback)
    (scn : ElfScn) : Parsing (List SymbolEntry) :=
  if scn.shdr.shType = shtSymtab then parseSymtable libs elf scn .symtab ignoreSymbol
  else if scn.shdr.shType = shtDynsym then parseSymtable libs elf scn .dynsym ignoreSymbol
  else pure []

def parseElf (elf : ElfObject) (ignoreSymbol : SymbolShouldBeIgnoredCallback) :
    Parsing (List SymbolEntry) := do
  let tables ← elf.sections.mapM (parseSection libs elf ignoreSymbol)
  pure tables.flatten

def parseMember (ignoreSymbol : SymbolShouldBeIgnoredCallback) (member : ArchiveMember) :
    Parsing (List SymbolEntry) :=
  if ! member.hasArhdr then throw (.exited (text "elf_getarhdr() failed!\n"))
  else match member.object with
    | some elf => parseElf libs elf ignoreSymbol
    | none => pure []

def parseArchive (members : List ArchiveMember) (ignoreSymbol : SymbolShouldBeIgnoredCallback) :
    Parsing (List SymbolEntry) := do
  let parts ← members.mapM (parseMember libs ignoreSymbol)
  pure parts.flatten

/-- The inner result is the returned truth value: an error is `false` with its message. -/
def parseSymtables (file : FileAnswers) (ignoreSymbol : SymbolShouldBeIgnoredCallback) :
    Parsing (Except Bytes (List SymbolEntry)) :=
  if libs.elfCurrentVersion = evNone then throw (.exited (text "libelf init failed\n"))
  else match file.opened with
    | .error errno => pure (.error (libs.strerror errno))
    | .ok () => match file.fd with
      | .error errno => pure (.error (libs.strerror errno))
      | .ok () => match file.descriptor with
        | none => pure (.error (text "elf_begin failed"))
        | some (.elf elf) => Except.ok <$> parseElf libs elf ignoreSymbol
        | some (.ar members) => Except.ok <$> parseArchive libs members ignoreSymbol
        | some .other => pure (.error (text "Unknown file type\n"))

/-- The loop of a worker over its files. A file for which `parse_symtables` returns false is
skipped. -/
def worker {σ : Type} (tryStoreSymbol : σ → FileID → SymbolEntry → σ) :
    List (FileID × FileAnswers) → σ → Parsing σ
  | [], symtable => pure symtable
  | (fileId, file) :: rest, symtable => do
    let parsed ← parseSymtables libs file acceptAllSymbols
    match parsed with
    | .error _ => worker tryStoreSymbol rest symtable
    | .ok syms =>
      worker tryStoreSymbol rest (syms.foldl (fun t symEnt => tryStoreSymbol t fileId symEnt)
        symtable)

end Parser

section Returning

/-- A name that ends inside the string data. -/
def NameReadable (elf : ElfObject) (scn : ElfScn) (i : Nat) : Prop :=
  ∃ dBuf, elf.data scn.shdr.shLink = some dBuf ∧ 0 ∈ dBuf.drop (scn.sym i).stName.toNat

/-- A symbol table with an entry size, each of whose names ends inside the string data. -/
structure TableReadable (elf : ElfObject) (scn : ElfScn) : Prop where
  entsize : scn.shdr.shEntsize ≠ 0
  names : ∀ i < (scn.shdr.shSize / scn.shdr.shEntsize).toNat, NameReadable elf scn i

def ObjectReadable (elf : ElfObject) : Prop :=
  ∀ scn ∈ elf.sections, scn.shdr.shType = shtSymtab ∨ scn.shdr.shType = shtDynsym →
    TableReadable elf scn

/-- A member with a header that is no object or a readable one. -/
structure MemberReadable (member : ArchiveMember) : Prop where
  header : member.hasArhdr = true
  object : ∀ elf, member.object = some elf → ObjectReadable elf

def KindReadable : ElfKind → Prop
  | .elf elf => ObjectReadable elf
  | .ar members => ∀ member ∈ members, MemberReadable member
  | .other => True

/-- libelf could be set up, and if the file gets as far as that, its objects are readable. -/
structure FileReadable (libs : Libraries) (file : FileAnswers) : Prop where
  version : libs.elfCurrentVersion ≠ evNone
  kind : ∀ kind, file.opened = .ok () → file.fd = .ok () → file.descriptor = some kind →
    KindReadable kind

variable {libs : Libraries}

lemma stringAt_eq_some {dBuf : Bytes} {offset : Nat} (h : 0 ∈ dBuf.drop offset) :
    ∃ symName, stringAt dBuf offset = some symName := ⟨_, if_pos h⟩

lemma returns_parseSymbol (elf : ElfObject) (scn : ElfScn) (sec : SymbolSourceSection) (i : Nat) :
    Returns (parseSymbol libs elf scn sec i) ↔ NameReadable elf scn i := by
  rw [parseSymbol, NameReadable]
  cases elf.data scn.shdr.shLink with
  | none => exact iff_of_false (not_returns_error _) (by rintro ⟨_, h, _⟩; cases h)
  | some dBuf =>
    by_cases hend : 0 ∈ dBuf.drop (scn.sym i).stName.toNat
    · obtain ⟨symName, hname⟩ := stringAt_eq_some hend
      refine iff_of_true ?_ ⟨dBuf, rfl, hend⟩
      simp only [hname]
      split
      · exact returns_ok _
      · exact returns_ok _
    · have hname : stringAt dBuf (scn.sym i).stName.toNat = none := if_neg hend
      simp only [hname]
      refine iff_of_false (not_returns_error _) ?_
      rintro ⟨_, h, hend'⟩
      cases h
      exact hend hend'

lemma returns_parseSymtable (elf : ElfObject) (scn : ElfScn) (sec : SymbolSourceSection)
    (ignoreSymbol : SymbolShouldBeIgnoredCallback) :
    Returns (parseSymtable libs elf scn sec ignoreSymbol) ↔ TableReadable elf scn := by
  rw [parseSymtable]
  by_cases hzero : scn.shdr.shEntsize = 0
  · rw [if_pos hzero]
    exact iff_of_false (not_returns_error _) (fun h => h.entsize hzero)
  · rw [if_neg hzero]
    refine (returns_bind_total (fun _ => returns_ok _)).trans ?_
    rw [returns_mapM]
    simp only [List.mem_range, returns_parseSymbol]
    constructor
    · intro hnames
      exact ⟨hzero, hnames⟩
    · intro readable
      exact readable.names

lemma returns_parseElf (elf : ElfObject) (ignoreSymbol : SymbolShouldBeIgnoredCallback) :
    Returns (parseElf libs elf ignoreSymbol) ↔ ObjectReadable elf := by
  refine (returns_bind_total (fun _ => returns_ok _)).trans ?_
  rw [returns_mapM]
  apply forall_congr'
  intro scn
  apply imp_congr_right
  intro _
  rw [parseSection]
  by_cases hsymtab : scn.shdr.shType = shtSymtab
  · rw [if_pos hsymtab, returns_parseSymtable]
    simp [hsymtab]
  · rw [if_neg hsymtab]
    by_cases hdynsym : scn.shdr.shType = shtDynsym
    · rw [if_pos hdynsym, returns_parseSymtable]
      simp [hdynsym]
    · rw [if_neg hdynsym]
      refine iff_of_true (returns_ok _) ?_
      rintro (h | h)
      · exact absurd h hsymtab
      · exact absurd h hdynsym

lemma returns_parseArchive (members : List ArchiveMember)
    (ignoreSymbol : SymbolShouldBeIgnoredCallback) :
    Returns (parseArchive libs members ignoreSymbol) ↔
      ∀ member ∈ members, MemberReadable member := by
  refine (returns_bind_total (fun _ => returns_ok _)).trans ?_
  rw [returns_mapM]
  apply forall_congr'
  intro member
  apply imp_congr_right
  intro _
  rw [parseMember]
  cases hheader : member.hasArhdr with
  | false =>
    refine iff_of_false (not_returns_error _) ?_
    intro readable
    rw [readable.header] at hheader
    cases hheader
  | true =>
    cases hobject : member.object with
    | none =>
      refine iff_of_true (returns_ok _) ⟨hheader, ?_⟩
      intro elf helf
      rw [hobject] at helf
      cases helf
    | some elf =>
      refine (returns_parseElf elf ignoreSymbol).trans ⟨fun h => ⟨hheader, ?_⟩, fun h => ?_⟩
      · intro elf' helf
        rw [hobject] at helf
        cases helf
        exact h
      · exact h.object elf hobject

/-- Parsing a file ends by returning true or false exactly when the file is readable. -/
lemma returns_parseSymtables (file : FileAnswers) (ignoreSymbol : SymbolShouldBeIgnoredCallback) :
    Returns (parseSymtables libs file ignoreSymbol) ↔ FileReadable libs file := by
  rw [parseSymtables]
  by_cases hversion : libs.elfCurrentVersion = evNone
  · rw [if_pos hversion]
    exact iff_of_false (not_returns_error _) (fun h => h.version hversion)
  rw [if_neg hversion]
  -- a file that is not opened, or that libelf does not take, is refused with a message
  have refused : ∀ errMsg, (∀ kind, file.opened = .ok () → file.fd = .ok () →
      file.descriptor = some kind → KindReadable kind) →
      (Returns (pure (.error errMsg) : Parsing (Except Bytes (List SymbolEntry))) ↔
        FileReadable libs file) :=
    fun errMsg hkind => iff_of_true (returns_ok _) ⟨hversion, hkind⟩
  have taken : ∀ kind, file.opened = .ok () → file.fd = .ok () → file.descriptor = some kind →
      (FileReadable libs file ↔ KindReadable kind) := by
    intro kind hopened hfd hdescriptor
    constructor
    · intro readable
      exact readable.kind kind hopened hfd hdescriptor
    · intro hkind
      refine ⟨hversion, ?_⟩
      intro kind' _ _ hkind'
      obtain rfl := Option.some.inj (hdescriptor.symm.trans hkind')
      exact hkind
  cases hopened : file.opened with
  | error errno => exact refused _ (fun kind h => by rw [hopened] at h; cases h)
  | ok u =>
    cases hfd : file.fd with
    | error errno => exact refused _ (fun kind _ h => by rw [hfd] at h; cases h)
    | ok u' =>
      cases hdescriptor : file.descriptor with
      | none => exact refused _ (fun kind _ _ h => by rw [hdescriptor] at h; cases h)
      | some kind =>
        rw [taken kind hopened hfd hdescriptor]
        cases kind with
        | elf elf =>
          exact (returns_bind_total (fun _ => returns_ok _)).trans
            (returns_parseElf elf ignoreSymbol)
        | ar members =>
          exact (returns_bind_total (fun _ => returns_ok _)).trans
            (returns_parseArchive members ignoreSymbol)
        | other => exact iff_of_true (returns_ok _) trivial

/-- A worker gets through its files exactly when all of them are readable. -/
lemma returns_worker {σ : Type} (tryStoreSymbol : σ → FileID → SymbolEntry → σ)
    (files : List (FileID × FileAnswers)) (symtable : σ) :
    Returns (worker libs tryStoreSymbol files symtable) ↔
      ∀ file ∈ files, FileReadable libs file.2 := by
  induction files generalizing symtable with
  | nil => exact iff_of_true (returns_ok _) (fun file h => by cases h)
  | cons file rest ih =>
    rw [List.forall_mem_cons, ← returns_parseSymtables file.2 acceptAllSymbols]
    refine returns_bind.trans ?_
    constructor
    · rintro ⟨parsed, hparsed, hrest⟩
      refine ⟨⟨parsed, hparsed⟩, ?_⟩
      cases parsed with
      | error errMsg => exact (ih _).mp hrest
      | ok syms => exact (ih _).mp hrest
    · rintro ⟨⟨parsed, hparsed⟩, hrest⟩
      refine ⟨parsed, hparsed, ?_⟩
      cases parsed with
      | error errMsg => exact (ih _).mpr hrest
      | ok syms => exact (ih _).mpr hrest

/-- A file does not stop the program exactly when it is readable: libelf is set up, members have
headers, tables have an entry size, and names end in the string data. A worker gets to its last
file exactly when all are. -/
theorem input_files_harmless_iff (libs : Libraries) (ignoreSymbol : SymbolShouldBeIgnoredCallback)
    (file : FileAnswers) {σ : Type} (tryStoreSymbol : σ → FileID → SymbolEntry → σ)
    (files : List (FileID × FileAnswers)) (symtable : σ) :
    (Returns (parseSymtables libs file ignoreSymbol) ↔ FileReadable libs file) ∧
      (Returns (worker libs tryStoreSymbol files symtable) ↔
        ∀ file ∈ files, FileReadable libs file.2) :=
  ⟨returns_parseSymtables file ignoreSymbol, returns_worker tryStoreSymbol files symtable⟩

/-- Libraries that are set up and a demangler that changes nothing. -/
def sampleLibraries : Libraries := ⟨1, fun _ => text "Input/output error", id⟩

/-- An object whose only section is a symbol table with entries of size zero. -/
def zeroEntsizeFile : FileAnswers where
  opened := .ok ()
  fd := .ok ()
  descriptor := some (.elf
    { sections := [⟨⟨shtSymtab, 24, 0, 1⟩, fun _ => ⟨0, 0, 0, 0⟩⟩]
      data := fun _ => some [0] })

/-- The program divides by the entry size and is gone. -/
theorem zero_entsize_divides :
    ¬ Returns (parseSymtables sampleLibraries zeroEntsizeFile acceptAllSymbols) := by
  have hend : parseSymtables sampleLibraries zeroEntsizeFile acceptAllSymbols =
      .error .divideByZero := rfl
  rw [hend]
  exact not_returns_error _

end Returning

section Certain

/-- A read outside the string data need not end the process. -/
def Certain (stop : ProcessEnd) : Prop := stop ≠ .crashed .outOfBounds

/-- Every name that a symbol table asks for ends inside the string data. A name that does not is
read on in memory that is not of the file, and only that memory tells what the parser does then. -/
def NamesEnd (elf : ElfObject) : Prop :=
  ∀ scn ∈ elf.sections, scn.shdr.shType = shtSymtab ∨ scn.shdr.shType = shtDynsym →
    ∀ i < (scn.shdr.shSize / scn.shdr.shEntsize).toNat, ∀ dBuf,
      elf.data scn.shdr.shLink = some dBuf → 0 ∈ dBuf.drop (scn.sym i).stName.toNat

def KindNamesEnd : ElfKind → Prop
  | .elf elf => NamesEnd elf
  | .ar members => ∀ member ∈ members, ∀ elf, member.object = some elf → NamesEnd elf
  | .other => True

def FileNamesEnd (file : FileAnswers) : Prop :=
  ∀ kind, file.descriptor = some kind → KindNamesEnd kind

variable {libs : Libraries} {ignoreSymbol : SymbolShouldBeIgnoredCallback} {stop : ProcessEnd}

lemma parseTable_certain {elf : ElfObject} {scn : ElfScn} {sec : SymbolSourceSection}
    (inside : ∀ i < (scn.shdr.shSize / scn.shdr.shEntsize).toNat, ∀ dBuf,
      elf.data scn.shdr.shLink = some dBuf → 0 ∈ dBuf.drop (scn.sym i).stName.toNat)
    (h : parseSymtable libs elf scn sec ignoreSymbol = .error stop) :
    Certain stop := by
  rw [parseSymtable] at h
  split at h
  · cases h
    exact nofun
  refine bind_error h (fun _ hnames => ?_) (fun _ _ hlast => by cases hlast)
  refine mapM_error hnames (fun i hi stop' hsymbol => ?_)
  rw [parseSymbol] at hsymbol
  cases hdata : elf.data scn.shdr.shLink with
  | none =>
    rw [hdata] at hsymbol
    cases hsymbol
    exact nofun
  | some dBuf =>
    obtain ⟨symName, hname⟩ := stringAt_eq_some (inside i (List.mem_range.mp hi) dBuf hdata)
    simp only [hdata, hname] at hsymbol
    split at hsymbol <;> cases hsymbol

lemma parseElf_certain {elf : ElfObject} (inside : NamesEnd elf)
    (h : parseElf libs elf ignoreSymbol = .error stop) : Certain stop := by
  refine bind_error h (fun _ htables => ?_) (fun _ _ hlast => by cases hlast)
  refine mapM_error htables (fun scn hscn stop' hsection => ?_)
  rw [parseSection] at hsection
  split at hsection
  next hsymtab => exact parseTable_certain (inside scn hscn (.inl hsymtab)) hsection
  next =>
    split at hsection
    next hdynsym => exact parseTable_certain (inside scn hscn (.inr hdynsym)) hsection
    next => cases hsection

lemma parseArchive_certain {members : List ArchiveMember}
    (inside : ∀ member ∈ members, ∀ elf, member.object = some elf → NamesEnd elf)
    (h : parseArchive libs members ignoreSymbol = .error stop) : Certain stop := by
  refine bind_error h (fun _ hparts => ?_) (fun _ _ hlast => by cases hlast)
  refine mapM_error hparts (fun member hmember stop' hparse => ?_)
  rw [parseMember] at hparse
  split at hparse
  · cases hparse
    exact nofun
  · cases hobject : member.object with
    | none =>
      rw [hobject] at hparse
      cases hparse
    | some elf =>
      rw [hobject] at hparse
      exact parseElf_certain (inside member hmember elf hobject) hparse

/-- Where all names end inside their data, what ends the process is a division, a null pointer or an
exit. -/
theorem parseSymtables_certain {file : FileAnswers} (inside : FileNamesEnd file)
    (h : parseSymtables libs file ignoreSymbol = .error stop) : Certain stop := by
  rw [parseSymtables] at h
  split at h
  · cases h
    exact nofun
  · split at h
    · cases h
    · split at h
      · cases h
      · split at h
        · cases h
        next elf hdescriptor =>
          exact bind_error h (fun _ helf => parseElf_certain (inside _ hdescriptor) helf)
            (fun _ _ hlast => by cases hlast)
        next members hdescriptor =>
          exact bind_error h (fun _ har => parseArchive_certain (inside _ hdescriptor) har)
            (fun _ _ hlast => by cases hlast)
        · cases h

end Certain

section Reported

/-- The file as the rest of the program sees it, once parsing it returns. -/
def objectFile (libs : Libraries) (file : FileAnswers) : ObjectFile :=
  match parseSymtables libs file acceptAllSymbols with
  | .error _ => .error []
  | .ok parsed => parsed

/-- Filtering part by part filters the whole. -/
lemma filtered_parts {α : Type} {p : SymbolEntry → Bool} {f g : α → Parsing (List SymbolEntry)}
    (each : ∀ a, f a = (fun syms => syms.filter p) <$> g a) (l : List α) :
    (do let parts ← l.mapM f; pure parts.flatten : Parsing (List SymbolEntry)) =
      (fun syms => syms.filter p) <$> (do let parts ← l.mapM g; pure parts.flatten) := by
  induction l with
  | nil => rfl
  | cons a rest ih =>
    simp only [List.mapM_cons, each a]
    cases hg : g a with
    | error stop => rfl
    | ok syms =>
      rcases hf : rest.mapM f with stop | parts
      · rcases hr : rest.mapM g with stop' | parts'
        · simp only [hf, hr] at ih ⊢
          cases ih
          rfl
        · simp only [hf, hr] at ih
          cases ih
      · rcases hr : rest.mapM g with stop' | parts'
        · simp only [hf, hr] at ih
          cases ih
        · simp only [hf, hr] at ih ⊢
          have hflat : parts.flatten = parts'.flatten.filter p := Except.ok.inj ih
          change Except.ok (syms.filter p :: parts).flatten =
            Except.ok ((syms :: parts').flatten.filter p)
          rw [List.flatten_cons, List.flatten_cons, List.filter_append, hflat]

variable {libs : Libraries}

lemma parseSymtable_filtered (elf : ElfObject) (scn : ElfScn) (sec : SymbolSourceSection)
    (ignoreSymbol : SymbolShouldBeIgnoredCallback) :
    parseSymtable libs elf scn sec ignoreSymbol =
      (fun syms => syms.filter (fun symEnt => ! ignoreSymbol symEnt)) <$>
        parseSymtable libs elf scn sec acceptAllSymbols := by
  rw [parseSymtable, parseSymtable]
  by_cases hzero : scn.shdr.shEntsize = 0
  · rw [if_pos hzero, if_pos hzero]
    rfl
  · rw [if_neg hzero, if_neg hzero]
    dsimp only
    cases (List.range (scn.shdr.shSize / scn.shdr.shEntsize).toNat).mapM
        (parseSymbol libs elf scn sec) with
    | error stop => rfl
    | ok found =>
      have hall : found.reduceOption.filter (fun symEnt => ! acceptAllSymbols symEnt) =
          found.reduceOption := List.filter_eq_self.mpr (fun _ _ => rfl)
      exact congrArg (fun syms => Except.ok (syms.filter (fun symEnt => ! ignoreSymbol symEnt)))
        hall.symm

lemma parseElf_filtered (elf : ElfObject) (ignoreSymbol : SymbolShouldBeIgnoredCallback) :
    parseElf libs elf ignoreSymbol =
      (fun syms => syms.filter (fun symEnt => ! ignoreSymbol symEnt)) <$>
        parseElf libs elf acceptAllSymbols := by
  apply filtered_parts
  intro scn
  rw [parseSection, parseSection]
  split
  · exact parseSymtable_filtered elf scn _ ignoreSymbol
  · split
    · exact parseSymtable_filtered elf scn _ ignoreSymbol
    · rfl

lemma parseArchive_filtered (members : List ArchiveMember)
    (ignoreSymbol : SymbolShouldBeIgnoredCallback) :
    parseArchive libs members ignoreSymbol =
      (fun syms => syms.filter (fun symEnt => ! ignoreSymbol symEnt)) <$>
        parseArchive libs members acceptAllSymbols := by
  apply filtered_parts
  intro member
  rw [parseMember, parseMember]
  split
  · rfl
  · cases member.object with
    | none => rfl
    | some elf => exact parseElf_filtered elf ignoreSymbol

/-- A readable file is parsed, under any callback, as its abstract file. -/
theorem parse_as_objectFile {file : FileAnswers} (readable : FileReadable libs file)
    (ignoreSymbol : SymbolShouldBeIgnoredCallback) :
    parseSymtables libs file ignoreSymbol =
      .ok (ElfParser.parseSymtables (objectFile libs file) ignoreSymbol) := by
  have hfiltered : parseSymtables libs file ignoreSymbol =
      (fun parsed => ElfParser.parseSymtables parsed ignoreSymbol) <$>
        parseSymtables libs file acceptAllSymbols := by
    rw [parseSymtables, parseSymtables]
    split
    · rfl
    · split
      · rfl
      · split
        · rfl
        · split
          · rfl
          · rename_i elf _
            rw [parseElf_filtered elf ignoreSymbol]
            cases parseElf libs elf acceptAllSymbols with
            | error stop => rfl
            | ok syms => rfl
          · rename_i members _
            rw [parseArchive_filtered members ignoreSymbol]
            cases parseArchive libs members acceptAllSymbols with
            | error stop => rfl
            | ok syms => rfl
          · rfl
  obtain ⟨parsed, hparsed⟩ := (returns_parseSymtables file acceptAllSymbols).mpr readable
  rw [hfiltered, objectFile, hparsed]
  rfl

end Reported
end ElfFiles
