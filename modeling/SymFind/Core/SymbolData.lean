import SymFind.Lib.RecordCodec

/-!
# Symbols, their metadata and the filters on them

Strings are byte strings. The scoped enumerations over `std::uint8_t` may hold
any byte in C++, named or not, and a reader of a file meets them so; each is
therefore a byte with its named values as constants.
-/
namespace SymbolData
open RecordCodec

/-- The bytes of a literal of the source; all of them are ASCII. -/
def text (s : String) : Bytes := s.toList.map (fun c => UInt8.ofNat c.toNat)

structure SymbolSourceSection where
  code : UInt8
  deriving DecidableEq

namespace SymbolSourceSection
def unknown : SymbolSourceSection := ⟨0x00⟩
def symtab : SymbolSourceSection := ⟨0x01⟩
def dynsym : SymbolSourceSection := ⟨0x02⟩
end SymbolSourceSection

structure SymbolType where
  code : UInt8
  deriving DecidableEq

namespace SymbolType
def unknown : SymbolType := ⟨0x00⟩
def noType : SymbolType := ⟨0x01⟩
def dataObj : SymbolType := ⟨0x02⟩
def func : SymbolType := ⟨0x03⟩
def relocSym : SymbolType := ⟨0x04⟩
def fileSym : SymbolType := ⟨0x05⟩
end SymbolType

structure SymbolBind where
  code : UInt8
  deriving DecidableEq

namespace SymbolBind
def unknown : SymbolBind := ⟨0x00⟩
def «local» : SymbolBind := ⟨0x01⟩
def global : SymbolBind := ⟨0x02⟩
def weak : SymbolBind := ⟨0x03⟩
end SymbolBind

structure SymbolVisibility where
  code : UInt8
  deriving DecidableEq

namespace SymbolVisibility
def unknown : SymbolVisibility := ⟨0x00⟩
def default : SymbolVisibility := ⟨0x01⟩
def internal : SymbolVisibility := ⟨0x02⟩
def hidden : SymbolVisibility := ⟨0x03⟩
def «protected» : SymbolVisibility := ⟨0x04⟩
end SymbolVisibility

structure SymbolMetaData where
  isDefined : Bool
  sourceSection : SymbolSourceSection
  type : SymbolType
  bind : SymbolBind
  visibility : SymbolVisibility
  offset : UInt32
  deriving DecidableEq

abbrev SymbolName := Bytes

structure SymbolEntry where
  name : SymbolName
  metadata : SymbolMetaData
  deriving DecidableEq

/-- A reference of the database: `file_id` indexes the found files. -/
structure SymbolRef where
  fileId : UInt32
  metadata : SymbolMetaData
  deriving DecidableEq

inductive SymbolDefinitionToPrint where
  | notSet
  | onlyDefined
  | onlyRuntime
  | showFull
  | unknown
  deriving DecidableEq

abbrev StringComparator := Bytes → Bool

def defaultStringComparator (fixedStr : Bytes) : StringComparator :=
  fun strToCompare => fixedStr == strToCompare

/-- Both branches of the source test `is_defined`; the copied condition is kept. -/
def symfinderSymbolShouldBeStored (symEnt : SymbolEntry) (defToPrint : SymbolDefinitionToPrint)
    (compareSymNames : StringComparator) : Bool :=
  if compareSymNames symEnt.name then
    if symEnt.metadata.isDefined &&
        (defToPrint == .onlyDefined || defToPrint == .showFull) then true
    else if symEnt.metadata.isDefined &&
        (defToPrint == .onlyDefined || defToPrint == .showFull) then true
    else false
  else false

/-- The reader's filter gets the name and the metadata of one reference as a view. -/
def databaseReaderEntryShouldBeStored (name : Bytes) (metadata : SymbolMetaData)
    (defToPrint : SymbolDefinitionToPrint) (compareSymNames : StringComparator) : Bool :=
  if compareSymNames name then
    if metadata.isDefined &&
        (defToPrint == .onlyDefined || defToPrint == .showFull) then true
    else if metadata.isDefined &&
        (defToPrint == .onlyDefined || defToPrint == .showFull) then true
    else false
  else false

/-- The two copies of the filter decide alike. -/
theorem filters_agree (symEnt : SymbolEntry) (defToPrint : SymbolDefinitionToPrint)
    (compareSymNames : StringComparator) :
    symfinderSymbolShouldBeStored symEnt defToPrint compareSymNames =
      databaseReaderEntryShouldBeStored symEnt.name symEnt.metadata defToPrint
        compareSymNames := rfl

/-- What both filters keep under the default comparator and `ONLYDEFINED`. -/
theorem onlyDefined_kept_iff (q name : Bytes) (metadata : SymbolMetaData) :
    databaseReaderEntryShouldBeStored name metadata .onlyDefined (defaultStringComparator q) =
        true ↔ q = name ∧ metadata.isDefined = true := by
  cases hd : metadata.isDefined
  · simp [databaseReaderEntryShouldBeStored, hd]
  · simp [databaseReaderEntryShouldBeStored, defaultStringComparator, hd]

end SymbolData
