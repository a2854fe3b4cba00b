import SymFind.Core.SymbolData

/-!
# Parsing the symbol tables of a file

What libelf and the demangler make of a file is a parameter: a failure, which
comes before the first symbol, or the symbols of the tables in their order.
-/
namespace ElfParser
open RecordCodec SymbolData

/-- What a file holds when it is opened: no object, or the symbols of its tables. -/
abbrev ObjectFile := Except Bytes (List SymbolEntry)

abbrev SymbolShouldBeIgnoredCallback := SymbolEntry → Bool

def acceptAllSymbols : SymbolShouldBeIgnoredCallback := fun _ => false

/-- The symbols handed to the store callback, in order. -/
def parseSymtables (file : ObjectFile) (ignoreSymbol : SymbolShouldBeIgnoredCallback) :
    Except Bytes (List SymbolEntry) :=
  file.map (fun syms => syms.filter (fun symEnt => ! ignoreSymbol symEnt))

lemma parseSymtables_all (file : ObjectFile) :
    parseSymtables file acceptAllSymbols = file := by
  cases file with
  | error errMsg => rfl
  | ok syms =>
    have hall : syms.filter (fun symEnt => ! acceptAllSymbols symEnt) = syms :=
      List.filter_eq_self.mpr (fun _ _ => rfl)
    exact congrArg Except.ok hall

end ElfParser
