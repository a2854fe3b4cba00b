import SymFind.Core.SymbolData

/-!
# How a symbol is printed

Searches and free runs print a symbol alike: the path of its file, then one line
with its name and its metadata in words. A code without a name is `INVALID`.
-/
namespace SymbolPrinting
open RecordCodec SymbolData

section Words

def symbolSourceSectionToStr (symSec : SymbolSourceSection) : Bytes :=
  if symSec = .unknown then text "UNKNOWN"
  else if symSec = .symtab then text "SYMTABLE"
  else if symSec = .dynsym then text "DYNAMIC_SYMTABLE"
  else text "INVALID"

/-- File symbols have no case of their own. -/
def symbolTypeToStr (symType : SymbolType) : Bytes :=
  if symType = .unknown then text "UNKNOWN"
  else if symType = .noType then text "NO_TYPE"
  else if symType = .dataObj then text "DATA"
  else if symType = .func then text "FUNCTION"
  else if symType = .relocSym then text "RELOCATION_SYMBOL"
  else text "INVALID"

def symbolBindToStr (symBind : SymbolBind) : Bytes :=
  if symBind = .unknown then text "UNKNOWN"
  else if symBind = .local then text "LOCAL"
  else if symBind = .global then text "GLOBAL"
  else if symBind = .weak then text "WEAK"
  else text "INVALID"

def symbolVisibilityToStr (symVisibility : SymbolVisibility) : Bytes :=
  if symVisibility = .unknown then text "UNKNOWN"
  else if symVisibility = .default then text "DEFAULT"
  else if symVisibility = .internal then text "INTERNAL"
  else if symVisibility = .hidden then text "HIDDEN"
  else if symVisibility = .protected then text "PROTECTED"
  else text "INVALID"

end Words

section Lines

/-- A label in yellow and what it labels. -/
def labelled (label : String) (value : Bytes) : Bytes :=
  text "\x1b[33m" ++ text label ++ text "\x1b[0;0m " ++ value

def symbolLine (name : SymbolName) (metadata : SymbolMetaData) : Bytes :=
  text "\t" ++ labelled "sym_name:" name ++ text " | " ++
    labelled "DEF:" (if metadata.isDefined then text "DEFINED" else text "UNDEFINED") ++
    text " | " ++ labelled "SRC SECTION:" (symbolSourceSectionToStr metadata.sourceSection) ++
    text " | " ++ labelled "TYPE:" (symbolTypeToStr metadata.type) ++
    text " | " ++ labelled "BIND:" (symbolBindToStr metadata.bind) ++
    text " | " ++ labelled "VISIBILITY:" (symbolVisibilityToStr metadata.visibility) ++
    text "\n\n"

/-- The three insertions into the output stream that print one symbol of a file. -/
def insertions (filePath : Bytes) (name : SymbolName) (metadata : SymbolMetaData) : List Bytes :=
  [filePath, text ":\n", symbolLine name metadata]

end Lines
end SymbolPrinting
