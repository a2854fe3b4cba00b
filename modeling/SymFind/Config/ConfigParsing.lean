import SymFind.Config.ConfigParser
import SymFind.Filesystem.MountInfo
import SymFind.Lib.WordSplit

/-!
# Reading the configuration file

The file is a JSON object of strings. Its keys are checked first, then each value
is stored by its key, and at last all settings go into one block.
-/
namespace ConfigParsing
open RecordCodec SymbolData Config PathStrings MountInfo WordSplit

section Keys

def pruneBindMountsConfig : Bytes := text "prune_bind_mounts"
def debugPruningConfig : Bytes := text "debug_pruning"
def pruneFsConfig : Bytes := text "prunefs"
def prunePathsConfig : Bytes := text "prunepaths"
def pruneNamesConfig : Bytes := text "prunenames"
def databasePathConfig : Bytes := text "database_path"
def databaseScanPathConfig : Bytes := text "database_scan_path"

def validConfigs : List Bytes :=
  [pruneBindMountsConfig, debugPruningConfig, pruneFsConfig, prunePathsConfig, pruneNamesConfig,
    databasePathConfig, databaseScanPathConfig]

end Keys

section Values

def toLower (c : UInt8) : UInt8 := if 0x41 ≤ c ∧ c ≤ 0x5A then c - 0x41 + 0x61 else c

/-- Whether `strcasecmp` of a literal and a string returns 0. -/
def sameIgnoringCase (literal str : Bytes) : Bool :=
  (cString literal).map toLower == (cString str).map toLower

def toBool (str : Bytes) : Except Bytes Bool :=
  if sameIgnoringCase (text "true") str then .ok true
  else if sameIgnoringCase (text "false") str then .ok false
  else .error (text "Invalid value as boolean: " ++ str)

/-- `break_string`: the word that the loop builds starts with as many NULs as the string is long,
left there by `resize`. -/
def breakString (list : List Bytes) (str : Bytes) : List Bytes :=
  scanWords isSpace list (List.replicate str.length 0) str

def listToUpper (list : List Bytes) : List Bytes := list.map (fun str => str.map toUpper)

end Values

section Block

/-- A name of the block, with the NUL of its literal. -/
def const (name : Bytes) : Bytes := name ++ [0]

/-- Two NUL bytes follow the value. -/
def generateConfBlockBool (value : Bool) : Bytes := (if value then text "1" else text "0") ++ [0, 0]

def generateConfBlockStringList (strings : List Bytes) : Bytes :=
  strings.flatMap (fun str => str ++ [0]) ++ [0]

/-- The literal of two NULs is appended as a C string, which is empty. -/
def generateConfBlockString (string : Bytes) : Bytes := string ++ cString [0, 0]

def generateConfBlock (conf : ConfigParser) : ConfigParser :=
  { conf with
    confBlock := const pruneBindMountsConfig ++ generateConfBlockBool conf.pruneBindMounts ++
      const debugPruningConfig ++ generateConfBlockBool conf.debugPruning ++
      const pruneFsConfig ++ generateConfBlockStringList conf.prunefs ++
      const pruneNamesConfig ++ generateConfBlockStringList conf.prunenames ++
      const prunePathsConfig ++ generateConfBlockStringList conf.prunepaths ++
      const databasePathConfig ++ generateConfBlockString conf.databasePath ++
      const databaseScanPathConfig ++ generateConfBlockString conf.databaseScanPath }

end Block

section Parsing

/-- A value of the file; only strings are looked into. -/
inductive JsonValue where
  | string (value : Bytes)
  | other

abbrev JsonItems := List (Bytes × JsonValue)

/-- The items of an object are in the order of the iteration. -/
inductive JsonData where
  | object (items : JsonItems)
  | other

def validateItems : JsonItems → Except Bytes Unit
  | [] => .ok ()
  | (key, value) :: rest =>
    if key ∉ validConfigs then .error (text "Invalid config '" ++ key ++ text "'")
    else
      match value with
      | .string _ => validateItems rest
      | .other => .error (text "Value for key '" ++ key ++ text "' must be a string")

def validateConfig : JsonData → Except Bytes Unit
  | .object items => validateItems items
  | .other => .error (text "JSON must be an object")

def storeConfig (conf : ConfigParser) (key value : Bytes) : Except Bytes Unit × ConfigParser :=
  if key = pruneBindMountsConfig then
    match toBool value with
    | .error errMsg => (.error errMsg, conf)
    | .ok res => (.ok (), { conf with pruneBindMounts := res })
  else if key = debugPruningConfig then
    match toBool value with
    | .error errMsg => (.error errMsg, conf)
    | .ok res => (.ok (), { conf with debugPruning := res })
  else if key = databasePathConfig then
    if value ≠ [] then (.ok (), conf) else (.ok (), { conf with databasePath := value })
  else if key = databaseScanPathConfig then
    if value ≠ [] then (.ok (), conf) else (.ok (), { conf with databaseScanPath := value })
  else if key = pruneFsConfig then
    (.ok (), { conf with prunefs := listToUpper (breakString conf.prunefs value) })
  else if key = prunePathsConfig then
    (.ok (), { conf with prunepaths := breakString conf.prunepaths value })
  else if key = pruneNamesConfig then
    (.ok (), { conf with prunenames := breakString conf.prunenames value })
  else (.ok (), conf)

def stringItem : Bytes × JsonValue → Option (Bytes × Bytes)
  | (key, .string value) => some (key, value)
  | (_, .other) => none

/-- The items of a checked object; all of its values are strings. -/
def stringItems : JsonData → List (Bytes × Bytes)
  | .object items => items.filterMap stringItem
  | .other => []

/-- The loop of `extract_config`; it ends at the first value that cannot be stored. -/
def storeItems (conf : ConfigParser) : List (Bytes × Bytes) → Except Bytes Unit × ConfigParser
  | [] => (.ok (), conf)
  | (key, value) :: rest =>
    match storeConfig conf key value with
    | (.error errMsg, conf) => (.error errMsg, conf)
    | (.ok (), conf) => storeItems conf rest

def extractConfig (conf : ConfigParser) (items : List (Bytes × Bytes)) :
    Except Bytes Unit × ConfigParser :=
  match storeItems conf items with
  | (.error errMsg, conf) => (.error errMsg, conf)
  | (.ok (), conf) => (.ok (), generateConfBlock conf)

/-- `ConfigParser::parse` on what the JSON parser makes of the file. -/
def parse (conf : ConfigParser) (parsed : Except Bytes JsonData) :
    Except Bytes Unit × ConfigParser :=
  match parsed with
  | .error errMsg => (.error errMsg, conf)
  | .ok jsonData =>
    match validateConfig jsonData with
    | .error errMsg => (.error errMsg, conf)
    | .ok () => extractConfig conf (stringItems jsonData)

end Parsing

section Words

/-- The words of a value. -/
def wordsOf (value : Bytes) : List Bytes := words isSpace value

/-- The first word gets as many NULs in front as the value is long. -/
lemma breakString_eq (list : List Bytes) (value : Bytes) :
    breakString list value = list ++ wordsOf (List.replicate value.length 0 ++ value) := by
  apply scanWords_eq
  intro c hc
  rw [List.eq_of_mem_replicate hc]
  rfl

/-- These NULs are all that is added to the words. -/
lemma breakString_size (list : List Bytes) (value : Bytes) :
    (breakString list value).flatten.length =
      list.flatten.length + value.length + (wordsOf value).flatten.length := by
  have hnul : (List.replicate value.length (0 : UInt8)).filter (fun c => !isSpace c) =
      List.replicate value.length 0 := List.filter_replicate_of_pos rfl
  rw [breakString_eq, List.flatten_append, List.length_append, wordsOf, wordsOf, flatten_words,
    flatten_words, List.filter_append, hnul, List.length_append, List.length_replicate,
    Nat.add_assoc]

lemma breakString_words_iff (list : List Bytes) (value : Bytes) :
    breakString list value = list ++ wordsOf value ↔ value = [] := by
  constructor
  · intro h
    have hsize := breakString_size list value
    rw [h, List.flatten_append, List.length_append] at hsize
    exact List.length_eq_zero_iff.mp (by omega)
  · rintro rfl
    simp [breakString_eq]

lemma listToUpper_size (list : List Bytes) :
    (listToUpper list).flatten.length = list.flatten.length := by
  simp [listToUpper, List.length_flatten, Function.comp_def]

lemma listToUpper_words_iff (value : Bytes) :
    listToUpper (breakString [] value) = listToUpper (wordsOf value) ↔ value = [] := by
  constructor
  · intro h
    have hsize := breakString_size [] value
    rw [← listToUpper_size, h, listToUpper_size] at hsize
    simpa using hsize
  · rintro rfl
    simp [breakString_eq]

end Words

end ConfigParsing
