import SymFind.Core.StringComparators
import SymFind.Core.Machine
import SymFind.Lib.Outcome

/-!
# The command line

The arguments are read from left to right, and an option that takes a value reads the
next argument too. Cutting a command line into its options and values does not depend on
what was read before; the parser therefore folds over the pieces.
-/
namespace OptionParser
open RecordCodec SymbolData StringComparators Machine

section Options

inductive RunningMethod where
  | notSet
  | buildDb
  | readDb
  | freeRun
  deriving DecidableEq

def RunningMethod.code : RunningMethod → UInt8
  | .notSet => 0x00
  | .buildDb => 0x02
  | .readDb => 0x04
  | .freeRun => 0x08

structure ProgramOptions where
  runningMethod : RunningMethod := .notSet
  searchType : StringComparatorType := .notSet
  visibility : SymbolDefinitionToPrint := .notSet
  scanRootPath : Bytes := []
  symbol : Bytes := []
  debugMode : Bool := false
  showVersion : Bool := false
  printHelp : Bool := false
  deriving DecidableEq

/-- Ways not to accept a command line. -/
inductive Ended where
  /-- `false`, after a text on the error stream. -/
  | rejected (message : Bytes)
  | fault (fault : Fault)
  deriving DecidableEq

def parseRunningMethod (value : Bytes) : RunningMethod :=
  if value == text "build_db" then .buildDb
  else if value == text "read_db" then .readDb
  else if value == text "free_run" then .freeRun
  else .notSet

def parseVisibility (value : Bytes) : SymbolDefinitionToPrint :=
  if value == text "defined" || value == text "only_defined" then .onlyDefined
  else if value == text "runtime" || value == text "only_runtime" then .onlyRuntime
  else if value == text "both" || value == text "show_both" then .showFull
  else .unknown

def parseSearchType (value : Bytes) : StringComparatorType :=
  if value == text "default" then .default
  else if value == text "regex" then .regex
  else if value == text "fuzzy" then .fuzzy
  else .unknown

end Options

section Parsing

def multipleMethods : Bytes := text "ERROR: Multiple running methods entered!\n"
def invalidMethod (value : Bytes) : Bytes :=
  text "ERROR: Invalid running method: " ++ value ++ text "\n"
def searchTypeValue : Bytes := text "ERROR: --search-type option requires a value\n"
def invalidSearchType (value : Bytes) : Bytes :=
  text "ERROR: invalid --search-type value: " ++ value ++ text "\n"
def visibilityValue : Bytes := text "ERROR: --symbol-visibility option requires a value\n"
def invalidVisibility : Bytes := text "ERROR: invalid --symbol-visibility value\n"
def scanPathValue : Bytes := text "ERROR: -s, --scan-path option requires a path\n"
def multipleSymbols : Bytes := text "ERROR: multiple symbols provided\n"
def unknownOption (arg : Bytes) : Bytes := text "ERROR: unknown option: " ++ arg ++ text "\n"
def missingSymbol : Bytes := text "ERROR: missing symbol name\n"

def unusedSearchType : Bytes := text
  "WARNING! When you're using `BUILD_DB' mode, using custom search type doesn't make sence!\n"
def unusedVisibility : Bytes := text
  ("WARNING! When you're using `BUILD_DB' mode, using custom symbol visibility option doesn't " ++
    "make sence!\n")
def unusedScanPath : Bytes := text
  ("WARNING! When you're not using `FREE_RUN' mode, using custom scan path doesn't " ++
    "make sence!\n")

def dash : UInt8 := 0x2D

def isOption (arg : Bytes) (short long : String) : Bool := arg == text short || arg == text long

/-- The passes of the loop over the arguments that are left. -/
def parseLoop : List Bytes → ProgramOptions → Except Ended ProgramOptions
  | [], options => .ok options
  | arg :: rest, options =>
    if isOption arg "-h" "--help" then parseLoop rest { options with printHelp := true }
    else if isOption arg "-v" "--version" then parseLoop rest { options with showVersion := true }
    else if isOption arg "-m" "--running-method" then
      if options.runningMethod ≠ .notSet then .error (.rejected multipleMethods)
      else match rest with
        -- The element at `argc` is a null pointer, and no check precedes its use.
        | [] => .error (.fault .nullPointer)
        | value :: rest =>
          if (parseRunningMethod value).code &&& RunningMethod.notSet.code ≠ 0 then
            .error (.rejected (invalidMethod value))
          else parseLoop rest { options with runningMethod := parseRunningMethod value }
    else if isOption arg "-r" "--regex" then parseLoop rest { options with searchType := .regex }
    else if isOption arg "-f" "--fuzz" then parseLoop rest { options with searchType := .fuzzy }
    else if arg == text "--search-type" then
      match rest with
      | [] => .error (.rejected searchTypeValue)
      | value :: rest =>
        if parseSearchType value = .unknown then .error (.rejected (invalidSearchType value))
        else parseLoop rest { options with searchType := parseSearchType value }
    else if arg == text "--symbol-visibility" then
      match rest with
      | [] => .error (.rejected visibilityValue)
      | value :: rest =>
        if parseVisibility value = .unknown then .error (.rejected invalidVisibility)
        else parseLoop rest { options with visibility := parseVisibility value }
    else if isOption arg "-s" "--scan-path" then
      match rest with
      | [] => .error (.rejected scanPathValue)
      | value :: rest => parseLoop rest { options with scanRootPath := value }
    else
      -- Nothing goes on to the next argument once the debug option is noted.
      let options :=
        if isOption arg "-d" "--debug" then { options with debugMode := true } else options
      if arg.headD 0 ≠ dash then
        if options.symbol ≠ [] then .error (.rejected multipleSymbols)
        else parseLoop rest { options with symbol := arg }
      else .error (.rejected (unknownOption arg))

def orDefault {α : Type} [DecidableEq α] (unset default value : α) : α :=
  if value = unset then default else value

/-- Defaults and checks behind the loop; the warnings come with the options. -/
def finish (options : ProgramOptions) : Except Ended (ProgramOptions × List Bytes) :=
  if options.printHelp || options.showVersion then .ok (options, [])
  else
    let options :=
      { options with runningMethod := orDefault .notSet .readDb options.runningMethod }
    if options.symbol = [] ∧ options.runningMethod ≠ .buildDb then
      .error (.rejected missingSymbol)
    else
      let warnings := if options.runningMethod = .buildDb then
        (if options.searchType ≠ .notSet then [unusedSearchType] else []) ++
          (if options.visibility ≠ .notSet then [unusedVisibility] else []) else []
      let options := { options with
        searchType := orDefault .notSet .default options.searchType
        visibility := orDefault .notSet .onlyDefined options.visibility }
      if options.scanRootPath ≠ [] ∧ options.runningMethod ≠ .freeRun then
        .ok ({ options with scanRootPath := [] }, warnings ++ [unusedScanPath])
      else .ok (options, warnings)

/-- `parse_arguments`; the first argument is the name of the program. -/
def parseArguments (argv : List Bytes) (options : ProgramOptions) :
    Except Ended (ProgramOptions × List Bytes) :=
  if argv.length < 2 then .error (.rejected [])
  else parseLoop argv.tail options >>= finish

end Parsing

section Tokens

/-- The options that take a value. -/
inductive ValueOption where
  | runningMethod
  | searchType
  | visibility
  | scanPath
  deriving DecidableEq

/-- An option with its value, if an argument is left for it, or a symbol. -/
inductive Token where
  | help
  | version
  | regex
  | fuzz
  | debug (arg : Bytes)
  | value (option : ValueOption) (value : Option Bytes)
  | symbol (arg : Bytes)
  | unknown (arg : Bytes)
  deriving DecidableEq

/-- What an argument is where no value is expected. -/
def readArg (arg : Bytes) : ValueOption ⊕ Token :=
  if isOption arg "-h" "--help" then .inr .help
  else if isOption arg "-v" "--version" then .inr .version
  else if isOption arg "-m" "--running-method" then .inl .runningMethod
  else if isOption arg "-r" "--regex" then .inr .regex
  else if isOption arg "-f" "--fuzz" then .inr .fuzz
  else if arg == text "--search-type" then .inl .searchType
  else if arg == text "--symbol-visibility" then .inl .visibility
  else if isOption arg "-s" "--scan-path" then .inl .scanPath
  else if isOption arg "-d" "--debug" then .inr (.debug arg)
  else if arg.headD 0 ≠ dash then .inr (.symbol arg)
  else .inr (.unknown arg)

def tokens : List Bytes → List Token
  | [] => []
  | arg :: rest =>
    match readArg arg with
    | .inr token => token :: tokens rest
    | .inl option =>
      match rest with
      | [] => [.value option none]
      | value :: rest => .value option (some value) :: tokens rest

/-- One piece of the command line. A running method that is not recognised is none, as the test of
the parsed value never finds a bit. -/
def applyToken (options : ProgramOptions) : Token → Except Ended ProgramOptions
  | .help => .ok { options with printHelp := true }
  | .version => .ok { options with showVersion := true }
  | .regex => .ok { options with searchType := .regex }
  | .fuzz => .ok { options with searchType := .fuzzy }
  | .debug arg => .error (.rejected (unknownOption arg))
  | .value .runningMethod value =>
    if options.runningMethod ≠ .notSet then .error (.rejected multipleMethods)
    else match value with
      | none => .error (.fault .nullPointer)
      | some value => .ok { options with runningMethod := parseRunningMethod value }
  | .value .searchType none => .error (.rejected searchTypeValue)
  | .value .searchType (some value) =>
    if parseSearchType value = .unknown then .error (.rejected (invalidSearchType value))
    else .ok { options with searchType := parseSearchType value }
  | .value .visibility none => .error (.rejected visibilityValue)
  | .value .visibility (some value) =>
    if parseVisibility value = .unknown then .error (.rejected invalidVisibility)
    else .ok { options with visibility := parseVisibility value }
  | .value .scanPath none => .error (.rejected scanPathValue)
  | .value .scanPath (some value) => .ok { options with scanRootPath := value }
  | .symbol arg =>
    if options.symbol ≠ [] then .error (.rejected multipleSymbols)
    else .ok { options with symbol := arg }
  | .unknown arg => .error (.rejected (unknownOption arg))

/-- No method has a bit in common with `NOT_SET`. -/
lemma notSet_bits (m : RunningMethod) : m.code &&& RunningMethod.notSet.code = 0 := by
  cases m <;> decide

/-- The debug option starts with a dash and so is refused as unknown. -/
lemma debug_dash {arg : Bytes} (h : isOption arg "-d" "--debug" = true) : arg.headD 0 = dash := by
  rw [isOption, Bool.or_eq_true, beq_iff_eq, beq_iff_eq] at h
  rcases h with rfl | rfl
  · decide
  · decide

/-- One pass takes the argument, and the value of an option that has one, off the list. -/
lemma parseLoop_cons (arg : Bytes) (rest : List Bytes) (options : ProgramOptions) :
    parseLoop (arg :: rest) options =
      match readArg arg, rest with
      | .inr token, rest => applyToken options token >>= parseLoop rest
      | .inl option, [] => applyToken options (.value option none) >>= parseLoop []
      | .inl option, value :: rest =>
        applyToken options (.value option (some value)) >>= parseLoop rest := by
  unfold parseLoop readArg
  by_cases hhelp : isOption arg "-h" "--help" = true
  · rw [if_pos hhelp, if_pos hhelp]
    rfl
  rw [if_neg hhelp, if_neg hhelp]
  by_cases hversion : isOption arg "-v" "--version" = true
  · rw [if_pos hversion, if_pos hversion]
    rfl
  rw [if_neg hversion, if_neg hversion]
  by_cases hmethod : isOption arg "-m" "--running-method" = true
  · rw [if_pos hmethod, if_pos hmethod]
    cases rest with
    | nil =>
      simp only [applyToken]
      split <;> rfl
    | cons value rest =>
      simp only [applyToken, notSet_bits, ne_eq, not_true_eq_false, if_false]
      split <;> rfl
  rw [if_neg hmethod, if_neg hmethod]
  by_cases hregex : isOption arg "-r" "--regex" = true
  · rw [if_pos hregex, if_pos hregex]
    rfl
  rw [if_neg hregex, if_neg hregex]
  by_cases hfuzz : isOption arg "-f" "--fuzz" = true
  · rw [if_pos hfuzz, if_pos hfuzz]
    rfl
  rw [if_neg hfuzz, if_neg hfuzz]
  by_cases hsearch : (arg == text "--search-type") = true
  · rw [if_pos hsearch, if_pos hsearch]
    cases rest with
    | nil => rfl
    | cons value rest =>
      simp only [applyToken]
      split <;> rfl
  rw [if_neg hsearch, if_neg hsearch]
  by_cases hvisibility : (arg == text "--symbol-visibility") = true
  · rw [if_pos hvisibility, if_pos hvisibility]
    cases rest with
    | nil => rfl
    | cons value rest =>
      simp only [applyToken]
      split <;> rfl
  rw [if_neg hvisibility, if_neg hvisibility]
  by_cases hscan : isOption arg "-s" "--scan-path" = true
  · rw [if_pos hscan, if_pos hscan]
    cases rest with
    | nil => rfl
    | cons value rest => rfl
  rw [if_neg hscan, if_neg hscan]
  by_cases hdebug : isOption arg "-d" "--debug" = true
  · have hdash : ¬ arg.headD 0 ≠ dash := not_not_intro (debug_dash hdebug)
    simp only [if_pos hdebug, if_neg hdash]
    rfl
  by_cases hsymbol : arg.headD 0 ≠ dash
  · simp only [if_neg hdebug, if_pos hsymbol, applyToken]
    split <;> rfl
  · simp only [if_neg hdebug, if_neg hsymbol]
    rfl

lemma ite_ne {α : Type} {p : Prop} [Decidable p] {a b x : α} (ha : a ≠ x) (hb : b ≠ x) :
    (if p then a else b) ≠ x := by
  split
  · exact ha
  · exact hb

lemma readArg_no_value {arg : Bytes} {option : ValueOption} {value : Option Bytes} :
    readArg arg ≠ .inr (.value option value) := by
  unfold readArg
  repeat' apply ite_ne
  all_goals nofun

lemma tokens_single {arg : Bytes} {token : Token} (h : readArg arg = .inr token)
    (rest : List Bytes) : tokens (arg :: rest) = token :: tokens rest := by
  rw [tokens.eq_def]
  simp only [h]

lemma tokens_value {arg : Bytes} {option : ValueOption} (h : readArg arg = .inl option)
    (value : Bytes) (rest : List Bytes) :
    tokens (arg :: value :: rest) = .value option (some value) :: tokens rest := by
  rw [tokens.eq_def]
  simp only [h]

lemma tokens_no_value {arg : Bytes} {option : ValueOption} (h : readArg arg = .inl option) :
    tokens [arg] = [.value option none] := by
  rw [tokens.eq_def]
  simp only [h]

/-- The parser folds over the pieces of the command line. -/
theorem parseLoop_tokens (args : List Bytes) (options : ProgramOptions) :
    parseLoop args options = (tokens args).foldlM applyToken options := by
  induction args using tokens.induct generalizing options with
  | case1 => rfl
  | case2 arg rest token h ih =>
    rw [parseLoop_cons, tokens_single h, List.foldlM_cons]
    simp only [h]
    exact bind_congr ih
  | case3 arg option h =>
    rw [parseLoop_cons, tokens_no_value h, List.foldlM_cons]
    simp only [h]
    rfl
  | case4 arg option h value rest ih =>
    rw [parseLoop_cons, tokens_value h, List.foldlM_cons]
    simp only [h]
    exact bind_congr ih

end Tokens

section Completion

/-- The options with the defaults filled in and the unused scan path cleared. -/
def ProgramOptions.completed (options : ProgramOptions) : ProgramOptions :=
  { options with
    runningMethod := orDefault .notSet .readDb options.runningMethod
    searchType := orDefault .notSet .default options.searchType
    visibility := orDefault .notSet .onlyDefined options.visibility
    scanRootPath := if options.runningMethod = .freeRun then options.scanRootPath else [] }

lemma orDefault_ne {α : Type} [DecidableEq α] {unset default value x : α} (hvalue : value ≠ x)
    (hdefault : default ≠ x) : orDefault unset default value ≠ x := by
  rw [orDefault]
  exact ite_ne hdefault hvalue

lemma orDefault_unset {α : Type} [DecidableEq α] {unset default : α} (value : α)
    (hdefault : default ≠ unset) : orDefault unset default value ≠ unset := by
  rw [orDefault]
  split
  · exact hdefault
  · assumption

/-- A value other than the default comes from where it was set. -/
lemma orDefault_eq_iff {α : Type} [DecidableEq α] {unset default value x : α} (hunset : unset ≠ x)
    (hdefault : default ≠ x) : orDefault unset default value = x ↔ value = x := by
  rw [orDefault]
  split
  · rename_i hvalue
    exact iff_of_false hdefault (fun h => hunset (hvalue ▸ h))
  · rfl

/-- The default method neither builds a database nor does without one. -/
lemma method_buildDb_iff (m : RunningMethod) :
    orDefault .notSet .readDb m = .buildDb ↔ m = .buildDb := orDefault_eq_iff nofun nofun

lemma method_freeRun_iff (m : RunningMethod) :
    orDefault .notSet .readDb m = .freeRun ↔ m = .freeRun := orDefault_eq_iff nofun nofun

/-- Neither help nor the version is asked for. -/
def ProgramOptions.Runs (options : ProgramOptions) : Prop :=
  options.printHelp = false ∧ options.showVersion = false

lemma finish_shown {options : ProgramOptions} (shown : ¬ options.Runs) :
    finish options = .ok (options, []) := by
  have hshown : (options.printHelp || options.showVersion) = true := by
    by_contra h
    rw [Bool.or_eq_true, not_or, Bool.not_eq_true, Bool.not_eq_true] at h
    exact shown h
  rw [finish, if_pos hshown]

lemma missing_iff (options : ProgramOptions) :
    (options.symbol = [] ∧ orDefault .notSet .readDb options.runningMethod ≠ .buildDb) ↔
      options.symbol = [] ∧ options.runningMethod ≠ .buildDb := by
  rw [ne_eq, method_buildDb_iff]

lemma finish_missing {options : ProgramOptions} (runs : options.Runs)
    (missing : options.symbol = [] ∧ options.runningMethod ≠ .buildDb) :
    finish options = .error (.rejected missingSymbol) := by
  rw [finish, if_neg (by simp [runs.1, runs.2])]
  exact if_pos ((missing_iff options).mpr missing)

lemma finish_completed {options : ProgramOptions} (runs : options.Runs)
    (named : ¬ (options.symbol = [] ∧ options.runningMethod ≠ .buildDb)) :
    ∃ warnings, finish options = .ok (options.completed, warnings) := by
  rw [finish, if_neg (by simp [runs.1, runs.2])]
  simp only [if_neg (mt (missing_iff options).mp named)]
  split
  · rename_i hscan
    have hmethod : options.runningMethod ≠ .freeRun :=
      fun h => hscan.2 ((method_freeRun_iff _).mpr h)
    rw [ProgramOptions.completed, if_neg hmethod]
    exact ⟨_, rfl⟩
  · rename_i hscan
    have hkept : (if options.runningMethod = .freeRun then options.scanRootPath else []) =
        options.scanRootPath := by
      split
      · rfl
      · rename_i hmethod
        by_contra hpath
        exact hscan ⟨fun h => hpath h.symm, mt (method_freeRun_iff _).mp hmethod⟩
    rw [ProgramOptions.completed, hkept]
    exact ⟨_, rfl⟩

end Completion
end OptionParser
