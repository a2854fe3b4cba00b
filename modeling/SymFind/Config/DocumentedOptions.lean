import SymFind.Config.CommandLines

/-!
# The documented options

A command line of documented options means the values given last, or the defaults. It is
accepted with this meaning unless the debug option is on it: that one is noted and then
refused as unknown.
-/
namespace DocumentedOptions
open RecordCodec SymbolData StringComparators OptionParser Outcome CommandLines

section Items

def documentedMethods : List (Bytes × RunningMethod) :=
  [(text "build_db", .buildDb), (text "read_db", .readDb), (text "free_run", .freeRun)]

def documentedSearchTypes : List (Bytes × StringComparatorType) :=
  [(text "default", .default), (text "regex", .regex), (text "fuzzy", .fuzzy)]

def documentedVisibilities : List (Bytes × SymbolDefinitionToPrint) :=
  [(text "defined", .onlyDefined), (text "runtime", .onlyRuntime), (text "both", .showFull)]

/-- The uses of the options that `print_help` lists, in the short or the long form, without help
and version; and the symbol. -/
inductive Item where
  | runningMethod (long : Bool) (value : Bytes × RunningMethod)
      (documented : value ∈ documentedMethods)
  | regex (long : Bool)
  | fuzz (long : Bool)
  | searchType (value : Bytes × StringComparatorType)
      (documented : value ∈ documentedSearchTypes)
  | visibility (value : Bytes × SymbolDefinitionToPrint)
      (documented : value ∈ documentedVisibilities)
  | scanPath (long : Bool) (path : Bytes)
  | debug (long : Bool)
  | symbol (name : Bytes) (nonempty : name ≠ []) (plain : name.head? ≠ some dash)

def form (long : Bool) (short full : String) : Bytes := if long then text full else text short

def Item.args : Item → List Bytes
  | .runningMethod long value _ => [form long "-m" "--running-method", value.1]
  | .regex long => [form long "-r" "--regex"]
  | .fuzz long => [form long "-f" "--fuzz"]
  | .searchType value _ => [text "--search-type", value.1]
  | .visibility value _ => [text "--symbol-visibility", value.1]
  | .scanPath long path => [form long "-s" "--scan-path", path]
  | .debug long => [form long "-d" "--debug"]
  | .symbol name _ _ => [name]

def Item.token : Item → Token
  | .runningMethod _ value _ => .value .runningMethod (some value.1)
  | .regex _ => .regex
  | .fuzz _ => .fuzz
  | .searchType value _ => .value .searchType (some value.1)
  | .visibility value _ => .value .visibility (some value.1)
  | .scanPath _ path => .value .scanPath (some path)
  | .debug long => .debug (form long "-d" "--debug")
  | .symbol name _ _ => .symbol name

def commandLine (items : List Item) : List Bytes := items.flatMap Item.args

def Item.isDebug : Item → Bool
  | .debug _ => true
  | _ => false

def Item.givenMethod : Item → Option RunningMethod
  | .runningMethod _ value _ => some value.2
  | _ => none

def Item.givenSearchType : Item → Option StringComparatorType
  | .regex _ => some .regex
  | .fuzz _ => some .fuzzy
  | .searchType value _ => some value.2
  | _ => none

def Item.givenVisibility : Item → Option SymbolDefinitionToPrint
  | .visibility value _ => some value.2
  | _ => none

def Item.givenSymbol : Item → Option Bytes
  | .symbol name _ _ => some name
  | _ => none

def methods (items : List Item) : List RunningMethod := items.filterMap Item.givenMethod

def searchTypes (items : List Item) : List StringComparatorType :=
  items.filterMap Item.givenSearchType

def visibilities (items : List Item) : List SymbolDefinitionToPrint :=
  items.filterMap Item.givenVisibility

def symbols (items : List Item) : List Bytes := items.filterMap Item.givenSymbol

/-- At most one running method and one symbol, which only `build_db` does without. -/
structure WellFormed (items : List Item) : Prop where
  oneMethod : (methods items).length ≤ 1
  oneSymbol : (symbols items).length ≤ 1
  named : symbols items = [] → .buildDb ∈ methods items

/-- The options that a command line stands for: the last value where several may be given. -/
structure Meant (items : List Item) (options : ProgramOptions) : Prop where
  debugMode : options.debugMode = items.any Item.isDebug
  symbol : options.symbol = (symbols items).getLast?.getD []
  runningMethod : options.runningMethod = (methods items).getLast?.getD .readDb
  searchType : options.searchType = (searchTypes items).getLast?.getD .default
  visibility : options.visibility = (visibilities items).getLast?.getD .onlyDefined

def Accepted (program : Bytes) (items : List Item) : Prop :=
  ∃ options warnings,
    parseArguments (program :: commandLine items) {} = .ok (options, warnings) ∧
      Meant items options

/-- The options with one more item. -/
def Item.note (options : ProgramOptions) : Item → ProgramOptions
  | .runningMethod _ value _ => { options with runningMethod := value.2 }
  | .regex _ => { options with searchType := .regex }
  | .fuzz _ => { options with searchType := .fuzzy }
  | .searchType value _ => { options with searchType := value.2 }
  | .visibility value _ => { options with visibility := value.2 }
  | .scanPath _ path => { options with scanRootPath := path }
  | .debug _ => { options with debugMode := true }
  | .symbol name _ _ => { options with symbol := name }

/-- How many running methods and symbols may follow. -/
structure Room (options : ProgramOptions) (items : List Item) : Prop where
  method : (methods items).length ≤ if options.runningMethod = .notSet then 1 else 0
  symbol : (symbols items).length ≤ if options.symbol = [] then 1 else 0

end Items

section Reading

/-- An argument without a dash is no option. -/
lemma readArg_symbol {name : Bytes} (plain : name.head? ≠ some dash) :
    readArg name = .inr (.symbol name) := by
  have hne : ∀ s : String, (text s).head? = some dash → (name == text s) = false := by
    intro s hs
    rw [beq_eq_false_iff_ne]
    rintro rfl
    exact plain hs
  have hoption : ∀ short long : String, (text short).head? = some dash →
      (text long).head? = some dash → isOption name short long = false := by
    intro short long hshort hlong
    rw [isOption, hne short hshort, hne long hlong, Bool.or_false]
  have hhead : name.headD 0 ≠ dash := by
    cases name with
    | nil => decide
    | cons c rest => exact fun h => plain (congrArg some h)
  simp only [readArg, hoption "-h" "--help" rfl rfl, hoption "-v" "--version" rfl rfl,
    hoption "-m" "--running-method" rfl rfl, hoption "-r" "--regex" rfl rfl,
    hoption "-f" "--fuzz" rfl rfl, hne "--search-type" rfl, hne "--symbol-visibility" rfl,
    hoption "-s" "--scan-path" rfl rfl, hoption "-d" "--debug" rfl rfl, Bool.false_eq_true,
    if_false, if_pos hhead]

lemma tokens_item (item : Item) (rest : List Bytes) :
    tokens (item.args ++ rest) = item.token :: tokens rest := by
  cases item with
  | runningMethod long value _ => exact tokens_value (by cases long <;> decide) value.1 rest
  | regex long => exact tokens_single (by cases long <;> decide) rest
  | fuzz long => exact tokens_single (by cases long <;> decide) rest
  | searchType value _ => exact tokens_value (by decide) value.1 rest
  | visibility value _ => exact tokens_value (by decide) value.1 rest
  | scanPath long path => exact tokens_value (by cases long <;> decide) path rest
  | debug long => exact tokens_single (by cases long <;> decide) rest
  | symbol name _ plain => exact tokens_single (readArg_symbol plain) rest

lemma tokens_commandLine (items : List Item) :
    tokens (commandLine items) = items.map Item.token := by
  induction items with
  | nil => rfl
  | cons item items ih =>
    rw [commandLine, List.flatMap_cons, tokens_item, List.map_cons, ← ih, commandLine]

lemma parse_documentedMethod {value : Bytes × RunningMethod} (h : value ∈ documentedMethods) :
    parseRunningMethod value.1 = value.2 ∧ value.2 ≠ .notSet := by
  have hall : ∀ value ∈ documentedMethods,
      parseRunningMethod value.1 = value.2 ∧ value.2 ≠ .notSet := by decide
  exact hall value h

lemma parse_documentedSearchType {value : Bytes × StringComparatorType}
    (h : value ∈ documentedSearchTypes) :
    parseSearchType value.1 = value.2 ∧ value.2 ≠ .notSet ∧ value.2 ≠ .unknown := by
  have hall : ∀ value ∈ documentedSearchTypes,
      parseSearchType value.1 = value.2 ∧ value.2 ≠ .notSet ∧ value.2 ≠ .unknown := by decide
  exact hall value h

lemma parse_documentedVisibility {value : Bytes × SymbolDefinitionToPrint}
    (h : value ∈ documentedVisibilities) :
    parseVisibility value.1 = value.2 ∧ value.2 ≠ .notSet ∧ value.2 ≠ .unknown := by
  have hall : ∀ value ∈ documentedVisibilities,
      parseVisibility value.1 = value.2 ∧ value.2 ≠ .notSet ∧ value.2 ≠ .unknown := by decide
  exact hall value h

lemma applyToken_item {item : Item} {items : List Item} {options : ProgramOptions}
    (room : Room options (item :: items)) (quiet : item.isDebug = false) :
    applyToken options item.token = .ok (item.note options) ∧ Room (item.note options) items := by
  cases item with
  | debug long => cases quiet
  | regex long => exact ⟨rfl, room.method, room.symbol⟩
  | fuzz long => exact ⟨rfl, room.method, room.symbol⟩
  | scanPath long path => exact ⟨rfl, room.method, room.symbol⟩
  | searchType value documented =>
    obtain ⟨hparse, _, hknown⟩ := parse_documentedSearchType documented
    refine ⟨?_, room.method, room.symbol⟩
    rw [Item.token, applyToken, hparse, if_neg hknown, Item.note]
  | visibility value documented =>
    obtain ⟨hparse, _, hknown⟩ := parse_documentedVisibility documented
    refine ⟨?_, room.method, room.symbol⟩
    rw [Item.token, applyToken, hparse, if_neg hknown, Item.note]
  | runningMethod long value documented =>
    obtain ⟨hparse, hreal⟩ := parse_documentedMethod documented
    have hmethod : (methods items).length + 1 ≤ if options.runningMethod = .notSet then 1 else 0 :=
      room.method
    split at hmethod
    · rename_i hunset
      refine ⟨?_, ?_, room.symbol⟩
      · rw [Item.token, applyToken.eq_def]
        simp only [hunset, ne_eq, not_true_eq_false, if_false, hparse, Item.note]
      · exact (Nat.le_of_succ_le_succ hmethod).trans (Nat.zero_le _)
    · omega
  | symbol name nonempty plain =>
    have hsymbol : (symbols items).length + 1 ≤ if options.symbol = [] then 1 else 0 := room.symbol
    split at hsymbol
    · rename_i hunnamed
      refine ⟨?_, room.method, ?_⟩
      · rw [Item.token, applyToken, if_neg (not_not_intro hunnamed), Item.note]
      · exact (Nat.le_of_succ_le_succ hsymbol).trans (Nat.zero_le _)
    · omega

end Reading

section Meaning

/-- Items without the debug option are noted one after the other. -/
lemma foldlM_items {items : List Item} {options : ProgramOptions} (room : Room options items)
    (quiet : ∀ item ∈ items, item.isDebug = false) :
    (items.map Item.token).foldlM applyToken options = .ok (items.foldl Item.note options) := by
  induction items generalizing options with
  | nil => rfl
  | cons item items ih =>
    obtain ⟨htaken, hroom⟩ := applyToken_item room (quiet item List.mem_cons_self)
    rw [List.map_cons, List.foldlM_cons, htaken, List.foldl_cons]
    exact ih hroom (fun other hother => quiet other (List.mem_cons_of_mem _ hother))

/-- What a field holds after the items: the last value that one of them gives it. -/
lemma noted_last {β : Type} (field : ProgramOptions → β) (given : Item → Option β)
    (noted : ∀ options item, field (item.note options) = (given item).getD (field options))
    (items : List Item) (options : ProgramOptions) :
    field (items.foldl Item.note options) =
      (items.filterMap given).getLast?.getD (field options) := by
  induction items generalizing options with
  | nil => rfl
  | cons item items ih =>
    rw [List.foldl_cons, ih, noted]
    cases hgiven : given item with
    | none => rw [List.filterMap_cons_none hgiven, Option.getD_none]
    | some value =>
      rw [List.filterMap_cons_some hgiven, List.getLast?_cons, Option.getD_some, Option.getD_some]

lemma noted_debug (items : List Item) (options : ProgramOptions) :
    (items.foldl Item.note options).debugMode = (options.debugMode || items.any Item.isDebug) := by
  induction items generalizing options with
  | nil => simp
  | cons item items ih =>
    rw [List.foldl_cons, ih, List.any_cons, ← Bool.or_assoc]
    cases item <;> simp [Item.note, Item.isDebug]

lemma noted_runs (items : List Item) {options : ProgramOptions} (runs : options.Runs) :
    (items.foldl Item.note options).Runs := by
  induction items generalizing options with
  | nil => exact runs
  | cons item items ih =>
    refine ih ?_
    cases item <;> exact runs

/-- The default of the record gives way to the default of the parser. -/
lemma orDefault_last {α : Type} [DecidableEq α] {unset : α} (default : α) {values : List α}
    (set : ∀ value ∈ values, value ≠ unset) :
    orDefault unset default (values.getLast?.getD unset) = values.getLast?.getD default := by
  rw [orDefault]
  cases hlast : values.getLast? with
  | none => rw [Option.getD_none, if_pos rfl, Option.getD_none]
  | some value => rw [Option.getD_some, if_neg (set value (List.mem_of_getLast? hlast)),
      Option.getD_some]

lemma methods_real {items : List Item} : ∀ m ∈ methods items, m ≠ .notSet := by
  refine List.forall_mem_filterMap.mpr fun item _ m hm => ?_
  cases item with
  | runningMethod long value documented =>
    cases hm
    exact (parse_documentedMethod documented).2
  | _ => cases hm

lemma searchTypes_real {items : List Item} : ∀ t ∈ searchTypes items, t ≠ .notSet := by
  refine List.forall_mem_filterMap.mpr fun item _ t ht => ?_
  cases item with
  | regex => cases ht; decide
  | fuzz => cases ht; decide
  | searchType value documented =>
    cases ht
    exact (parse_documentedSearchType documented).2.1
  | _ => cases ht

lemma visibilities_real {items : List Item} : ∀ v ∈ visibilities items, v ≠ .notSet := by
  refine List.forall_mem_filterMap.mpr fun item _ v hv => ?_
  cases item with
  | visibility value documented =>
    cases hv
    exact (parse_documentedVisibility documented).2.1
  | _ => cases hv

lemma symbols_nonempty {items : List Item} : ∀ name ∈ symbols items, name ≠ [] := by
  refine List.forall_mem_filterMap.mpr fun item _ name hname => ?_
  cases item with
  | symbol name nonempty _ =>
    cases hname
    exact nonempty
  | _ => cases hname

/-- The noted options with the defaults filled in are the ones that are meant. -/
lemma meant_noted (items : List Item) : Meant items (items.foldl Item.note {}).completed where
  debugMode := (noted_debug items {}).trans (Bool.false_or _)
  symbol := noted_last (·.symbol) Item.givenSymbol (fun _ item => by cases item <;> rfl) items {}
  runningMethod := by
    have hlast := noted_last (·.runningMethod) Item.givenMethod
      (fun _ item => by cases item <;> rfl) items {}
    rw [ProgramOptions.completed, hlast]
    exact orDefault_last .readDb methods_real
  searchType := by
    have hlast := noted_last (·.searchType) Item.givenSearchType
      (fun _ item => by cases item <;> rfl) items {}
    rw [ProgramOptions.completed, hlast]
    exact orDefault_last .default searchTypes_real
  visibility := by
    have hlast := noted_last (·.visibility) Item.givenVisibility
      (fun _ item => by cases item <;> rfl) items {}
    rw [ProgramOptions.completed, hlast]
    exact orDefault_last .onlyDefined visibilities_real

/-- A symbol is there, or nothing but the database is built. -/
lemma noted_named {items : List Item} (wellFormed : WellFormed items) :
    ¬ ((items.foldl Item.note {}).symbol = [] ∧
      (items.foldl Item.note {}).runningMethod ≠ .buildDb) := by
  rw [noted_last (·.symbol) Item.givenSymbol (fun _ item => by cases item <;> rfl),
    noted_last (·.runningMethod) Item.givenMethod (fun _ item => by cases item <;> rfl)]
  rintro ⟨hsymbol, hmethod⟩
  change (symbols items).getLast?.getD [] = [] at hsymbol
  change (methods items).getLast?.getD .notSet ≠ .buildDb at hmethod
  cases hlast : (symbols items).getLast? with
  | some name =>
    rw [hlast] at hsymbol
    exact symbols_nonempty name (List.mem_of_getLast? hlast) hsymbol
  | none =>
    have hmem := wellFormed.named (List.getLast?_eq_none_iff.mp hlast)
    have honly : methods items = [.buildDb] := by
      obtain ⟨m, hm⟩ := List.length_eq_one_iff.mp
        (le_antisymm wellFormed.oneMethod (List.length_pos_of_mem hmem))
      rw [hm] at hmem ⊢
      rw [List.mem_singleton.mp hmem]
    rw [honly] at hmethod
    exact hmethod rfl

lemma commandLine_ne_nil {items : List Item} (wellFormed : WellFormed items) :
    commandLine items ≠ [] := by
  cases items with
  | nil => cases wellFormed.named rfl
  | cons item items => cases item <;> exact List.cons_ne_nil _ _

/-- Documented command lines are accepted, with the options that they stand for, exactly when the
debug option is not among them. -/
theorem documented_accepted_iff (program : Bytes) (items : List Item)
    (wellFormed : WellFormed items) :
    Accepted program items ↔ ∀ item ∈ items, item.isDebug = false := by
  constructor
  · rintro ⟨options, warnings, haccepted, _⟩ item hitem
    obtain ⟨options', hfold, _⟩ := parseArguments_ok haccepted
    rw [List.tail_cons, tokens_commandLine] at hfold
    obtain ⟨s₁, s₂, hstep⟩ := foldlM_step_ok hfold (List.mem_map_of_mem hitem)
    cases item with
    | debug long => cases hstep
    | _ => rfl
  · intro quiet
    have hroom : Room {} items := ⟨wellFormed.oneMethod, wellFormed.oneSymbol⟩
    have hruns : (items.foldl Item.note {}).Runs := noted_runs items ⟨rfl, rfl⟩
    obtain ⟨warnings, hfinish⟩ := finish_completed hruns (noted_named wellFormed)
    refine ⟨_, warnings, ?_, meant_noted items⟩
    rw [parseArguments_cons program (commandLine_ne_nil wellFormed), tokens_commandLine,
      foldlM_items hroom quiet]
    exact hfinish

theorem documented_accepted_iff_free_run :
    Accepted (text "symfind") [.runningMethod false (text "free_run", .freeRun) (by decide),
      .fuzz true, .symbol (text "malloc") (by decide) (by decide)] := by
  refine (documented_accepted_iff _ _ ⟨by decide, by decide, ?_⟩).mpr (by decide)
  intro h
  cases h

/-- The debug option in front of a symbol is refused. -/
theorem debug_refused : ¬ ∀ program items, WellFormed items → Accepted program items := by
  intro hall
  have hwell : WellFormed [.debug false, .symbol (text "malloc") (by decide) (by decide)] := by
    refine ⟨by decide, by decide, ?_⟩
    intro h
    cases h
  obtain ⟨options, warnings, haccepted, _⟩ := hall (text "symfind") _ hwell
  have hrefused : parseArguments [text "symfind", text "-d", text "malloc"] {} =
      .error (.rejected (unknownOption (text "-d"))) := by decide
  exact absurd (haccepted.symm.trans hrefused) nofun

end Meaning
end DocumentedOptions
