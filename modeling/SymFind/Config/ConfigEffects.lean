import SymFind.Config.ConfigParsing
import SymFind.Lib.InsertionMap

/-!
# Which settings a configuration file leaves

The items of the file are stored one by one; as no key occurs twice, each setting
depends on the value of its own key and not on the order. The two paths are
stored only when they are empty, and list values come out as their words only
when there are none.
-/
namespace ConfigEffects
open RecordCodec SymbolData Config WordSplit InsertionMap ConfigParsing

section Storing

/-- What a boolean value is read as. -/
def readsAs (value : Bytes) : Bool :=
  match toBool value with
  | .ok res => res
  | .error _ => false

/-- A value that can be stored under the key. -/
def Readable (key value : Bytes) : Prop :=
  key = pruneBindMountsConfig ∨ key = debugPruningConfig → ∃ res, toBool value = .ok res

/-- Storing a value changes the setting of the key. A path is changed to the empty one only. -/
lemma storeConfig_eq (conf : ConfigParser) {key value : Bytes} (readable : Readable key value) :
    storeConfig conf key value = (.ok (), { conf with
      pruneBindMounts :=
        if key = pruneBindMountsConfig then readsAs value else conf.pruneBindMounts
      debugPruning := if key = debugPruningConfig then readsAs value else conf.debugPruning
      databasePath :=
        if key = databasePathConfig then (if value = [] then [] else conf.databasePath)
        else conf.databasePath
      databaseScanPath :=
        if key = databaseScanPathConfig then (if value = [] then [] else conf.databaseScanPath)
        else conf.databaseScanPath
      prunefs :=
        if key = pruneFsConfig then listToUpper (breakString conf.prunefs value) else conf.prunefs
      prunepaths :=
        if key = prunePathsConfig then breakString conf.prunepaths value else conf.prunepaths
      prunenames :=
        if key = pruneNamesConfig then breakString conf.prunenames value
        else conf.prunenames }) := by
  by_cases hbind : key = pruneBindMountsConfig
  · obtain ⟨res, hres⟩ := readable (.inl hbind)
    subst hbind
    simp +decide [storeConfig, readsAs, hres]
  by_cases hdebug : key = debugPruningConfig
  · obtain ⟨res, hres⟩ := readable (.inr hdebug)
    subst hdebug
    simp +decide [storeConfig, readsAs, hres]
  by_cases hpath : key = databasePathConfig
  · subst hpath
    by_cases hvalue : value = [] <;> simp +decide [storeConfig, hvalue]
  by_cases hscan : key = databaseScanPathConfig
  · subst hscan
    by_cases hvalue : value = [] <;> simp +decide [storeConfig, hvalue]
  by_cases hfs : key = pruneFsConfig
  · subst hfs
    simp +decide [storeConfig]
  by_cases hpaths : key = prunePathsConfig
  · subst hpaths
    simp +decide [storeConfig]
  by_cases hnames : key = pruneNamesConfig
  · subst hnames
    simp +decide [storeConfig]
  · simp [storeConfig, hbind, hdebug, hpath, hscan, hfs, hpaths, hnames]

/-- The parser after all items, when each of them can be stored. -/
def storeEach (conf : ConfigParser) (items : List (Bytes × Bytes)) : ConfigParser :=
  items.foldl (fun conf item => (storeConfig conf item.1 item.2).2) conf

lemma storeItems_eq (conf : ConfigParser) {items : List (Bytes × Bytes)}
    (readable : ∀ item ∈ items, Readable item.1 item.2) :
    storeItems conf items = (.ok (), storeEach conf items) := by
  induction items generalizing conf with
  | nil => rfl
  | cons item rest ih =>
    obtain ⟨key, value⟩ := item
    have hstore := storeConfig_eq conf (readable (key, value) List.mem_cons_self)
    have hrest := fun conf =>
      ih conf (fun item hitem => readable item (List.mem_cons_of_mem _ hitem))
    rw [storeItems, hstore]
    simp only [hrest, storeEach, List.foldl_cons, hstore]

def valueOf (items : List (Bytes × Bytes)) (key : Bytes) : Option Bytes := items.lookup key

/-- A setting that only its own key changes is what the value of this key makes of it. -/
lemma storeEach_setting {β : Type} (setting : ConfigParser → β) (change : Bytes → β → β)
    (own : Bytes) {items : List (Bytes × Bytes)} (unique : (items.map Prod.fst).Nodup)
    (step : ∀ item ∈ items, ∀ conf, setting (storeConfig conf item.1 item.2).2 =
      if item.1 = own then change item.2 (setting conf) else setting conf) (conf : ConfigParser) :
    setting (storeEach conf items) =
      (valueOf items own).elim (setting conf) (fun value => change value (setting conf)) := by
  induction items generalizing conf with
  | nil => rfl
  | cons item rest ih =>
    obtain ⟨key, value⟩ := item
    obtain ⟨hfresh, hunique⟩ := List.nodup_cons.mp unique
    have hstep := step (key, value) List.mem_cons_self conf
    have hrest := ih hunique (fun item hitem => step item (List.mem_cons_of_mem _ hitem))
      (storeConfig conf key value).2
    rw [storeEach, List.foldl_cons, ← storeEach, hrest, hstep, valueOf, valueOf, List.lookup_cons]
    by_cases hkey : key = own
    · subst hkey
      have habsent : rest.lookup key = none := (lookup_eq_none_iff_keys rest key).mpr hfresh
      simp [habsent]
    · simp [hkey, beq_false_of_ne (fun h : own = key => hkey h.symm)]

/-- All settings after storing items with different keys. -/
lemma storeEach_eq (conf : ConfigParser) {items : List (Bytes × Bytes)}
    (unique : (items.map Prod.fst).Nodup) (readable : ∀ item ∈ items, Readable item.1 item.2) :
    storeEach conf items = { conf with
      pruneBindMounts :=
        (valueOf items pruneBindMountsConfig).elim conf.pruneBindMounts (fun value => readsAs value)
      debugPruning :=
        (valueOf items debugPruningConfig).elim conf.debugPruning (fun value => readsAs value)
      databasePath := (valueOf items databasePathConfig).elim conf.databasePath
        (fun value => if value = [] then [] else conf.databasePath)
      databaseScanPath := (valueOf items databaseScanPathConfig).elim conf.databaseScanPath
        (fun value => if value = [] then [] else conf.databaseScanPath)
      prunefs := (valueOf items pruneFsConfig).elim conf.prunefs
        (fun value => listToUpper (breakString conf.prunefs value))
      prunepaths := (valueOf items prunePathsConfig).elim conf.prunepaths
        (fun value => breakString conf.prunepaths value)
      prunenames := (valueOf items pruneNamesConfig).elim conf.prunenames
        (fun value => breakString conf.prunenames value) } := by
  have each := fun item hitem conf => storeConfig_eq conf (readable item hitem)
  have hbind := storeEach_setting ConfigParser.pruneBindMounts (fun value _ => readsAs value)
    pruneBindMountsConfig unique (fun item hitem conf => by rw [each item hitem conf]) conf
  have hdebug := storeEach_setting ConfigParser.debugPruning (fun value _ => readsAs value)
    debugPruningConfig unique (fun item hitem conf => by rw [each item hitem conf]) conf
  have hpath := storeEach_setting ConfigParser.databasePath
    (fun value old => if value = [] then [] else old) databasePathConfig unique
    (fun item hitem conf => by rw [each item hitem conf]) conf
  have hscan := storeEach_setting ConfigParser.databaseScanPath
    (fun value old => if value = [] then [] else old) databaseScanPathConfig unique
    (fun item hitem conf => by rw [each item hitem conf]) conf
  have hfs := storeEach_setting ConfigParser.prunefs
    (fun value old => listToUpper (breakString old value)) pruneFsConfig unique
    (fun item hitem conf => by rw [each item hitem conf]) conf
  have hpaths := storeEach_setting ConfigParser.prunepaths
    (fun value old => breakString old value) prunePathsConfig unique
    (fun item hitem conf => by rw [each item hitem conf]) conf
  have hnames := storeEach_setting ConfigParser.prunenames
    (fun value old => breakString old value) pruneNamesConfig unique
    (fun item hitem conf => by rw [each item hitem conf]) conf
  have hblock : (storeEach conf items).confBlock = conf.confBlock := by
    have h := storeEach_setting ConfigParser.confBlock (fun _ old => old) [] unique
      (fun item hitem conf => by rw [each item hitem conf]; simp) conf
    rw [h]
    cases valueOf items [] <;> rfl
  rw [← hbind, ← hdebug, ← hpath, ← hscan, ← hfs, ← hpaths, ← hnames, ← hblock]

end Storing

section Parsing

/-- The object passes the check, no key occurs twice, and the booleans can be read. -/
structure Accepted (items : JsonItems) : Prop where
  valid : validateConfig (.object items) = .ok ()
  unique : (items.map Prod.fst).Nodup
  readable : ∀ item ∈ stringItems (.object items), Readable item.1 item.2

/-- In a checked object all values are strings. -/
lemma stringItems_of_valid {items : JsonItems} (valid : validateItems items = .ok ()) :
    items = (stringItems (.object items)).map (fun item => (item.1, JsonValue.string item.2)) := by
  induction items with
  | nil => rfl
  | cons item rest ih =>
    obtain ⟨key, value⟩ := item
    by_cases hkey : key ∈ validConfigs
    · cases value with
      | other => simp [validateItems, hkey] at valid
      | string value =>
        exact congrArg (List.cons (key, JsonValue.string value))
          (ih (by simpa [validateItems, hkey] using valid))
    · simp [validateItems, hkey] at valid

lemma Accepted.uniqueStrings {items : JsonItems} (accepted : Accepted items) :
    ((stringItems (.object items)).map Prod.fst).Nodup := by
  have hunique := accepted.unique
  rwa [stringItems_of_valid accepted.valid, List.map_map] at hunique

/-- What a fresh parser is after an accepted file. -/
def configured (items : JsonItems) : ConfigParser :=
  generateConfBlock (storeEach ConfigParser.new (stringItems (.object items)))

lemma parse_accepted {items : JsonItems} (accepted : Accepted items) :
    parse ConfigParser.new (.ok (.object items)) = (.ok (), configured items) := by
  simp only [parse, accepted.valid, extractConfig, storeItems_eq _ accepted.readable, configured]

/-- The configured path if there is one, else the default. -/
def expectedPath (value : Option Bytes) (default : Bytes) : Bytes :=
  match value with
  | some value => if value = [] then default else value
  | none => default

/-- The boolean is the one that the value is read as, and false without a value. -/
def ReadFrom (value : Option Bytes) (setting : Bool) : Prop :=
  match value with
  | some value => toBool value = .ok setting
  | none => setting = false

/-- The settings are the configured ones, and the block is made from them. -/
structure TakesEffect (items : List (Bytes × Bytes)) (conf : ConfigParser) : Prop where
  databasePath : conf.databasePath =
    expectedPath (valueOf items databasePathConfig) ConfigParser.new.databasePath
  databaseScanPath : conf.databaseScanPath =
    expectedPath (valueOf items databaseScanPathConfig) ConfigParser.new.databaseScanPath
  pruneBindMounts : ReadFrom (valueOf items pruneBindMountsConfig) conf.pruneBindMounts
  debugPruning : ReadFrom (valueOf items debugPruningConfig) conf.debugPruning
  prunefs : conf.prunefs = (valueOf items pruneFsConfig).elim []
    (fun value => listToUpper (breakString [] value))
  prunepaths : conf.prunepaths = (valueOf items prunePathsConfig).elim [] (breakString [])
  prunenames : conf.prunenames = (valueOf items pruneNamesConfig).elim [] (breakString [])
  confBlock : conf.confBlock = (generateConfBlock conf).confBlock

/-- A stored path is the expected one only if nothing but the default is configured. -/
lemma stored_path_iff {default : Bytes} (nonempty : default ≠ []) (value : Option Bytes) :
    value.elim default (fun value => if value = [] then [] else default) =
      expectedPath value default ↔
    ∀ configured, value = some configured → configured = default := by
  cases value with
  | none => simp [expectedPath]
  | some value =>
    by_cases hvalue : value = []
    · simp [expectedPath, hvalue, eq_comm, nonempty]
    · simp [expectedPath, hvalue, eq_comm]

lemma readFrom_stored {items : List (Bytes × Bytes)} {key : Bytes}
    (boolean : key = pruneBindMountsConfig ∨ key = debugPruningConfig)
    (readable : ∀ item ∈ items, Readable item.1 item.2) :
    ReadFrom (valueOf items key) ((valueOf items key).elim false (fun value => readsAs value)) := by
  cases hvalue : valueOf items key with
  | none => rfl
  | some value =>
    obtain ⟨before, after, hitems, -⟩ := List.lookup_eq_some_iff.mp hvalue
    obtain ⟨res, hres⟩ := readable (key, value) (by simp [hitems]) boolean
    simp [ReadFrom, readsAs, hres]

/-- Configured values take effect exactly if each of the two paths is left out or configured as the
default. -/
theorem configured_values_iff {items : JsonItems} (accepted : Accepted items) :
    ((parse ConfigParser.new (.ok (.object items))).1 = .ok () ∧
      TakesEffect (stringItems (.object items))
        (parse ConfigParser.new (.ok (.object items))).2) ↔
    (∀ value, valueOf (stringItems (.object items)) databasePathConfig = some value →
      value = ConfigParser.new.databasePath) ∧
    ∀ value, valueOf (stringItems (.object items)) databaseScanPathConfig = some value →
      value = ConfigParser.new.databaseScanPath := by
  have unique := accepted.uniqueStrings
  have readable := accepted.readable
  have hpath := stored_path_iff (show ConfigParser.new.databasePath ≠ [] by decide)
    (valueOf (stringItems (.object items)) databasePathConfig)
  have hscan := stored_path_iff (show ConfigParser.new.databaseScanPath ≠ [] by decide)
    (valueOf (stringItems (.object items)) databaseScanPathConfig)
  rw [parse_accepted accepted, ← hpath, ← hscan, configured, storeEach_eq _ unique readable]
  constructor
  · rintro ⟨-, takes⟩
    exact ⟨takes.databasePath, takes.databaseScanPath⟩
  · rintro ⟨hdatabase, hscanned⟩
    exact ⟨rfl, hdatabase, hscanned, readFrom_stored (.inl rfl) readable,
      readFrom_stored (.inr rfl) readable, rfl, rfl, rfl, rfl⟩

/-- A file with a switch, a list and the default scan path. -/
def plainItems : JsonItems :=
  [(pruneNamesConfig, .string (text ".git .svn")), (databaseScanPathConfig, .string (text "/")),
    (pruneBindMountsConfig, .string (text "True"))]

lemma plainItems_accepted : Accepted plainItems where
  valid := by decide +kernel
  unique := by decide +kernel
  readable := by unfold Readable; decide +kernel

theorem configured_values_plain : Accepted plainItems ∧
    TakesEffect (stringItems (.object plainItems))
      (parse ConfigParser.new (.ok (.object plainItems))).2 := by
  have accepted := plainItems_accepted
  refine ⟨accepted, ((configured_values_iff accepted).mpr ⟨?_, ?_⟩).2⟩
  · intro value hvalue
    cases hvalue
  · intro value hvalue
    exact (Option.some.inj hvalue).symm

/-- A file that names another database. -/
def otherDatabase : JsonItems := [(databasePathConfig, .string (text "/tmp/x.db"))]

/-- The configured path is ignored without a message. -/
theorem database_path_ignored : Accepted otherDatabase ∧
    (parse ConfigParser.new (.ok (.object otherDatabase))).1 = .ok () ∧
    (parse ConfigParser.new (.ok (.object otherDatabase))).2.databasePath =
      ConfigParser.new.databasePath ∧
    ¬ TakesEffect (stringItems (.object otherDatabase))
      (parse ConfigParser.new (.ok (.object otherDatabase))).2 := by
  have accepted : Accepted otherDatabase :=
    ⟨by decide +kernel, by decide +kernel, by unfold Readable; decide +kernel⟩
  refine ⟨accepted, by decide +kernel, by decide +kernel, ?_⟩
  intro takes
  exact absurd takes.databasePath (by decide +kernel)

end Parsing
section Lists

/-- The lists are the words of their values, those of the file systems in capitals. -/
structure ListsAreWords (items : List (Bytes × Bytes)) (conf : ConfigParser) : Prop where
  prunefs : conf.prunefs =
    (valueOf items pruneFsConfig).elim [] (fun value => listToUpper (wordsOf value))
  prunepaths : conf.prunepaths = (valueOf items prunePathsConfig).elim [] wordsOf
  prunenames : conf.prunenames = (valueOf items pruneNamesConfig).elim [] wordsOf

lemma stored_words_iff {stored expected : Bytes → List Bytes}
    (onlyEmpty : ∀ value, stored value = expected value ↔ value = []) (value : Option Bytes) :
    value.elim [] stored = value.elim [] expected ↔ ∀ list, value = some list → list = [] := by
  cases value with
  | none => simp
  | some value => simpa using onlyEmpty value

/-- A value is split into its words exactly if it is empty, and the lists of a configuration are
their words exactly if all of them are left out or empty. -/
theorem break_string_iff (list : List Bytes) (value : Bytes) (items : JsonItems) :
    (breakString list value = list ++ wordsOf value ↔ value = []) ∧
    (Accepted items →
      (ListsAreWords (stringItems (.object items))
        (parse ConfigParser.new (.ok (.object items))).2 ↔
      ∀ key ∈ [pruneFsConfig, prunePathsConfig, pruneNamesConfig], ∀ value,
        valueOf (stringItems (.object items)) key = some value → value = [])) := by
  refine ⟨breakString_words_iff list value, ?_⟩
  intro accepted
  have hlist : ∀ value, breakString [] value = wordsOf value ↔ value = [] :=
    breakString_words_iff []
  have hfs := stored_words_iff listToUpper_words_iff
    (valueOf (stringItems (.object items)) pruneFsConfig)
  have hpaths := stored_words_iff hlist (valueOf (stringItems (.object items)) prunePathsConfig)
  have hnames := stored_words_iff hlist (valueOf (stringItems (.object items)) pruneNamesConfig)
  simp only [List.forall_mem_cons, List.not_mem_nil, false_implies, implies_true, and_true]
  rw [parse_accepted accepted, ← hfs, ← hpaths, ← hnames, configured,
    storeEach_eq _ accepted.uniqueStrings accepted.readable]
  constructor
  · intro lists
    exact ⟨lists.prunefs, lists.prunepaths, lists.prunenames⟩
  · rintro ⟨hprunefs, hprunepaths, hprunenames⟩
    exact ⟨hprunefs, hprunepaths, hprunenames⟩

/-- A file that prunes one path. -/
def onePrunePath : JsonItems := [(prunePathsConfig, .string (text "/tmp /proc"))]

/-- The first path gets NULs in front, and no directory is called so. -/
theorem first_word_corrupted :
    breakString [] (text "/tmp /proc") = [List.replicate 10 0 ++ text "/tmp", text "/proc"] ∧
    breakString [] (text "/tmp /proc") ≠ [] ++ wordsOf (text "/tmp /proc") ∧
    Accepted onePrunePath ∧
    ¬ ListsAreWords (stringItems (.object onePrunePath))
      (parse ConfigParser.new (.ok (.object onePrunePath))).2 := by
  refine ⟨by decide +kernel, by decide +kernel,
    ⟨by decide +kernel, by decide +kernel, by unfold Readable; decide +kernel⟩, ?_⟩
  intro lists
  exact absurd lists.prunepaths (by decide +kernel)

end Lists
end ConfigEffects
