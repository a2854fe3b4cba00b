import SymFind.Config.ConfigEffects
import SymFind.Database.ConfigBlock

/-!
# Which changes of the configuration a database notices

The block of a list begins with as many NULs as the value is long, and one more if
the value begins with white space. The words stand behind them, so the block tells
everything of a value but whether the white space at its beginning was there or
at its end.
-/
namespace ConfigChanges
open RecordCodec SymbolData Config PathStrings MountInfo WordSplit SelfDelimiting ConfigParsing
open ConfigEffects ConfigBlock

section Lists

def startsBlank (value : Bytes) : Bool := value.head?.any isSpace

/-- What a list value leaves in the block: the NULs in front and the words. -/
@[ext]
structure LedList where
  lead : Nat
  words : List Bytes
  deriving DecidableEq

def ledOf (value : Bytes) : LedList :=
  ⟨value.length + (if startsBlank value then 1 else 0), wordsOf value⟩

def LedList.upper (l : LedList) : LedList := { l with words := listToUpper l.words }

def LedList.text (l : LedList) : Bytes := writeLed 0 l.lead l.words

/-- The items of a list: the NULs are an item of their own or belong to the first word. -/
def ledItems (blank : Bool) (n : Nat) (found : List Bytes) : List Bytes :=
  match blank, found with
  | true, found => List.replicate n 0 :: found
  | false, [] => []
  | false, word :: more => (List.replicate n 0 ++ word) :: more

/-- Only the empty value has no item. -/
def Begun (blank : Bool) (n : Nat) (found : List Bytes) : Prop :=
  blank = false → found = [] → n = 0

lemma replicate_inWord (n : Nat) : ∀ c ∈ List.replicate n (0 : UInt8), isSpace c = false := by
  intro c hc
  rw [List.eq_of_mem_replicate hc]
  rfl

lemma breakString_items (value : Bytes) :
    breakString [] value = ledItems (startsBlank value) value.length (wordsOf value) ∧
      Begun (startsBlank value) value.length (wordsOf value) := by
  rw [breakString_eq, List.nil_append]
  cases value with
  | nil => exact ⟨rfl, fun _ _ => rfl⟩
  | cons c rest =>
    cases hc : isSpace c with
    | true =>
      have hblank : startsBlank (c :: rest) = true := hc
      have hwords : wordsOf (c :: rest) = wordsOf rest := words_append_cons [] rest hc
      have hnuls : words isSpace (List.replicate (c :: rest).length (0 : UInt8)) =
          [List.replicate (c :: rest).length 0] := words_of_no_sep (replicate_inWord _)
      refine ⟨?_, fun h => absurd (hblank.symm.trans h) Bool.noConfusion⟩
      rw [hblank, hwords, wordsOf, words_append_cons _ rest hc, hnuls]
      rfl
    | false =>
      have hblank : startsBlank (c :: rest) = false := hc
      obtain ⟨word, more, hwords, hjoined⟩ :=
        words_join (replicate_inWord (c :: rest).length) hc rest
      have hown : wordsOf (c :: rest) = (c :: word) :: more := hwords
      refine ⟨?_, fun _ h => absurd (hown.symm.trans h) (List.cons_ne_nil _ _)⟩
      rw [hblank, hown]
      exact hjoined

lemma toUpper_nul : toUpper 0 = 0 := rfl

lemma listToUpper_items (blank : Bool) (n : Nat) (found : List Bytes) :
    listToUpper (ledItems blank n found) = ledItems blank n (listToUpper found) := by
  cases blank with
  | true => simp [ledItems, listToUpper, toUpper_nul]
  | false => cases found <;> simp [ledItems, listToUpper, toUpper_nul]

/-- Written out, the items are the NULs and the words behind them. -/
lemma writeList_items {blank : Bool} {n : Nat} {found : List Bytes} (begun : Begun blank n found) :
    writeList 0 (ledItems blank n found) = writeLed 0 (n + (if blank then 1 else 0)) found := by
  cases blank with
  | true => simp [ledItems, writeList, writeLed, List.replicate_succ']
  | false =>
    cases found with
    | nil =>
      rw [begun rfl rfl]
      rfl
    | cons word more => simp [ledItems, writeList, writeLed]

lemma list_text (value : Bytes) :
    generateConfBlockStringList (breakString [] value) = (ledOf value).text := by
  obtain ⟨hitems, begun⟩ := breakString_items value
  rw [hitems]
  exact writeList_items begun

lemma upper_text (value : Bytes) :
    generateConfBlockStringList (listToUpper (breakString [] value)) =
      (ledOf value).upper.text := by
  obtain ⟨hitems, begun⟩ := breakString_items value
  have begunUpper : Begun (startsBlank value) value.length (listToUpper (wordsOf value)) :=
    fun hblank hnone => begun hblank (List.map_eq_nil_iff.mp hnone)
  rw [hitems, listToUpper_items]
  exact writeList_items begunUpper

end Lists

section Words

/-- The words of a value without NULs: none of them is longer than the run in front, and without
words the run has not the length 1. -/
structure LedList.Shaped (l : LedList) : Prop where
  items : ∀ word ∈ l.words, Item 0 word
  short : ∀ word ∈ l.words, word.length ≤ l.lead
  bare : l.words = [] → l.lead ≠ 1

lemma ledOf_shaped {value : Bytes} (plain : 0 ∉ value) : (ledOf value).Shaped where
  items word h := by
    obtain ⟨hne, hsub⟩ := word_sublist h
    exact ⟨hne, fun hmem => plain (hsub.subset hmem)⟩
  short word h := Nat.le_add_right_of_le (word_sublist h).2.length_le
  bare hnone := by
    obtain ⟨-, begun⟩ := breakString_items value
    cases hblank : startsBlank value with
    | true =>
      have hvalue : value ≠ [] := by
        rintro rfl
        cases hblank
      have hlength := List.length_pos_of_ne_nil hvalue
      have hlead : (ledOf value).lead = value.length + 1 := by simp [ledOf, hblank]
      omega
    | false =>
      have hlength := begun hblank hnone
      have hlead : (ledOf value).lead = value.length := by simp [ledOf, hblank]
      omega

lemma toUpper_toUpper (c : UInt8) : toUpper (toUpper c) = toUpper c := by
  simp only [toUpper]
  grind

lemma toUpper_eq_nul {c : UInt8} (h : toUpper c = 0) : c = 0 := by
  simp only [toUpper] at h
  grind

/-- Capitals of capitals. -/
def Capital (word : Bytes) : Prop := word.map toUpper = word

lemma upper_capital {l : LedList} {word : Bytes} (h : word ∈ l.upper.words) : Capital word := by
  obtain ⟨lower, -, rfl⟩ := List.mem_map.mp h
  simp [Capital, toUpper_toUpper]

lemma LedList.Shaped.upper {l : LedList} (shaped : l.Shaped) : l.upper.Shaped where
  items word h := by
    obtain ⟨lower, hlower, rfl⟩ := List.mem_map.mp h
    obtain ⟨hne, hnot⟩ := shaped.items lower hlower
    refine ⟨by simpa using hne, fun hmem => ?_⟩
    obtain ⟨c, hc, hnul⟩ := List.mem_map.mp hmem
    exact hnot (toUpper_eq_nul hnul ▸ hc)
  short word h := by
    obtain ⟨lower, hlower, rfl⟩ := List.mem_map.mp h
    rw [List.length_map]
    exact shaped.short lower hlower
  bare hnone := shaped.bare (List.map_eq_nil_iff.mp hnone)

end Words

section Parts

@[ext]
structure BlockParts where
  pruneBindMounts : Bool
  debugPruning : Bool
  prunefs : LedList
  prunenames : LedList
  prunepaths : LedList
  databasePath : Bytes
  databaseScanPath : Bytes
  deriving DecidableEq

def BlockParts.text (parts : BlockParts) : Bytes :=
  const pruneBindMountsConfig ++ (generateConfBlockBool parts.pruneBindMounts ++
  (const debugPruningConfig ++ (generateConfBlockBool parts.debugPruning ++
  (const pruneFsConfig ++ (parts.prunefs.text ++ (pruneNamesConfig ++ 0 ::
  (parts.prunenames.text ++ (prunePathsConfig ++ 0 ::
  (parts.prunepaths.text ++ (databasePathConfig ++ 0 ::
  ((parts.databasePath ++ databaseScanPathConfig) ++ 0 :: parts.databaseScanPath)))))))))))

/-- Parts that a configuration can have. Its paths are the default ones or empty. -/
structure BlockParts.Sound (parts : BlockParts) : Prop where
  prunefs : parts.prunefs.Shaped
  capitals : ∀ word ∈ parts.prunefs.words, Capital word
  prunenames : parts.prunenames.Shaped
  prunepaths : parts.prunepaths.Shaped
  databasePath : 0 ∉ parts.databasePath
  databaseScanPath : parts.databaseScanPath.length ≤ 1

/-- Behind an empty list of file systems the next name is not taken for a word of the list. -/
lemma fs_not_taken {lead lead' : Nat} {items : List Bytes} {l : LedList} {after after' : Bytes}
    (capitals : ∀ word ∈ l.words, Capital word) :
    ¬ @TakesName UInt8 0 pruneNamesConfig lead items after lead' l.words after' := by
  rintro ⟨-, -, rest, hwords, -⟩
  have hcapital := capitals pruneNamesConfig (hwords ▸ List.mem_cons_self)
  exact absurd hcapital (by unfold Capital; decide)

/-- Nor behind an empty list of names: a list follows there, and it does not go on like the
one before. -/
lemma names_not_taken {lead lead' : Nat} {items items' : List Bytes} {paths : LedList}
    (shaped : paths.Shaped) {after after' : Bytes}
    (hitems' : ∀ item ∈ items', Item (0 : UInt8) item) :
    ¬ @TakesName UInt8 0 prunePathsConfig lead items
      (paths.text ++ (databasePathConfig ++ 0 :: after)) lead' items' after' := by
  rintro ⟨-, -, rest, rfl, hafter⟩
  have hdatabase : Item (0 : UInt8) databasePathConfig := by unfold Item; decide
  have hnames : Item (0 : UInt8) prunePathsConfig := by unfold Item; decide
  have hend : writeList (0 : UInt8) rest ++ (prunePathsConfig ++ 0 :: after') =
      writeLed 0 0 rest ++ (prunePathsConfig ++ 0 :: after') := rfl
  rw [hend, LedList.text] at hafter
  obtain ⟨lead, found⟩ := paths
  cases found with
  | nil =>
    rw [writeLed_nil] at hafter
    cases rest with
    | nil =>
      rw [writeLed_nil] at hafter
      obtain ⟨-, hrest⟩ := leading_run (item_head hdatabase _) (item_head hnames _) hafter
      exact absurd (split_at_terminator hdatabase.2 hnames.2 hrest).1 (by decide)
    | cons word more =>
      have hword := hitems' word (List.mem_cons_of_mem _ List.mem_cons_self)
      rw [writeLed_cons] at hafter
      have := (leading_run (item_head hdatabase _) (item_head hword _) hafter).1
      omega
  | cons first others =>
    have hfirst := shaped.items first List.mem_cons_self
    have hshort := shaped.short first List.mem_cons_self
    have hlong := List.length_pos_of_ne_nil hfirst.1
    rw [writeLed_cons] at hafter
    cases rest with
    | nil =>
      rw [writeLed_nil] at hafter
      obtain ⟨hlead, hrest⟩ := leading_run (item_head hfirst _) (item_head hnames _) hafter
      obtain ⟨rfl, -⟩ := split_at_terminator hfirst.2 hnames.2 hrest
      simp only at hlead hshort
      rw [hlead] at hshort
      exact absurd hshort (by decide)
    | cons word more =>
      have hword := hitems' word (List.mem_cons_of_mem _ List.mem_cons_self)
      rw [writeLed_cons] at hafter
      have := (leading_run (item_head hfirst _) (item_head hword _) hafter).1
      simp only at this hshort
      omega

/-- Nor behind an empty list of paths, where too little is left. -/
lemma paths_not_taken {lead lead' : Nat} {items items' : List Bytes} {path scanPath : Bytes}
    (hpath : 0 ∉ path) (hscan : scanPath.length ≤ 1) {after' : Bytes}
    (hitems' : ∀ item ∈ items', Item (0 : UInt8) item) :
    ¬ @TakesName UInt8 0 databasePathConfig lead items
      ((path ++ databaseScanPathConfig) ++ 0 :: scanPath) lead' items' after' := by
  rintro ⟨-, -, rest, rfl, hafter⟩
  have hname : Item (0 : UInt8) (path ++ databaseScanPathConfig) := by
    refine ⟨by simp [databaseScanPathConfig, text], fun hmem => ?_⟩
    rcases List.mem_append.mp hmem with hmem | hmem
    · exact hpath hmem
    · exact absurd hmem (by decide)
  cases rest with
  | nil => exact item_ne_end 0 hname (hafter.symm.trans (List.append_cons _ _ _))
  | cons word more =>
    have hword := hitems' word (List.mem_cons_of_mem _ List.mem_cons_self)
    rw [writeList_cons] at hafter
    obtain ⟨-, hrest⟩ := of_terminator 0 _ _ hname.2 hword.2 _ _
      ((List.append_cons _ _ _).symm.trans hafter)
    have hlength := congrArg List.length hrest
    have hlong : databasePathConfig.length = 13 := by decide
    simp only [List.length_append, List.length_cons, hlong] at hlength
    omega

lemma name_item {name : Bytes} (h : name ≠ [] ∧ 0 ∉ name) : Item (0 : UInt8) name := h

/-- The block tells its parts. -/
theorem BlockParts.text_injective {a b : BlockParts} (ha : a.Sound) (hb : b.Sound)
    (h : a.text = b.text) : a = b := by
  obtain ⟨hbind, h⟩ := bool_showsEnd _ _ trivial trivial _ _ (List.append_cancel_left h)
  obtain ⟨hdebug, h⟩ := bool_showsEnd _ _ trivial trivial _ _ (List.append_cancel_left h)
  have hfs := led_cases (name_item (by decide)) ha.prunefs.items hb.prunefs.items
    (List.append_cancel_left h)
  obtain ⟨hfsLead, hfsWords, h⟩ := hfs.resolve_right
    (not_or.mpr ⟨fs_not_taken hb.capitals, fs_not_taken ha.capitals⟩)
  have hnames := led_cases (name_item (by decide)) ha.prunenames.items hb.prunenames.items h
  obtain ⟨hnamesLead, hnamesWords, h⟩ := hnames.resolve_right
    (not_or.mpr ⟨names_not_taken ha.prunepaths hb.prunenames.items,
      names_not_taken hb.prunepaths ha.prunenames.items⟩)
  have hpaths := led_cases (name_item (by decide)) ha.prunepaths.items hb.prunepaths.items h
  obtain ⟨hpathsLead, hpathsWords, h⟩ := hpaths.resolve_right
    (not_or.mpr ⟨paths_not_taken ha.databasePath ha.databaseScanPath hb.prunepaths.items,
      paths_not_taken hb.databasePath hb.databaseScanPath ha.prunepaths.items⟩)
  have hname : ∀ path : Bytes, 0 ∉ path → 0 ∉ path ++ databaseScanPathConfig := by
    intro path hpath hmem
    rcases List.mem_append.mp hmem with hmem | hmem
    · exact hpath hmem
    · exact absurd hmem (by decide)
  obtain ⟨hpath, hscan⟩ :=
    split_at_terminator (hname _ ha.databasePath) (hname _ hb.databasePath) h
  exact BlockParts.ext hbind hdebug (LedList.ext hfsLead hfsWords)
    (LedList.ext hnamesLead hnamesWords) (LedList.ext hpathsLead hpathsWords)
    (List.append_cancel_right hpath) hscan

end Parts

section Files

/-- The value of a list setting; a list that is left out is empty. -/
def listValue (items : JsonItems) (key : Bytes) : Bytes :=
  (valueOf (stringItems (.object items)) key).getD []

def listKeys : List Bytes := [pruneFsConfig, pruneNamesConfig, prunePathsConfig]

/-- No list value has a NUL. -/
def PlainLists (items : JsonItems) : Prop := ∀ key ∈ listKeys, 0 ∉ listValue items key

def partsOf (items : JsonItems) : BlockParts where
  pruneBindMounts := (configured items).pruneBindMounts
  debugPruning := (configured items).debugPruning
  prunefs := (ledOf (listValue items pruneFsConfig)).upper
  prunenames := ledOf (listValue items pruneNamesConfig)
  prunepaths := ledOf (listValue items prunePathsConfig)
  databasePath := (configured items).databasePath
  databaseScanPath := (configured items).databaseScanPath

lemma elim_listValue (items : JsonItems) (key : Bytes) {read : Bytes → List Bytes}
    (nothing : read [] = []) :
    (valueOf (stringItems (.object items)) key).elim [] read = read (listValue items key) := by
  rw [listValue]
  cases valueOf (stringItems (.object items)) key with
  | none => exact nothing.symm
  | some value => rfl

variable {items items' : JsonItems}

/-- The lists of a configuration, read from the values of their keys. -/
lemma configured_lists (accepted : Accepted items) :
    (configured items).prunefs =
        listToUpper (breakString [] (listValue items pruneFsConfig)) ∧
      (configured items).prunenames = breakString [] (listValue items pruneNamesConfig) ∧
      (configured items).prunepaths = breakString [] (listValue items prunePathsConfig) := by
  rw [configured, storeEach_eq ConfigParser.new accepted.uniqueStrings accepted.readable]
  exact ⟨elim_listValue items pruneFsConfig rfl, elim_listValue items pruneNamesConfig rfl,
    elim_listValue items prunePathsConfig rfl⟩

/-- A path is stored only when it is empty. -/
lemma stored_path {default : Bytes} (value : Option Bytes) :
    value.elim default (fun value => if value = [] then [] else default) = default ∨
      value.elim default (fun value => if value = [] then [] else default) = [] := by
  cases value with
  | none => exact .inl rfl
  | some value => by_cases hvalue : value = [] <;> simp [hvalue]

lemma configured_paths (accepted : Accepted items) :
    0 ∉ (configured items).databasePath ∧ (configured items).databaseScanPath.length ≤ 1 := by
  rw [configured, storeEach_eq ConfigParser.new accepted.uniqueStrings accepted.readable]
  simp only [generateConfBlock]
  constructor
  · rcases @stored_path ConfigParser.new.databasePath
      (valueOf (stringItems (.object items)) databasePathConfig) with h | h
    · rw [h]
      decide
    · rw [h]
      exact List.not_mem_nil
  · rcases @stored_path ConfigParser.new.databaseScanPath
      (valueOf (stringItems (.object items)) databaseScanPathConfig) with h | h
    · rw [h]
      decide
    · rw [h]
      exact Nat.zero_le 1

lemma parts_sound (accepted : Accepted items) (plain : PlainLists items) :
    (partsOf items).Sound where
  prunefs := (ledOf_shaped (plain _ (by decide))).upper
  capitals _ h := upper_capital h
  prunenames := ledOf_shaped (plain _ (by decide))
  prunepaths := ledOf_shaped (plain _ (by decide))
  databasePath := (configured_paths accepted).1
  databaseScanPath := (configured_paths accepted).2

/-- The block of a file is the text of its parts. -/
lemma configured_block (accepted : Accepted items) :
    (configured items).confBlock = (partsOf items).text := by
  obtain ⟨hfs, hnames, hpaths⟩ := configured_lists accepted
  have hblock : (configured items).confBlock = (generateConfBlock (configured items)).confBlock :=
    rfl
  rw [hblock, confBlock_eq, hfs, hnames, hpaths, upper_text, list_text, list_text]
  simp only [BlockParts.text, partsOf, const, List.append_assoc, List.singleton_append]

/-- Two files have the same block exactly if they have the same parts. -/
lemma blocks_agree (accepted : Accepted items) (accepted' : Accepted items')
    (plain : PlainLists items) (plain' : PlainLists items') :
    (configured items).confBlock = (configured items').confBlock ↔
      partsOf items = partsOf items' := by
  rw [configured_block accepted, configured_block accepted']
  constructor
  · exact BlockParts.text_injective (parts_sound accepted plain) (parts_sound accepted' plain')
  · exact congrArg BlockParts.text

end Files

section Silent

lemma ledItems_eq_iff {blank blank' : Bool} {n n' : Nat} {found found' : List Bytes}
    (begun : Begun blank n found) (begun' : Begun blank' n' found')
    (items : ∀ word ∈ found, Item (0 : UInt8) word)
    (items' : ∀ word ∈ found', Item (0 : UInt8) word) :
    ledItems blank n found = ledItems blank' n' found' ↔
      blank = blank' ∧ n = n' ∧ found = found' := by
  -- a word is not made of NULs
  have apart : ∀ {word : Bytes} {m k : Nat}, Item (0 : UInt8) word →
      List.replicate k 0 ++ word ≠ List.replicate m 0 := by
    intro word m k hword heq
    obtain ⟨first, more, rfl⟩ := List.exists_cons_of_ne_nil hword.1
    have hmem : first ∈ List.replicate m (0 : UInt8) := by
      rw [← heq]
      exact List.mem_append_right _ List.mem_cons_self
    exact hword.2 (List.eq_of_mem_replicate hmem ▸ List.mem_cons_self)
  constructor
  · intro h
    cases blank with
    | true =>
      cases blank' with
      | true =>
        obtain ⟨hfirst, hrest⟩ := List.cons.inj h
        exact ⟨rfl, by simpa using congrArg List.length hfirst, hrest⟩
      | false =>
        cases found' with
        | nil => cases h
        | cons word more =>
          exact absurd (List.cons.inj h).1.symm (apart (items' word List.mem_cons_self))
    | false =>
      cases found with
      | nil =>
        cases blank' with
        | true => cases h
        | false =>
          cases found' with
          | nil => exact ⟨rfl, (begun rfl rfl).trans (begun' rfl rfl).symm, rfl⟩
          | cons word more => cases h
      | cons word more =>
        have hword := items word List.mem_cons_self
        cases blank' with
        | true => exact absurd (List.cons.inj h).1 (apart hword)
        | false =>
          cases found' with
          | nil => cases h
          | cons word' more' =>
            have hword' := items' word' List.mem_cons_self
            obtain ⟨hfirst, hrest⟩ := List.cons.inj h
            have hhead := item_head hword []
            have hhead' := item_head hword' []
            rw [List.append_nil] at hhead hhead'
            obtain ⟨hn, hsame⟩ := leading_run hhead hhead' hfirst
            exact ⟨rfl, hn, by rw [hsame, hrest]⟩
  · rintro ⟨rfl, rfl, rfl⟩
    rfl

lemma led_same_iff {n n' : Nat} {blank blank' : Bool} {found found' : List Bytes} :
    (blank = blank' ∧ n = n' ∧ found = found') ↔
      (⟨n + (if blank then 1 else 0), found⟩ : LedList) =
        ⟨n' + (if blank' then 1 else 0), found'⟩ ∧ blank = blank' := by
  constructor
  · rintro ⟨rfl, rfl, rfl⟩
    exact ⟨rfl, rfl⟩
  · rintro ⟨hled, rfl⟩
    obtain ⟨hlead, hfound⟩ := LedList.mk.inj hled
    exact ⟨rfl, Nat.add_right_cancel hlead, hfound⟩

/-- Two values are read as the same list exactly if they leave the same in the block and begin
alike. -/
lemma same_list_iff {value value' : Bytes} (plain : 0 ∉ value) (plain' : 0 ∉ value') :
    breakString [] value = breakString [] value' ↔
      ledOf value = ledOf value' ∧ startsBlank value = startsBlank value' := by
  obtain ⟨hitems, begun⟩ := breakString_items value
  obtain ⟨hitems', begun'⟩ := breakString_items value'
  rw [hitems, hitems', ledItems_eq_iff begun begun' (ledOf_shaped plain).items
    (ledOf_shaped plain').items]
  exact led_same_iff

lemma same_upper_iff {value value' : Bytes} (plain : 0 ∉ value) (plain' : 0 ∉ value') :
    listToUpper (breakString [] value) = listToUpper (breakString [] value') ↔
      (ledOf value).upper = (ledOf value').upper ∧ startsBlank value = startsBlank value' := by
  obtain ⟨hitems, begun⟩ := breakString_items value
  obtain ⟨hitems', begun'⟩ := breakString_items value'
  have hbegun : Begun (startsBlank value) value.length (listToUpper (wordsOf value)) :=
    fun hblank hnone => begun hblank (List.map_eq_nil_iff.mp hnone)
  have hbegun' : Begun (startsBlank value') value'.length (listToUpper (wordsOf value')) :=
    fun hblank hnone => begun' hblank (List.map_eq_nil_iff.mp hnone)
  rw [hitems, hitems', listToUpper_items, listToUpper_items, ledItems_eq_iff hbegun hbegun'
    (ledOf_shaped plain).upper.items (ledOf_shaped plain').upper.items]
  exact led_same_iff

variable {items items' : JsonItems}

lemma parts_eq_iff : partsOf items = partsOf items' ↔
    (configured items).pruneBindMounts = (configured items').pruneBindMounts ∧
    (configured items).debugPruning = (configured items').debugPruning ∧
    (ledOf (listValue items pruneFsConfig)).upper =
      (ledOf (listValue items' pruneFsConfig)).upper ∧
    ledOf (listValue items pruneNamesConfig) = ledOf (listValue items' pruneNamesConfig) ∧
    ledOf (listValue items prunePathsConfig) = ledOf (listValue items' prunePathsConfig) ∧
    (configured items).databasePath = (configured items').databasePath ∧
    (configured items).databaseScanPath = (configured items').databaseScanPath := by
  simp only [partsOf, BlockParts.mk.injEq]

lemma blanks_eq_iff : (∀ key ∈ listKeys,
      startsBlank (listValue items key) = startsBlank (listValue items' key)) ↔
    startsBlank (listValue items pruneFsConfig) = startsBlank (listValue items' pruneFsConfig) ∧
    startsBlank (listValue items pruneNamesConfig) =
      startsBlank (listValue items' pruneNamesConfig) ∧
    startsBlank (listValue items prunePathsConfig) =
      startsBlank (listValue items' prunePathsConfig) := by
  simp only [listKeys, List.forall_mem_cons, List.not_mem_nil, false_implies, implies_true,
    and_true]

/-- The settings of two files are the same exactly if their blocks have the same parts and
their list values begin alike. -/
lemma settings_agree (accepted : Accepted items) (accepted' : Accepted items')
    (plain : PlainLists items) (plain' : PlainLists items') :
    SameSettings (configured items) (configured items') ↔ partsOf items = partsOf items' ∧
      ∀ key ∈ listKeys, startsBlank (listValue items key) = startsBlank (listValue items' key) := by
  obtain ⟨hfs, hnames, hpaths⟩ := configured_lists accepted
  obtain ⟨hfs', hnames', hpaths'⟩ := configured_lists accepted'
  have hfsIff := same_upper_iff (plain pruneFsConfig (by decide)) (plain' pruneFsConfig (by decide))
  have hnamesIff :=
    same_list_iff (plain pruneNamesConfig (by decide)) (plain' pruneNamesConfig (by decide))
  have hpathsIff :=
    same_list_iff (plain prunePathsConfig (by decide)) (plain' prunePathsConfig (by decide))
  rw [← hfs, ← hfs'] at hfsIff
  rw [← hnames, ← hnames'] at hnamesIff
  rw [← hpaths, ← hpaths'] at hpathsIff
  rw [parts_eq_iff, blanks_eq_iff]
  constructor
  · intro same
    obtain ⟨hledFs, hblankFs⟩ := hfsIff.mp same.prunefs
    obtain ⟨hledNames, hblankNames⟩ := hnamesIff.mp same.prunenames
    obtain ⟨hledPaths, hblankPaths⟩ := hpathsIff.mp same.prunepaths
    exact ⟨⟨same.pruneBindMounts, same.debugPruning, hledFs, hledNames, hledPaths,
      same.databasePath, same.databaseScanPath⟩, hblankFs, hblankNames, hblankPaths⟩
  · rintro ⟨⟨hbind, hdebug, hledFs, hledNames, hledPaths, hpath, hscan⟩, hblankFs, hblankNames,
      hblankPaths⟩
    exact ⟨hbind, hdebug, hfsIff.mpr ⟨hledFs, hblankFs⟩, hnamesIff.mpr ⟨hledNames, hblankNames⟩,
      hpathsIff.mpr ⟨hledPaths, hblankPaths⟩, hpath, hscan⟩

/-- For list values without NULs the block of a file tells all of its settings but one thing:
whether the white space of a list value stands in front of its words or behind them. -/
theorem block_tells_settings (accepted : Accepted items) (accepted' : Accepted items')
    (plain : PlainLists items) (plain' : PlainLists items') :
    ((configured items).confBlock = (configured items').confBlock ↔
      partsOf items = partsOf items') ∧
    (SameSettings (configured items) (configured items') ↔
      (configured items).confBlock = (configured items').confBlock ∧
        ∀ key ∈ listKeys,
          startsBlank (listValue items key) = startsBlank (listValue items' key)) := by
  have hblocks := blocks_agree accepted accepted' plain plain'
  refine ⟨hblocks, ?_⟩
  rw [hblocks]
  exact settings_agree accepted accepted' plain plain'

/-- A name that is pruned, and the same name with its blank at the other end. -/
def prunedName : JsonItems := [(pruneNamesConfig, .string (text " a"))]
def trailingBlanks : JsonItems := [(pruneNamesConfig, .string (text "a  "))]

lemma prunedName_accepted : Accepted prunedName :=
  ⟨by decide +kernel, by decide +kernel, by unfold Readable; decide +kernel⟩

lemma trailingBlanks_accepted : Accepted trailingBlanks :=
  ⟨by decide +kernel, by decide +kernel, by unfold Readable; decide +kernel⟩

/-- One file prunes the name `a`, the other one does not, and their blocks are the same. -/
theorem block_tells_settings_blank :
    (configured prunedName).confBlock = (configured trailingBlanks).confBlock ∧
      (configured prunedName).prunenames = [[0, 0], text "a"] ∧
      (configured trailingBlanks).prunenames = [[0, 0, 0] ++ text "a"] ∧
      ¬ SameSettings (configured prunedName) (configured trailingBlanks) := by
  have plain : PlainLists prunedName := by unfold PlainLists; decide +kernel
  have plain' : PlainLists trailingBlanks := by unfold PlainLists; decide +kernel
  obtain ⟨hblocks, hsettings⟩ :=
    block_tells_settings prunedName_accepted trailingBlanks_accepted plain plain'
  refine ⟨hblocks.mpr (by decide +kernel), by decide +kernel, by decide +kernel, fun same => ?_⟩
  exact absurd ((hsettings.mp same).2 pruneNamesConfig (by decide)) (by decide +kernel)

end Silent

end ConfigChanges
