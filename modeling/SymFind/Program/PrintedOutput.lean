import SymFind.Elf.ElfEntries
import SymFind.Lib.SelfDelimiting
import SymFind.Program.FreeRunOutput

/-!
# Reading the printed text back

Searches and free runs print a symbol alike. Where no path and no name has a
line feed, the text that is printed of the symbols of object files tells every
path, every name and all of the metadata, in their order.
-/
namespace PrintedOutput
open RecordCodec SelfDelimiting SymbolData SymbolPrinting ElfParser ElfFiles ElfEntries
open ParallelBuild SearchAgreement SearchPipeline FreeRunOutput

section Words

def lineFeed : UInt8 := 0x0A

/-- The byte that a color begins with. -/
def escape : UInt8 := 0x1B

/-- A word that neither ends its line nor begins a color. -/
def Plain (word : Bytes) : Prop := lineFeed ∉ word ∧ escape ∉ word

instance (word : Bytes) : Decidable (Plain word) := inferInstanceAs (Decidable (_ ∧ _))

lemma isDefined_plain (isDefined : Bool) :
    Plain (if isDefined then text "DEFINED" else text "UNDEFINED") := by
  cases isDefined <;> decide

lemma symbolSourceSectionToStr_plain (symSec : SymbolSourceSection) :
    Plain (symbolSourceSectionToStr symSec) := by
  rw [symbolSourceSectionToStr]
  split_ifs <;> decide

lemma symbolTypeToStr_plain (symType : SymbolType) : Plain (symbolTypeToStr symType) := by
  rw [symbolTypeToStr]
  split_ifs <;> decide

lemma symbolBindToStr_plain (symBind : SymbolBind) : Plain (symbolBindToStr symBind) := by
  rw [symbolBindToStr]
  split_ifs <;> decide

lemma symbolVisibilityToStr_plain (symVisibility : SymbolVisibility) :
    Plain (symbolVisibilityToStr symVisibility) := by
  rw [symbolVisibilityToStr]
  split_ifs <;> decide

def sections : List SymbolSourceSection := [.unknown, .symtab, .dynsym]
def types : List SymbolType := [.unknown, .noType, .dataObj, .func, .relocSym, .fileSym]
def binds : List SymbolBind := [.unknown, .local, .global, .weak]
def visibilities : List SymbolVisibility :=
  [.unknown, .default, .internal, .hidden, .protected]

/-- Every code of the metadata has a name in the source; the printed words leave out the offset,
which the parser does not set. -/
structure Named (metadata : SymbolMetaData) : Prop where
  sourceSection : metadata.sourceSection ∈ sections
  type : metadata.type ∈ types
  bind : metadata.bind ∈ binds
  visibility : metadata.visibility ∈ visibilities
  offset : metadata.offset = 0

lemma sourceOf_named {scn : ElfScn} {sec : SymbolSourceSection} (h : sourceOf scn = some sec) :
    sec ∈ sections := by
  rw [sourceOf] at h
  split_ifs at h <;> cases h <;> decide

lemma getSymbolType_named (symInfo : UInt8) : getSymbolType symInfo ∈ types := by
  rw [getSymbolType]
  split <;> decide

lemma getSymbolBind_named (symInfo : UInt8) : getSymbolBind symInfo ∈ binds := by
  rw [getSymbolBind]
  split <;> decide

lemma getSymbolVisibility_named (symOther : UInt8) :
    getSymbolVisibility symOther ∈ visibilities := by
  rw [getSymbolVisibility]
  split <;> decide

/-- The parser names every code. -/
lemma metadataAt_named {scn : ElfScn} {sec : SymbolSourceSection} (h : sourceOf scn = some sec)
    (i : Nat) : Named (metadataAt scn sec i) where
  sourceSection := sourceOf_named h
  type := getSymbolType_named _
  bind := getSymbolBind_named _
  visibility := getSymbolVisibility_named _
  offset := rfl

/-- Among the named codes of a kind one at most has no word of its own. -/
lemma words_tell :
    (∀ d d' : Bool, (if d then text "DEFINED" else text "UNDEFINED") =
      (if d' then text "DEFINED" else text "UNDEFINED") → d = d') ∧
    (∀ s ∈ sections, ∀ s' ∈ sections,
      symbolSourceSectionToStr s = symbolSourceSectionToStr s' → s = s') ∧
    (∀ t ∈ types, ∀ t' ∈ types, symbolTypeToStr t = symbolTypeToStr t' → t = t') ∧
    (∀ b ∈ binds, ∀ b' ∈ binds, symbolBindToStr b = symbolBindToStr b' → b = b') ∧
    (∀ v ∈ visibilities, ∀ v' ∈ visibilities,
      symbolVisibilityToStr v = symbolVisibilityToStr v' → v = v') := by
  decide

end Words

section Lines

/-- The metadata of a symbol in words, behind its name. -/
def fields (metadata : SymbolMetaData) : Bytes :=
  text " | " ++ labelled "DEF:" (if metadata.isDefined then text "DEFINED" else text "UNDEFINED") ++
    text " | " ++ labelled "SRC SECTION:" (symbolSourceSectionToStr metadata.sourceSection) ++
    text " | " ++ labelled "TYPE:" (symbolTypeToStr metadata.type) ++
    text " | " ++ labelled "BIND:" (symbolBindToStr metadata.bind) ++
    text " | " ++ labelled "VISIBILITY:" (symbolVisibilityToStr metadata.visibility)

lemma symbolLine_eq (name : SymbolName) (metadata : SymbolMetaData) :
    symbolLine name metadata =
      text "\t" ++ labelled "sym_name:" name ++ fields metadata ++ text "\n\n" := by
  simp only [symbolLine, fields, List.append_assoc]

/-- The last label shows where its value begins, for plain values. -/
lemma labelled_last {label : String} {front front' value value' : Bytes} (hvalue : Plain value)
    (hvalue' : Plain value')
    (h : front ++ labelled label value = front' ++ labelled label value') :
    front = front' ∧ value = value' := by
  have hplain : ∀ {word : Bytes}, Plain word → escape ∉ text "[0;0m " ++ word := by
    intro word hword hmem
    rcases List.mem_append.mp hmem with hcolor | hmore
    · exact absurd hcolor (by decide)
    · exact hword.2 hmore
  have hsplit : ∀ front word : Bytes, front ++ labelled label word =
      (front ++ text "\x1b[33m" ++ text label) ++ escape :: (text "[0;0m " ++ word) := by
    intro front word
    rw [labelled, show text "\x1b[0;0m " = escape :: text "[0;0m " by decide]
    simp only [List.append_assoc, List.cons_append]
  rw [hsplit, hsplit] at h
  obtain ⟨hfront, hword⟩ := split_at_last (hplain hvalue) (hplain hvalue') h
  exact ⟨List.append_cancel_right (List.append_cancel_right hfront),
    List.append_cancel_left hword⟩

/-- The fields tell the metadata, whatever is in front of them. -/
lemma fields_tell {front front' : Bytes} {metadata metadata' : SymbolMetaData}
    (named : Named metadata) (named' : Named metadata')
    (h : front ++ fields metadata = front' ++ fields metadata') :
    front = front' ∧ metadata = metadata' := by
  obtain ⟨hdefinitions, hsections, htypes, hbinds, hvisibilities⟩ := words_tell
  simp only [fields, ← List.append_assoc] at h
  -- the fields are read from the last to the first
  obtain ⟨hfront, hvisibility⟩ := labelled_last (symbolVisibilityToStr_plain _)
    (symbolVisibilityToStr_plain _) h
  obtain ⟨hfront, hbind⟩ := labelled_last (symbolBindToStr_plain _) (symbolBindToStr_plain _)
    (List.append_cancel_right hfront)
  obtain ⟨hfront, htype⟩ := labelled_last (symbolTypeToStr_plain _) (symbolTypeToStr_plain _)
    (List.append_cancel_right hfront)
  obtain ⟨hfront, hsection⟩ := labelled_last (symbolSourceSectionToStr_plain _)
    (symbolSourceSectionToStr_plain _) (List.append_cancel_right hfront)
  obtain ⟨hfront, hdefined⟩ := labelled_last (isDefined_plain _) (isDefined_plain _)
    (List.append_cancel_right hfront)
  refine ⟨List.append_cancel_right hfront, ?_⟩
  obtain ⟨isDefined, sourceSection, type, bind, visibility, offset⟩ := metadata
  obtain ⟨isDefined', sourceSection', type', bind', visibility', offset'⟩ := metadata'
  obtain rfl := hdefinitions _ _ hdefined
  obtain rfl := hsections _ named.sourceSection _ named'.sourceSection hsection
  obtain rfl := htypes _ named.type _ named'.type htype
  obtain rfl := hbinds _ named.bind _ named'.bind hbind
  obtain rfl := hvisibilities _ named.visibility _ named'.visibility hvisibility
  obtain rfl : offset = offset' := named.offset.trans named'.offset.symm
  rfl

lemma labelled_lineFeed {label : String} (hlabel : lineFeed ∉ text label) {value : Bytes}
    (hvalue : lineFeed ∉ value) : lineFeed ∉ labelled label value := by
  have hcolor : lineFeed ∉ text "\x1b[33m" := by decide
  have hreset : lineFeed ∉ text "\x1b[0;0m " := by decide
  simp [labelled, hlabel, hvalue, hcolor, hreset]

lemma fields_lineFeed (metadata : SymbolMetaData) : lineFeed ∉ fields metadata := by
  have hbar : lineFeed ∉ text " | " := by decide
  have hdefined := @labelled_lineFeed "DEF:" (by decide) _ (isDefined_plain metadata.isDefined).1
  have hsection := @labelled_lineFeed "SRC SECTION:" (by decide) _
    (symbolSourceSectionToStr_plain metadata.sourceSection).1
  have htype := @labelled_lineFeed "TYPE:" (by decide) _ (symbolTypeToStr_plain metadata.type).1
  have hbind := @labelled_lineFeed "BIND:" (by decide) _ (symbolBindToStr_plain metadata.bind).1
  have hvisibility := @labelled_lineFeed "VISIBILITY:" (by decide) _
    (symbolVisibilityToStr_plain metadata.visibility).1
  simp only [fields, List.mem_append, hbar, hdefined, hsection, htype, hbind, hvisibility,
    or_self, not_false_eq_true]

end Lines

section Outputs

/-- What is printed of one symbol. -/
def printed (s : Shown) : Bytes := (insertions s.1 s.2.1 s.2.2).flatten

/-- What is printed of a symbol up to its name. -/
def opening (path : Bytes) (name : SymbolName) : Bytes :=
  path ++ text ":\n" ++ text "\t" ++ labelled "sym_name:" name

lemma printed_eq (s : Shown) :
    printed s = opening s.1 s.2.1 ++ (fields s.2.2 ++ text "\n\n") := by
  simp only [printed, insertions, symbolLine_eq, opening, List.flatten_cons, List.flatten_nil,
    List.append_assoc, List.append_nil]

/-- A symbol whose path and name stay on their lines, with metadata that the source names. -/
structure Printable (s : Shown) : Prop where
  path : lineFeed ∉ s.1
  name : lineFeed ∉ s.2.1
  metadata : Named s.2.2

/-- The line of a symbol without the line feeds at its end. -/
def lineBody (s : Shown) : Bytes := text "\t" ++ labelled "sym_name:" s.2.1 ++ fields s.2.2

lemma printed_append (s : Shown) (after : Bytes) :
    printed s ++ after = (s.1 ++ text ":") ++ lineFeed ::
      (lineBody s ++ lineFeed :: (lineFeed :: after)) := by
  have hends : text "\n\n" = [lineFeed, lineFeed] := by decide
  have hcolon : text ":\n" = text ":" ++ [lineFeed] := by decide
  simp [printed_eq, opening, lineBody, hends, hcolon]

lemma Printable.pathLine {s : Shown} (printable : Printable s) : lineFeed ∉ s.1 ++ text ":" := by
  intro hmem
  rcases List.mem_append.mp hmem with hpath | hcolon
  · exact printable.path hpath
  · exact absurd hcolon (by decide)

lemma Printable.lineBody {s : Shown} (printable : Printable s) : lineFeed ∉ lineBody s := by
  have htab : lineFeed ∉ text "\t" := by decide
  have hname := @labelled_lineFeed "sym_name:" (by decide) _ printable.name
  simp only [PrintedOutput.lineBody, List.mem_append, htab, hname, fields_lineFeed, or_self,
    not_false_eq_true]

/-- The line feed behind the path, and the first one behind the line, show where a symbol ends. -/
lemma printed_showsEnd : ShowsEnd Printable printed := by
  intro s t hs ht after later h
  rw [printed_append, printed_append] at h
  obtain ⟨hpath, hrest⟩ := split_at_terminator hs.pathLine ht.pathLine h
  obtain ⟨hline, hends⟩ := split_at_terminator hs.lineBody ht.lineBody hrest
  obtain ⟨hfront, hmetadata⟩ := fields_tell hs.metadata ht.metadata hline
  have hname : s.2.1 = t.2.1 := List.append_cancel_left (List.append_cancel_left hfront)
  refine ⟨?_, (List.cons.inj hends).2⟩
  exact Prod.ext (List.append_cancel_right hpath) (Prod.ext hname hmetadata)

lemma printed_ne_nil (s : Shown) : printed s ≠ [] := by
  intro h
  have hmem := List.append_eq_nil_iff.mp ((List.append_nil (printed s)).trans h ▸
    (printed_append s []).symm)
  exact absurd hmem.2 (List.cons_ne_nil _ _)

lemma outputOf_text (shown : List Shown) : (outputOf shown).flatten = shown.flatMap printed := by
  induction shown with
  | nil => rfl
  | cons s rest ih =>
    rw [List.flatMap_cons, ← ih, outputOf, List.flatMap_cons, List.flatten_append]
    rfl

end Outputs

section ObjectFiles

variable (libs : Libraries)

/-- Symbols of readable files, as a free run shows them and as a search finds them. -/
def ShownOfFiles (shown : List Shown) : Prop :=
  ∃ (files : Bytes → FileAnswers) (ignoreSymbol : SymbolShouldBeIgnoredCallback)
    (paths : List Bytes), (∀ path ∈ paths, FileReadable libs (files path)) ∧
    shown ⊆ shownOfPaths (fun path => objectFile libs (files path)) ignoreSymbol paths

/-- No path and no name has a line feed. -/
def OnLines (shown : List Shown) : Prop := ∀ s ∈ shown, lineFeed ∉ s.1 ∧ lineFeed ∉ s.2.1

instance (shown : List Shown) : Decidable (OnLines shown) :=
  inferInstanceAs (Decidable (∀ s ∈ shown, _))

variable {libs}

lemma sectionEntries_named {elf : ElfObject} {scn : ElfScn} {symEnt : SymbolEntry}
    (h : symEnt ∈ sectionEntries libs elf scn) : Named symEnt.metadata := by
  rw [sectionEntries] at h
  cases hsource : sourceOf scn with
  | none =>
    rw [hsource] at h
    cases h
  | some sec =>
    rw [hsource] at h
    obtain ⟨i, -, hentry⟩ := List.mem_filterMap.mp h
    rw [entryAt] at hentry
    split_ifs at hentry
    obtain rfl := Option.some.inj hentry
    exact metadataAt_named hsource i

lemma fileEntries_named {file : FileAnswers} {syms : List SymbolEntry}
    (h : fileEntries libs file = .ok syms) {symEnt : SymbolEntry} (hsym : symEnt ∈ syms) :
    Named symEnt.metadata := by
  rw [fileEntries] at h
  cases hkind : refusal libs file with
  | error errMsg =>
    rw [hkind] at h
    cases h
  | ok kind =>
    rw [hkind] at h
    obtain rfl := Except.ok.inj h
    obtain ⟨elf, -, hobject⟩ := List.mem_flatMap.mp hsym
    obtain ⟨scn, -, hsection⟩ := List.mem_flatMap.mp hobject
    exact sectionEntries_named hsection

lemma ShownOfFiles.printable {shown : List Shown} (taken : ShownOfFiles libs shown)
    (onLines : OnLines shown) : ∀ s ∈ shown, Printable s := by
  obtain ⟨files, ignoreSymbol, paths, readable, hshown⟩ := taken
  intro s hs
  refine ⟨(onLines s hs).1, (onLines s hs).2, ?_⟩
  obtain ⟨path, hpath, hat⟩ := List.mem_flatMap.mp (hshown hs)
  rw [shownAt, objectFile_entries (readable path hpath)] at hat
  cases hentries : fileEntries libs (files path) with
  | error errMsg =>
    rw [hentries] at hat
    cases hat
  | ok syms =>
    rw [hentries] at hat
    obtain ⟨symEnt, hsym, rfl⟩ := List.mem_map.mp hat
    exact fileEntries_named hentries (List.mem_of_mem_filter hsym)

/-- Two printed lists of symbols of object files agree in their text only if they agree in their
paths, their names and all their metadata, one by one. -/
theorem same_text_iff (libs : Libraries) {shown shown' : List Shown}
    (taken : ShownOfFiles libs shown) (taken' : ShownOfFiles libs shown')
    (onLines : OnLines shown) (onLines' : OnLines shown') :
    (outputOf shown).flatten = (outputOf shown').flatten ↔ shown = shown' := by
  constructor
  · intro h
    rw [outputOf_text, outputOf_text] at h
    exact printed_showsEnd.flatMap printed_ne_nil (taken.printable onLines)
      (taken'.printable onLines') h
  · exact congrArg (fun shown => (outputOf shown).flatten)

/-- Two copies of an archive. -/
def copies : List Bytes := [text "/a.a", text "/b.a"]

def copiesShown : List Shown :=
  shownOfPaths (fun _ => objectFile sampleLibraries archiveFile) (fun _ => false) copies

lemma copies_taken {shown : List Shown} (hshown : shown ⊆ copiesShown) :
    ShownOfFiles sampleLibraries shown :=
  ⟨fun _ => archiveFile, fun _ => false, copies, fun _ _ => archive_readable, hshown⟩

theorem same_text_iff_copies :
    (outputOf copiesShown).flatten ≠ (outputOf copiesShown.reverse).flatten := by
  have hiff := same_text_iff sampleLibraries (copies_taken (List.Subset.refl _))
    (copies_taken (fun s hs => List.mem_reverse.mp hs)) (by decide) (by decide)
  exact mt hiff.mp (by decide)

end ObjectFiles

end PrintedOutput
