import SymFind.Elf.ElfFiles

/-!
# The symbols of an object file

What the parser reports of a readable file is said here without the parser: the
named entries of the two kinds of symbol tables, section by section and index by
index, in the object itself or in the objects of an archive.
-/
namespace ElfEntries
open RecordCodec Outcome Machine SymbolData ElfParser ElfFiles Threading

section Entries

/-- The section that the symbols of a table come from; none for a section of another type. -/
def sourceOf (scn : ElfScn) : Option SymbolSourceSection :=
  if scn.shdr.shType = shtSymtab then some .symtab
  else if scn.shdr.shType = shtDynsym then some .dynsym
  else none

/-- The bytes of an entry's name, up to the NUL that ends it. -/
def nameAt (elf : ElfObject) (scn : ElfScn) (i : Nat) : Bytes :=
  match elf.data scn.shdr.shLink with
  | none => []
  | some dBuf => (dBuf.drop (scn.sym i).stName.toNat).takeWhile (fun b => b != 0)

def metadataAt (scn : ElfScn) (sec : SymbolSourceSection) (i : Nat) : SymbolMetaData where
  isDefined := isSymbolDefined (scn.sym i)
  sourceSection := sec
  type := getSymbolType (scn.sym i).stInfo
  bind := getSymbolBind (scn.sym i).stInfo
  visibility := getSymbolVisibility (scn.sym i).stOther
  offset := 0

variable (libs : Libraries)

/-- An entry of a table; none if it has no name. -/
def entryAt (elf : ElfObject) (scn : ElfScn) (sec : SymbolSourceSection) (i : Nat) :
    Option SymbolEntry :=
  if nameAt elf scn i = [] then none
  else some ⟨libs.demangle (nameAt elf scn i), metadataAt scn sec i⟩

/-- The whole entries that fit into a section. -/
def entryCount (scn : ElfScn) : Nat := (scn.shdr.shSize / scn.shdr.shEntsize).toNat

def sectionEntries (elf : ElfObject) (scn : ElfScn) : List SymbolEntry :=
  match sourceOf scn with
  | none => []
  | some sec => (List.range (entryCount scn)).filterMap (entryAt libs elf scn sec)

def objectEntries (elf : ElfObject) : List SymbolEntry :=
  elf.sections.flatMap (sectionEntries libs elf)

/-- The objects in a file: itself, or those among the members of an archive. -/
def objectsIn : ElfKind → List ElfObject
  | .elf elf => [elf]
  | .ar members => members.filterMap ArchiveMember.object
  | .other => []

/-- The message with which a file is refused. -/
def refusal (file : FileAnswers) : Except Bytes ElfKind :=
  match file.opened, file.fd, file.descriptor with
  | .error errno, _, _ => .error (libs.strerror errno)
  | .ok (), .error errno, _ => .error (libs.strerror errno)
  | .ok (), .ok (), none => .error (text "elf_begin failed")
  | .ok (), .ok (), some .other => .error (text "Unknown file type\n")
  | .ok (), .ok (), some kind => .ok kind

/-- The symbols of a file, or the message with which it is refused. -/
def fileEntries (file : FileAnswers) : Except Bytes (List SymbolEntry) :=
  (refusal libs file).map (fun kind => (objectsIn kind).flatMap (objectEntries libs))

end Entries

section Parsing

variable {libs : Libraries} {elf : ElfObject} {scn : ElfScn}
  (ignoreSymbol : SymbolShouldBeIgnoredCallback)

lemma parseSymbol_entry {i : Nat} (readable : NameReadable elf scn i)
    (sec : SymbolSourceSection) :
    parseSymbol libs elf scn sec i = .ok (entryAt libs elf scn sec i) := by
  obtain ⟨dBuf, hdata, hend⟩ := readable
  rw [parseSymbol, entryAt, nameAt, hdata]
  simp only [stringAt, if_pos hend]
  by_cases hname : (dBuf.drop (scn.sym i).stName.toNat).takeWhile (fun b => b != 0) = []
  · rw [if_pos hname, if_pos (List.length_eq_zero_iff.mpr hname)]
    rfl
  · rw [if_neg hname, if_neg (mt List.length_eq_zero_iff.mp hname)]
    rfl

lemma parseSymtable_entries (readable : TableReadable elf scn) (sec : SymbolSourceSection) :
    parseSymtable libs elf scn sec ignoreSymbol =
      .ok (((List.range (entryCount scn)).filterMap (entryAt libs elf scn sec)).filter
        (fun symEnt => ! ignoreSymbol symEnt)) := by
  have hall : (List.range (entryCount scn)).mapM (parseSymbol libs elf scn sec) =
      .ok ((List.range (entryCount scn)).map (entryAt libs elf scn sec)) :=
    mapM_of_ok (fun i hi => parseSymbol_entry (readable.names i (List.mem_range.mp hi)) sec)
  rw [entryCount] at hall
  have hreduce : ((List.range (entryCount scn)).map (entryAt libs elf scn sec)).reduceOption =
      (List.range (entryCount scn)).filterMap (entryAt libs elf scn sec) := by
    change List.filterMap id _ = _
    rw [List.filterMap_map, Function.id_comp]
  rw [parseSymtable, if_neg readable.entsize]
  simp only [hall]
  rw [← hreduce]
  rfl

lemma parseSection_entries (readable : ObjectReadable elf) (hscn : scn ∈ elf.sections) :
    parseSection libs elf ignoreSymbol scn =
      .ok ((sectionEntries libs elf scn).filter (fun symEnt => ! ignoreSymbol symEnt)) := by
  rw [parseSection, sectionEntries, sourceOf]
  by_cases hsymtab : scn.shdr.shType = shtSymtab
  · rw [if_pos hsymtab, if_pos hsymtab]
    exact parseSymtable_entries ignoreSymbol (readable scn hscn (.inl hsymtab)) .symtab
  · rw [if_neg hsymtab, if_neg hsymtab]
    by_cases hdynsym : scn.shdr.shType = shtDynsym
    · rw [if_pos hdynsym, if_pos hdynsym]
      exact parseSymtable_entries ignoreSymbol (readable scn hscn (.inr hdynsym)) .dynsym
    · rw [if_neg hdynsym, if_neg hdynsym]
      rfl

lemma parseElf_entries (readable : ObjectReadable elf) :
    parseElf libs elf ignoreSymbol =
      .ok ((objectEntries libs elf).filter (fun symEnt => ! ignoreSymbol symEnt)) := by
  have hall := mapM_of_ok (fun scn hscn =>
    @parseSection_entries libs elf scn ignoreSymbol readable hscn)
  rw [parseElf, hall, objectEntries, List.filter_flatMap, List.flatMap_def]
  rfl

lemma parseArchive_entries {members : List ArchiveMember}
    (readable : ∀ member ∈ members, MemberReadable member) :
    parseArchive libs members ignoreSymbol =
      .ok (((members.filterMap ArchiveMember.object).flatMap (objectEntries libs)).filter
        (fun symEnt => ! ignoreSymbol symEnt)) := by
  have hall : members.mapM (parseMember libs ignoreSymbol) = .ok (members.map (fun member =>
      (member.object.toList.flatMap (objectEntries libs)).filter
        (fun symEnt => ! ignoreSymbol symEnt))) := by
    apply mapM_of_ok
    intro member hmember
    have hreadable := readable member hmember
    rw [parseMember, hreadable.header]
    cases hobject : member.object with
    | none => rfl
    | some elf =>
      rw [Option.toList_some, List.flatMap_singleton]
      exact parseElf_entries ignoreSymbol (hreadable.object elf hobject)
  have hflat : (members.filterMap ArchiveMember.object).flatMap (objectEntries libs) =
      members.flatMap (fun member => member.object.toList.flatMap (objectEntries libs)) := by
    rw [List.filterMap_eq_flatMap_toList, List.flatMap_assoc]
  rw [parseArchive, hall, hflat, List.filter_flatMap, List.flatMap_def]
  rfl

/-- Of a readable file the parser reports the named entries of its symbol tables in their order, as
far as the callback lets them pass; it refuses no other files than those that cannot be opened or
are neither objects nor archives. -/
lemma parseSymtables_entries {file : FileAnswers} (readable : FileReadable libs file) :
    ElfFiles.parseSymtables libs file ignoreSymbol =
      .ok ((fileEntries libs file).map
        (fun syms => syms.filter (fun symEnt => ! ignoreSymbol symEnt))) := by
  obtain ⟨version, kind⟩ := readable
  obtain ⟨opened, fd, descriptor⟩ := file
  rw [ElfFiles.parseSymtables, if_neg version, fileEntries, refusal]
  rcases opened with errno | ⟨⟩
  · rfl
  rcases fd with errno | ⟨⟩
  · rfl
  rcases descriptor with _ | elf | members | _
  · rfl
  · simp only [parseElf_entries ignoreSymbol (kind _ rfl rfl rfl)]
    rw [Except.map, objectsIn, List.flatMap_singleton]
    rfl
  · simp only [parseArchive_entries ignoreSymbol (kind _ rfl rfl rfl)]
    rfl
  · rfl

lemma filter_acceptAll (syms : List SymbolEntry) :
    syms.filter (fun symEnt => ! acceptAllSymbols symEnt) = syms :=
  List.filter_eq_self.mpr (fun _ _ => rfl)

/-- The rest of the program sees a readable file as its symbols. -/
lemma objectFile_entries {file : FileAnswers} (readable : FileReadable libs file) :
    objectFile libs file = fileEntries libs file := by
  rw [objectFile, parseSymtables_entries acceptAllSymbols readable]
  simp only [filter_acceptAll]
  cases fileEntries libs file <;> rfl

end Parsing

section Workers

variable {libs : Libraries}

/-- The symbols of a file with its id; none of a file that is refused. -/
def entriesWithId (libs : Libraries) (file : FileID × FileAnswers) : List (FileID × SymbolEntry) :=
  match fileEntries libs file.2 with
  | .error _ => []
  | .ok syms => syms.map (fun symEnt => (file.1, symEnt))

/-- Over readable files a worker hands every named entry of every file to the store callback, once
and in the order of the files, their sections and their indices. -/
theorem worker_stores_entries {σ : Type} (tryStoreSymbol : σ → FileID → SymbolEntry → σ)
    (files : List (FileID × FileAnswers)) (readable : ∀ file ∈ files, FileReadable libs file.2)
    (symtable : σ) :
    ElfFiles.worker libs tryStoreSymbol files symtable =
      .ok ((files.flatMap (entriesWithId libs)).foldl
        (fun t e => tryStoreSymbol t e.1 e.2) symtable) := by
  induction files generalizing symtable with
  | nil => rfl
  | cons file rest ih =>
    obtain ⟨fileId, file⟩ := file
    have hrest := ih (fun f hf => readable f (List.mem_cons_of_mem _ hf))
    rw [ElfFiles.worker, parseSymtables_entries acceptAllSymbols (readable _ List.mem_cons_self),
      List.flatMap_cons, List.foldl_append, entriesWithId]
    cases fileEntries libs file with
    | error errMsg => exact hrest symtable
    | ok syms =>
      simp only [Except.map, filter_acceptAll, List.foldl_map]
      exact hrest _

/-- An archive of a text and of an object whose symbol table has a nameless entry and `main`. -/
def archiveMembers : List ArchiveMember :=
  [⟨true, none⟩, ⟨true, some
    { sections := [⟨⟨shtSymtab, 50, 24, 1⟩, fun i => if i = 0 then ⟨0, 0, 0, 0⟩ else ⟨1, 18, 0, 7⟩⟩]
      data := fun _ => some (0 :: text "main" ++ [0]) }⟩]

def archiveFile : FileAnswers := ⟨.ok (), .ok (), some (.ar archiveMembers)⟩

lemma archive_readable : FileReadable sampleLibraries archiveFile where
  version := by decide
  kind := by
    rintro kind - - ⟨⟩
    change ∀ member ∈ archiveMembers, MemberReadable member
    rw [archiveMembers, List.forall_mem_cons]
    refine ⟨⟨rfl, nofun⟩, List.forall_mem_singleton.mpr ⟨rfl, ?_⟩⟩
    rintro elf ⟨⟩
    rw [ObjectReadable, List.forall_mem_singleton]
    intro _
    refine ⟨by decide, fun i hi => ⟨_, rfl, ?_⟩⟩
    have htwo : i < 2 := hi
    rcases i with _ | _ | i
    · decide
    · decide
    · omega

theorem worker_stores_entries_archive :
    ElfFiles.worker sampleLibraries (fun (t : List (FileID × SymbolEntry)) id e => t ++ [(id, e)])
        [(7, archiveFile)] [] =
      .ok [(7, ⟨text "main", ⟨true, .symtab, .func, .global, .default, 0⟩⟩)] :=
  worker_stores_entries _ [(7, archiveFile)] (List.forall_mem_singleton.mpr archive_readable) []

end Workers

end ElfEntries
