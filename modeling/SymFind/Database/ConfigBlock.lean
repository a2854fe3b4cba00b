import SymFind.Config.ConfigParsing
import SymFind.Database.DatabaseReading
import SymFind.Lib.SelfDelimiting

/-!
# The configuration block of a database

A database keeps the block of the configuration that it was built with, and a
reader compares it with its own. The last two settings are not terminated, but a
name stands between them, so the block still determines all seven.
-/
namespace ConfigBlock
open RecordCodec SymbolData Config MountInfo ConfigParsing DatabaseLayout DatabaseReading
open SelfDelimiting

/-- No list entry is empty, and none of the strings has a NUL. -/
structure Separable (conf : ConfigParser) : Prop where
  prunefs : ∀ str ∈ conf.prunefs, Item 0 str
  prunenames : ∀ str ∈ conf.prunenames, Item 0 str
  prunepaths : ∀ str ∈ conf.prunepaths, Item 0 str
  databasePath : 0 ∉ conf.databasePath
  databaseScanPath : 0 ∉ conf.databaseScanPath

structure SameSettings (a b : ConfigParser) : Prop where
  pruneBindMounts : a.pruneBindMounts = b.pruneBindMounts
  debugPruning : a.debugPruning = b.debugPruning
  prunefs : a.prunefs = b.prunefs
  prunenames : a.prunenames = b.prunenames
  prunepaths : a.prunepaths = b.prunepaths
  databasePath : a.databasePath = b.databasePath
  databaseScanPath : a.databaseScanPath = b.databaseScanPath

lemma bool_showsEnd : ShowsEnd (fun _ => True) generateConfBlockBool :=
  of_width (fun value => by cases value <;> rfl) (by decide)

lemma list_showsEnd : ShowsEnd (fun items => ∀ item ∈ items, Item 0 item)
    generateConfBlockStringList := of_list 0

/-- The settings behind the names, each with what follows it. -/
lemma confBlock_eq (conf : ConfigParser) : (generateConfBlock conf).confBlock =
    const pruneBindMountsConfig ++ (generateConfBlockBool conf.pruneBindMounts ++
    (const debugPruningConfig ++ (generateConfBlockBool conf.debugPruning ++
    (const pruneFsConfig ++ (generateConfBlockStringList conf.prunefs ++
    (const pruneNamesConfig ++ (generateConfBlockStringList conf.prunenames ++
    (const prunePathsConfig ++ (generateConfBlockStringList conf.prunepaths ++
    (const databasePathConfig ++ ((conf.databasePath ++ databaseScanPathConfig) ++ [0] ++
      conf.databaseScanPath))))))))))) := by
  have hnothing : cString [0, 0] = [] := rfl
  simp only [generateConfBlock, generateConfBlockString, const, hnothing, List.append_nil,
    List.append_assoc]

/-- Equal blocks are taken apart from the left. -/
lemma sameSettings_of_confBlock {a b : ConfigParser} (ha : Separable a) (hb : Separable b)
    (h : (generateConfBlock a).confBlock = (generateConfBlock b).confBlock) : SameSettings a b := by
  rw [confBlock_eq, confBlock_eq] at h
  obtain ⟨hbind, h⟩ := bool_showsEnd _ _ trivial trivial _ _ (List.append_cancel_left h)
  obtain ⟨hdebug, h⟩ := bool_showsEnd _ _ trivial trivial _ _ (List.append_cancel_left h)
  obtain ⟨hfs, h⟩ := list_showsEnd _ _ ha.prunefs hb.prunefs _ _ (List.append_cancel_left h)
  obtain ⟨hnames, h⟩ :=
    list_showsEnd _ _ ha.prunenames hb.prunenames _ _ (List.append_cancel_left h)
  obtain ⟨hpaths, h⟩ :=
    list_showsEnd _ _ ha.prunepaths hb.prunepaths _ _ (List.append_cancel_left h)
  -- the NUL of the last name ends the path before it
  have hname : ∀ path, 0 ∉ path → 0 ∉ path ++ databaseScanPathConfig := by
    intro path hpath hmem
    rcases List.mem_append.mp hmem with hmem | hmem
    · exact hpath hmem
    · exact absurd hmem (by decide)
  obtain ⟨hpath, hscan⟩ := of_terminator 0 _ _ (hname _ ha.databasePath) (hname _ hb.databasePath)
    _ _ (List.append_cancel_left h)
  exact ⟨hbind, hdebug, hfs, hnames, hpaths, List.append_cancel_right hpath, hscan⟩

lemma confBlock_of_sameSettings {a b : ConfigParser} (same : SameSettings a b) :
    (generateConfBlock a).confBlock = (generateConfBlock b).confBlock := by
  rw [confBlock_eq, confBlock_eq, same.pruneBindMounts, same.debugPruning, same.prunefs,
    same.prunenames, same.prunepaths, same.databasePath, same.databaseScanPath]

/-- The block determines the settings, so a reader of a database with the block of one
configuration reports a change exactly if its own settings are others. -/
theorem conf_block_identifies {a b : ConfigParser} (ha : Separable a) (hb : Separable b) :
    ((generateConfBlock a).confBlock = (generateConfBlock b).confBlock ↔ SameSettings a b) ∧
    ∀ data dbHdr, (confBlockView dbHdr).bytes data = some (generateConfBlock a).confBlock →
      (readConfBlock data dbHdr (generateConfBlock b) = .ok true ↔ ¬ SameSettings a b) := by
  have hiff : (generateConfBlock a).confBlock = (generateConfBlock b).confBlock ↔
      SameSettings a b := ⟨sameSettings_of_confBlock ha hb, confBlock_of_sameSettings⟩
  refine ⟨hiff, ?_⟩
  intro data dbHdr view
  rw [readConfBlock_of_view view, Except.ok.injEq, bne_iff_ne, ne_eq, hiff]

/-- Two configurations whose lists differ in how they are cut. -/
def oneName : ConfigParser := { ConfigParser.new with prunenames := [text ".git.svn"] }
def twoNames : ConfigParser := { ConfigParser.new with prunenames := [text ".git", text ".svn"] }

lemma oneName_separable : Separable oneName :=
  ⟨by unfold Item; decide, by unfold Item; decide, by unfold Item; decide, by decide, by decide⟩

lemma twoNames_separable : Separable twoNames :=
  ⟨by unfold Item; decide, by unfold Item; decide, by unfold Item; decide, by decide, by decide⟩

theorem conf_block_identifies_names :
    (generateConfBlock oneName).confBlock ≠ (generateConfBlock twoNames).confBlock := by
  intro h
  have same := (conf_block_identifies oneName_separable twoNames_separable).1.mp h
  exact absurd same.prunenames (by decide)

end ConfigBlock
