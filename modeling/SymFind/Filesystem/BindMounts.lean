import SymFind.Config.ConfigParser
import SymFind.Filesystem.MountInfo
import SymFind.Lib.InsertionMap

/-!
# Recognising bind mounts

The mounts of a device are compared with each other, but for those that lie
under a pruned mount. The mount points of the bind mounts are kept in a sorted
list with a cursor. The table is not read when its file opens, so the list stays
empty.
-/
namespace BindMounts
open RecordCodec SymbolData InsertionMap Machine Config PathStrings MountInfo

section Entries

/-- The multimap from devices to mounts, in its order. -/
abbrev MountEntries := List Mount

def deviceLe (a b : Mount) : Bool :=
  a.devMajor < b.devMajor || (a.devMajor == b.devMajor && a.devMinor ≤ b.devMinor)

def sameDevice (a b : Mount) : Bool := a.devMajor == b.devMajor && a.devMinor == b.devMinor

/-- An entry is inserted behind those of its device. -/
def emplace (entries : MountEntries) (mount : Mount) : MountEntries :=
  entries.takeWhile (deviceLe · mount) ++ mount :: entries.dropWhile (deviceLe · mount)

def setPruned (conf : ConfigParser) (mount : Mount) : Mount :=
  { mount with
    prunedDueToFsType := conf.prunefs.contains (mount.fsType.map toUpper)
    prunedDueToPath :=
      (stringListContainsDirPath conf.prunepaths 0 (cString mount.mountPoint)).1 }

def collect (conf : ConfigParser) (mounts : List Mount) : MountEntries :=
  mounts.foldl (fun entries mount => emplace entries (setPruned conf mount)) []

/-- `id_to_mount`: of several entries with a number the last one counts. -/
def idToMount (entries : MountEntries) (id : Int) : Option Mount :=
  entries.reverse.find? (fun mount => mount.id == id)

/-- The recursion along the parents; on a cycle it does not end. -/
def findWhetherUnderPruned (entries : MountEntries) :
    Nat → Int → Map Int Bool → Except Fault (Bool × Map Int Bool)
  | 0, _, _ => .error .diverged
  | fuel + 1, id, idToPrunedCache =>
    match idToPrunedCache.get id with
    | some result => .ok (result, idToPrunedCache)
    | none =>
      match idToMount entries id with
      | none => .ok (false, idToPrunedCache)
      | some mount =>
        if mount.prunedDueToFsType || mount.prunedDueToPath then
          .ok (true, idToPrunedCache.upsert id true (fun v => v))
        else if mount.parentId ≠ 0 then
          match findWhetherUnderPruned entries fuel mount.parentId idToPrunedCache with
          | .error fault => .error fault
          | .ok (result, idToPrunedCache) =>
            .ok (result, idToPrunedCache.upsert id result (fun v => v))
        else .ok (false, idToPrunedCache.upsert id false (fun v => v))

/-- The loop that sets `to_remove`. -/
def setToRemove (entries : MountEntries) (fuel : Nat) :
    List Mount → Map Int Bool → Except Fault (List Mount)
  | [], _ => .ok []
  | mount :: rest, idToPrunedCache =>
    match findWhetherUnderPruned entries fuel mount.id idToPrunedCache with
    | .error fault => .error fault
    | .ok (result, idToPrunedCache) =>
      match setToRemove entries fuel rest idToPrunedCache with
      | .error fault => .error fault
      | .ok marked => .ok ({ mount with toRemove := result } :: marked)

/-- A path of parents without a cycle is not longer than the entries are many. -/
def takeOutPruned (entries : MountEntries) : Except Fault MountEntries :=
  match setToRemove entries (entries.length + 1) entries Map.empty with
  | .error fault => .error fault
  | .ok marked => .ok (marked.filter (fun mount => !mount.toRemove))

/-- `read_mount_entries`: nothing is read from a file that opens. -/
def readMountEntries (conf : ConfigParser) (file : Stream) :
    Except Fault (Option MountEntries) :=
  if file.isSome then .ok none
  else
    match readStream file with
    | .error fault => .error fault
    | .ok mounts =>
      match takeOutPruned (collect conf mounts) with
      | .error fault => .error fault
      | .ok entries => .ok (some entries)

end Entries

section Answers

/-- Two mounts of a device: the first has the longer root, or the same and the larger number. -/
def duplicates (mount other : Mount) : Bool :=
  (mount.root.length > other.root.length && other.root.isPrefixOf mount.root) ||
    (mount.root == other.root && mount.id > other.id)

/-- The inner loop of the matching: some other mount of the device is duplicated. -/
def isSelected (entries : MountEntries) (mount : Mount) : Bool :=
  (entries.filter (sameDevice mount)).any
    (fun other => other.id != mount.id && duplicates mount other)

def matchBindMounts (entries : MountEntries) : List Bytes :=
  (entries.filter (isSelected entries)).map Mount.mountPoint

structure BindMount where
  mountinfoUpdated : Bool
  bindMountPathsIndex : Nat
  bindMountPaths : List Bytes

def rebuildBindMountPaths (conf : ConfigParser) (file : Stream) (bindMount : BindMount) :
    Except Fault BindMount :=
  match readMountEntries conf file with
  | .error fault => .error fault
  | .ok none => .ok bindMount
  | .ok (some entries) =>
    .ok { bindMount with bindMountPaths := stringListDirPathSort (matchBindMounts entries) }

/-- `init_bind_mount` -/
def initBindMount (conf : ConfigParser) (file : Stream) : Except Fault BindMount :=
  if file.isSome then rebuildBindMountPaths conf file ⟨false, 0, []⟩ else .ok ⟨false, 0, []⟩

def search (bindMount : BindMount) (path : Bytes) : Bool × BindMount :=
  let (found, index) := stringListContainsDirPath bindMount.bindMountPaths
    bindMount.bindMountPathsIndex path
  (found, { bindMount with bindMountPathsIndex := index })

def isBindMount (conf : ConfigParser) (file : Stream) (bindMount : BindMount) (path : Bytes) :
    Except Fault (Bool × BindMount) :=
  if bindMount.mountinfoUpdated then
    match rebuildBindMountPaths conf file { bindMount with mountinfoUpdated := false } with
    | .error fault => .error fault
    | .ok bindMount => .ok (search { bindMount with bindMountPathsIndex := 0 } path)
  else .ok (search bindMount path)

/-- A question: whether the poll reported an update before it, and the path. -/
abbrev Question := Bool × Bytes

/-- The answers to questions asked one after the other. -/
def askAll (conf : ConfigParser) (file : Stream) :
    List Question → BindMount → Except Fault (List Bool)
  | [], _ => .ok []
  | (reported, path) :: rest, bindMount =>
    match isBindMount conf file
      { bindMount with mountinfoUpdated := bindMount.mountinfoUpdated || reported } path with
    | .error fault => .error fault
    | .ok (answer, bindMount) =>
      match askAll conf file rest bindMount with
      | .error fault => .error fault
      | .ok answers => .ok (answer :: answers)

def answers (conf : ConfigParser) (file : Stream) (questions : List Question) :
    Except Fault (List Bool) :=
  match initBindMount conf file with
  | .error fault => .error fault
  | .ok bindMount => askAll conf file questions bindMount

end Answers

section Specification

/-- The mount of a number, or one that it lies under, is pruned. -/
inductive UnderPruned (entries : MountEntries) : Int → Prop
  | self {id : Int} {mount : Mount} (found : idToMount entries id = some mount)
      (pruned : (mount.prunedDueToFsType || mount.prunedDueToPath) = true) :
      UnderPruned entries id
  | parent {id : Int} {mount : Mount} (found : idToMount entries id = some mount)
      (hasParent : mount.parentId ≠ 0) (under : UnderPruned entries mount.parentId) :
      UnderPruned entries id

def Kept (entries : MountEntries) (mount : Mount) : Prop :=
  mount ∈ entries ∧ ¬ UnderPruned entries mount.id

/-- The mount duplicates another one; both are kept. -/
def Selected (entries : MountEntries) (mount : Mount) : Prop :=
  Kept entries mount ∧ ∃ other, Kept entries other ∧ sameDevice mount other = true ∧
    other.id ≠ mount.id ∧ duplicates mount other = true

/-- The path is the mount point of a bind mount of the table. -/
def IsBindMountPoint (conf : ConfigParser) (table path : Bytes) : Prop :=
  ∃ mount, Selected (collect conf (readMounts (table.length + 1) table)) mount ∧
    mount.mountPoint = path

end Specification

section Removal

variable {entries : MountEntries}

/-- What is in the cache is right. -/
def Sound (entries : MountEntries) (cache : Map Int Bool) : Prop :=
  ∀ id result, cache.get id = some result → (result = true ↔ UnderPruned entries id)

lemma sound_upsert {cache : Map Int Bool} (sound : Sound entries cache) {id : Int} {result : Bool}
    (right : result = true ↔ UnderPruned entries id) :
    Sound entries (cache.upsert id result (fun v => v)) := by
  intro other stored hget
  rw [Map.get_upsert] at hget
  by_cases h : other = id
  · subst h
    rw [if_pos rfl] at hget
    cases hold : cache.get other with
    | none =>
      rw [hold] at hget
      cases hget
      exact right
    | some old =>
      rw [hold] at hget
      cases hget
      exact sound other _ hold
  · rw [if_neg h] at hget
    exact sound other stored hget

/-- A known mount is pruned itself, or it has a parent that lies under a pruned one. -/
lemma underPruned_iff {id : Int} {mount : Mount} (known : idToMount entries id = some mount) :
    UnderPruned entries id ↔ (mount.prunedDueToFsType || mount.prunedDueToPath) = true ∨
      (mount.parentId ≠ 0 ∧ UnderPruned entries mount.parentId) := by
  constructor
  · rintro (⟨found, pruned⟩ | ⟨found, hasParent, under⟩) <;>
      obtain rfl := Option.some.inj (known.symm.trans found)
    · exact .inl pruned
    · exact .inr ⟨hasParent, under⟩
  · rintro (pruned | ⟨hasParent, under⟩)
    · exact .self known pruned
    · exact .parent known hasParent under

lemma not_underPruned {id : Int} (unknown : idToMount entries id = none) :
    ¬ UnderPruned entries id := by
  rintro (⟨found, -⟩ | ⟨found, -, -⟩) <;> simp [unknown] at found

/-- With a sound cache the recursion tells whether a mount lies under a pruned one. -/
lemma findWhetherUnderPruned_sound {fuel : Nat} {id : Int} {cache cache' : Map Int Bool}
    {result : Bool} (sound : Sound entries cache)
    (h : findWhetherUnderPruned entries fuel id cache = .ok (result, cache')) :
    Sound entries cache' ∧ (result = true ↔ UnderPruned entries id) := by
  induction fuel generalizing id result cache' with
  | zero => cases h
  | succ fuel ih =>
    rw [findWhetherUnderPruned] at h
    cases hget : cache.get id with
    | some stored =>
      rw [hget] at h
      cases h
      exact ⟨sound, sound id _ hget⟩
    | none =>
      rw [hget] at h
      cases known : idToMount entries id with
      | none =>
        rw [known] at h
        cases h
        exact ⟨sound, iff_of_false Bool.false_ne_true (not_underPruned known)⟩
      | some mount =>
        have hparts := underPruned_iff known
        simp only [known] at h
        split at h
        next hpruned =>
          cases h
          have right : true = true ↔ UnderPruned entries id :=
            iff_of_true rfl (hparts.mpr (.inl hpruned))
          exact ⟨sound_upsert sound right, right⟩
        next hpruned =>
          split at h
          next hparent =>
            cases hrec : findWhetherUnderPruned entries fuel mount.parentId cache with
            | error fault => simp [hrec] at h
            | ok answer =>
              obtain ⟨stored, cache''⟩ := answer
              simp only [hrec] at h
              cases h
              obtain ⟨hsound, hright⟩ := ih hrec
              have right : result = true ↔ UnderPruned entries id := by
                rw [hright, hparts, or_iff_right hpruned, and_iff_right hparent]
              exact ⟨sound_upsert hsound right, right⟩
          next hparent =>
            cases h
            have right : false = true ↔ UnderPruned entries id :=
              iff_of_false Bool.false_ne_true (by simp [hparts, hpruned, hparent])
            exact ⟨sound_upsert sound right, right⟩

open Classical in
/-- The marking sets one field of each mount, by what the mount lies under. -/
lemma setToRemove_eq {fuel : Nat} {mounts marked : List Mount} {cache : Map Int Bool}
    (sound : Sound entries cache) (h : setToRemove entries fuel mounts cache = .ok marked) :
    marked = mounts.map (fun mount =>
      { mount with toRemove := decide (UnderPruned entries mount.id) }) := by
  induction mounts generalizing cache marked with
  | nil =>
    cases h
    rfl
  | cons first rest ih =>
    rw [setToRemove] at h
    cases hfind : findWhetherUnderPruned entries fuel first.id cache with
    | error fault => rw [hfind] at h; cases h
    | ok answer =>
      obtain ⟨result, cache'⟩ := answer
      obtain ⟨hsound, right⟩ := findWhetherUnderPruned_sound sound hfind
      rw [hfind] at h
      cases hrest : setToRemove entries fuel rest cache' with
      | error fault => simp only [hrest] at h; cases h
      | ok more =>
        simp only [hrest] at h
        cases h
        have hmark : result = decide (UnderPruned entries first.id) :=
          Bool.eq_iff_iff.mpr (right.trans decide_eq_true_iff.symm)
        rw [List.map_cons, ← ih hsound hrest, hmark]

def unmarked (mount : Mount) : Mount := { mount with toRemove := false }

open Classical in
/-- Those that do not lie under a pruned mount are left, in their order. -/
lemma takeOutPruned_eq {kept : MountEntries} (h : takeOutPruned entries = .ok kept) :
    kept = (entries.filter (fun mount => ¬ UnderPruned entries mount.id)).map unmarked := by
  rw [takeOutPruned] at h
  cases hmarked : setToRemove entries (entries.length + 1) entries Map.empty with
  | error fault => rw [hmarked] at h; cases h
  | ok marked =>
    rw [hmarked] at h
    cases h
    have hempty : Sound entries Map.empty := fun _ _ hget => by cases hget
    rw [setToRemove_eq hempty hmarked, List.filter_map]
    have hleft : ∀ mount ∈ entries.filter (fun mount => ¬ UnderPruned entries mount.id),
        ({ mount with toRemove := decide (UnderPruned entries mount.id) } : Mount) =
          unmarked mount := by
      intro mount hmem
      have hnot : ¬ UnderPruned entries mount.id := by simpa using (List.mem_filter.mp hmem).2
      rw [unmarked, decide_eq_false hnot]
    rw [← List.map_congr_left hleft]
    congr 2
    funext mount
    simp

/-- An entry is left exactly if it does not lie under a pruned mount. -/
lemma mem_takeOutPruned {kept : MountEntries} (plain : ∀ mount ∈ entries, mount.toRemove = false)
    (h : takeOutPruned entries = .ok kept) (mount : Mount) :
    mount ∈ kept ↔ Kept entries mount := by
  have hsame : ∀ m ∈ entries, unmarked m = m := by
    intro m hmem
    rw [unmarked, ← plain m hmem]
  rw [takeOutPruned_eq h, List.mem_map, Kept]
  constructor
  · rintro ⟨m, hmem, rfl⟩
    obtain ⟨hentry, hnot⟩ := List.mem_filter.mp hmem
    rw [hsame m hentry]
    exact ⟨hentry, by simpa using hnot⟩
  · rintro ⟨hentry, hnot⟩
    exact ⟨mount, List.mem_filter.mpr ⟨hentry, by simpa using hnot⟩, hsame mount hentry⟩

lemma isSelected_iff (mount : Mount) : isSelected entries mount = true ↔
    ∃ other ∈ entries, sameDevice mount other = true ∧ other.id ≠ mount.id ∧
      duplicates mount other = true := by
  rw [isSelected, List.any_eq_true]
  simp only [List.mem_filter, Bool.and_eq_true, bne_iff_ne, and_assoc]

lemma parseMountLine_plain {line : Bytes} {mount : Mount} (h : parseMountLine line = some mount) :
    mount.toRemove = false := by
  simp only [parseMountLine, Option.bind_eq_bind, Option.bind_eq_some_iff] at h
  obtain ⟨_, _, _, _, _, _, _, _, _, _, _, _, _, _, _, _, hmount⟩ := h
  obtain rfl := Option.some.inj hmount
  rfl

lemma readMounts_plain (fuel : Nat) (s : Bytes) :
    ∀ mount ∈ readMounts fuel s, mount.toRemove = false := by
  induction fuel generalizing s with
  | zero => exact fun _ h => by cases h
  | succ fuel ih =>
    rw [readMounts]
    obtain ⟨line, rest⟩ := readMountLine (s.length + 1) s []
    simp only
    by_cases hline : line = []
    · rw [if_pos hline]
      exact fun _ h => by cases h
    · rw [if_neg hline]
      cases hparse : parseMountLine line with
      | none => exact fun _ h => by cases h
      | some mount =>
        intro m hmem
        rcases List.mem_cons.mp hmem with rfl | hmem
        · exact parseMountLine_plain hparse
        · exact ih _ m hmem

lemma mem_collect {conf : ConfigParser} {mounts : List Mount} (mount : Mount) :
    mount ∈ collect conf mounts ↔ mount ∈ mounts.map (setPruned conf) := by
  suffices h : ∀ seen, mount ∈ mounts.foldl (fun entries m => emplace entries (setPruned conf m))
      seen ↔ mount ∈ seen ∨ mount ∈ mounts.map (setPruned conf) by
    rw [collect, h, or_iff_right List.not_mem_nil]
  induction mounts with
  | nil => simp
  | cons first rest ih =>
    intro seen
    have hemplace : mount ∈ emplace seen (setPruned conf first) ↔
        mount ∈ seen ∨ mount = setPruned conf first := by
      conv_rhs => rw [← List.takeWhile_append_dropWhile (p := (deviceLe · (setPruned conf first)))
        (l := seen)]
      rw [emplace, List.mem_append, List.mem_append, List.mem_cons, or_assoc, or_comm (b := _ ∈ _)]
    rw [List.foldl_cons, ih, hemplace, List.map_cons, List.mem_cons, or_assoc]

/-- If the entries are taken from the table, the list has the bind mounts of the table. -/
theorem rebuilt_paths_exact {conf : ConfigParser} {table : Bytes} {kept : MountEntries}
    (h : takeOutPruned (collect conf (readMounts (table.length + 1) table)) = .ok kept)
    (path : Bytes) : path ∈ stringListDirPathSort (matchBindMounts kept) ↔
      IsBindMountPoint conf table path := by
  have plain : ∀ mount ∈ collect conf (readMounts (table.length + 1) table),
      mount.toRemove = false := by
    intro mount hmem
    obtain ⟨origin, horigin, rfl⟩ := List.mem_map.mp ((mem_collect mount).mp hmem)
    exact readMounts_plain _ _ origin horigin
  have hkept := mem_takeOutPruned plain h
  rw [stringListDirPathSort, List.mem_mergeSort, matchBindMounts, List.mem_map]
  simp only [List.mem_filter, isSelected_iff, hkept, IsBindMountPoint, Selected]

end Removal

section Runs

/-- With an empty list the answer is no, and the list stays empty. -/
lemma isBindMount_empty (conf : ConfigParser) (table path : Bytes) (bindMount : BindMount)
    (empty : bindMount.bindMountPaths = []) :
    ∃ after, after.bindMountPaths = [] ∧
      isBindMount conf (some table) bindMount path = .ok (false, after) := by
  obtain ⟨updated, index, paths⟩ := bindMount
  obtain rfl : paths = [] := empty
  have hsearch : ∀ reported index, ∃ after : BindMount, after.bindMountPaths = [] ∧
      search ⟨reported, index, []⟩ path = (false, after) := by
    intro reported index
    refine ⟨⟨reported, index, []⟩, rfl, ?_⟩
    rw [search, stringListContainsDirPath, List.drop_nil]
    rfl
  cases updated with
  | true =>
    obtain ⟨after, hafter, hanswer⟩ := hsearch false 0
    exact ⟨after, hafter, congrArg Except.ok hanswer⟩
  | false =>
    obtain ⟨after, hafter, hanswer⟩ := hsearch false index
    exact ⟨after, hafter, congrArg Except.ok hanswer⟩

lemma askAll_empty (conf : ConfigParser) (table : Bytes) (questions : List Question)
    {bindMount : BindMount} (empty : bindMount.bindMountPaths = []) :
    askAll conf (some table) questions bindMount = .ok (questions.map (fun _ => false)) := by
  induction questions generalizing bindMount with
  | nil => rfl
  | cons question rest ih =>
    obtain ⟨reported, path⟩ := question
    obtain ⟨after, hafter, hanswer⟩ := isBindMount_empty conf table path
      { bindMount with mountinfoUpdated := bindMount.mountinfoUpdated || reported } empty
    rw [askAll, hanswer]
    simp only [ih hafter]
    rfl

/-- In every run each answer is no. -/
lemma answers_opened (conf : ConfigParser) (table : Bytes) (questions : List Question) :
    answers conf (some table) questions = .ok (questions.map (fun _ => false)) := by
  rw [answers, initBindMount]
  exact askAll_empty conf table questions rfl

/-- The run ends, and each answer says whether the path is a bind mount of the table. -/
def AnswersRight (conf : ConfigParser) (table : Bytes) (questions : List Question) : Prop :=
  ∃ given, answers conf (some table) questions = .ok given ∧
    List.Forall₂ (fun question answer =>
      answer = true ↔ IsBindMountPoint conf table question.2) questions given

/-- The answers of a run are right exactly if no question is about a bind mount. -/
theorem bind_mounts_recognised_iff (conf : ConfigParser) (table : Bytes)
    (questions : List Question) :
    AnswersRight conf table questions ↔
      ∀ question ∈ questions, ¬ IsBindMountPoint conf table question.2 := by
  simp only [AnswersRight, answers_opened, Except.ok.injEq, exists_eq_left',
    List.forall₂_map_right_iff, List.forall₂_same, Bool.false_eq_true, false_iff]

/-- A table of two mounts of one device, the second of a directory below the first root. -/
def boundTable : Bytes :=
  text "1 0 8:1 / / rw - ext4 /dev/sda1 rw\n2 1 8:1 /home /mnt rw - ext4 /dev/sda1 rw\n"

def boundMounts : MountEntries :=
  [⟨1, 0, 8, 1, text "/", text "/", text "ext4", text "/dev/sda1", false, false, false⟩,
    ⟨2, 1, 8, 1, text "/home", text "/mnt", text "ext4", text "/dev/sda1", false, false, false⟩]

/-- `/mnt` is a bind mount, and the answer is no. -/
theorem bind_mount_missed :
    (textLines boundTable).all (fun line => (parseMountLine line).isSome) = true ∧
      ¬ AnswersRight ConfigParser.new boundTable [(false, text "/mnt")] := by
  constructor
  · decide +kernel
  · rintro ⟨given, hgiven, right⟩
    obtain rfl := Except.ok.inj ((answers_opened _ _ _).symm.trans hgiven)
    have hkept : takeOutPruned (collect ConfigParser.new
        (readMounts (boundTable.length + 1) boundTable)) = .ok boundMounts := by decide +kernel
    have hpoint : IsBindMountPoint ConfigParser.new boundTable (text "/mnt") :=
      (rebuilt_paths_exact hkept _).mp (by decide +kernel)
    cases right with
    | cons hhead _ => exact Bool.false_ne_true (hhead.mpr hpoint)

end Runs
end BindMounts
