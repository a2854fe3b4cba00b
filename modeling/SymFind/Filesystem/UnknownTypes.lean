import SymFind.Filesystem.PruneAsDelete

/-!
# Entries of unknown type

Where a filesystem does not report types, every entry is opened and checked like
a directory, but none is stored or descended into. A scan then overlooks the
tracked files among these entries and below them.
-/
namespace UnknownTypes
open RecordCodec SymbolData Machine Config PathCache PathStrings TreeScan PruneAsDelete

section Hiding

def dtUnknown : UInt8 := 0

/-- The stream with the types of the marked entries replaced by `DT_UNKNOWN`. -/
def hideTypes : (Position → Bool) → DirStream → DirStream
  | _, .done => .done
  | hidden, .entry name dType opening below rest =>
    .entry name (if hidden .here then dtUnknown else dType) opening
      (hideTypes (fun p => hidden (.inside p)) below) (hideTypes (fun p => hidden (.next p)) rest)

def hideRootTypes (hidden : Position → Bool) (root : Root) : Root :=
  { root with entries := hideTypes hidden root.entries }

/-- The walk from a root, as if nothing stopped it. -/
def rootEvents (env : ScanEnv) (root : Root) : List Event :=
  events env root.realPath root.device root.entries

def foundFile : Event → Option (Bytes × Bytes)
  | .found directory name => some (directory, name)
  | _ => none

def stopOf : Event → Option Stop
  | .stopped stop => some stop
  | _ => none

/-- All files of a walk, also those behind a stop. -/
def filesOf (es : List Event) : List (Bytes × Bytes) := es.filterMap foundFile

/-- The first opening of the walk that ends the scan. -/
def firstStop (es : List Event) : Option Stop := es.findSome? stopOf

/-- The walk over a stream comes to a tracked file. -/
def HoldsFile (env : ScanEnv) : Bytes → Option Device → DirStream → Prop
  | _, _, .done => False
  | realPath, device, .entry name dType opening below rest =>
    (match entryAction env (getDirPath realPath) device name dType opening with
      | .store => True
      | .descend dev =>
        pruneCheck env (getDirPath (joinPath realPath name)) = .clear ∧
          HoldsFile env (joinPath realPath name) (some dev) below
      | _ => False) ∨
    HoldsFile env realPath device rest

/-- A marked entry that the walk comes to is a tracked file, or a directory with one below it. -/
def Overlooks (env : ScanEnv) :
    (Position → Bool) → Bytes → Option Device → DirStream → Prop
  | _, _, _, .done => False
  | hidden, realPath, device, .entry name dType opening below rest =>
    (match entryAction env (getDirPath realPath) device name dType opening with
      | .store => hidden .here = true
      | .descend dev =>
        pruneCheck env (getDirPath (joinPath realPath name)) = .clear ∧
          if hidden .here then HoldsFile env (joinPath realPath name) (some dev) below
          else Overlooks env (fun p => hidden (.inside p)) (joinPath realPath name) (some dev) below
      | _ => False) ∨
    Overlooks env (fun p => hidden (.next p)) realPath device rest

def OverlooksFrom (env : ScanEnv) (hidden : Position → Bool) (root : Root) : Prop :=
  Overlooks env hidden root.realPath root.device root.entries

/-- What the marks do to an opening that ends the scan: nothing; it lies below a marked directory
and is lost; or it is that of a marked entry which its type keeps from being opened. -/
inductive Effect where
  | kept
  | lost
  | gained
  deriving DecidableEq

/-- The openings that end a scan of the tree or one of the tree without the marked types. -/
def ends (env : ScanEnv) :
    (Position → Bool) → Bytes → Option Device → DirStream → List (Effect × Stop)
  | _, _, _, .done => []
  | hidden, realPath, device, .entry name dType opening below rest =>
    (match entryAction env (getDirPath realPath) device name dType opening with
      | .halt stop => [(.kept, stop)]
      | .descend dev =>
        if pruneCheck env (getDirPath (joinPath realPath name)) = .clear then
          if hidden .here then
            (ends env (fun _ => false) (joinPath realPath name) (some dev) below).map
              (fun e => (.lost, e.2))
          else ends env (fun p => hidden (.inside p)) (joinPath realPath name) (some dev) below
        else []
      | _ =>
        if hidden .here then
          match entryAction env (getDirPath realPath) device name dtUnknown opening with
          | .halt stop => [(.gained, stop)]
          | _ => []
        else []) ++
    ends env (fun p => hidden (.next p)) realPath device rest

def endsFrom (env : ScanEnv) (hidden : Position → Bool) (root : Root) : List (Effect × Stop) :=
  ends env hidden root.realPath root.device root.entries

/-- The openings that the marks do not touch in this way. -/
def without (effect : Effect) (es : List (Effect × Stop)) : List Stop :=
  (es.filter (fun e => e.1 ≠ effect)).map Prod.snd

/-- No mark touches an opening before the first one that both scans come to; or the first that is
touched is made up for by one of the same kind, to which the other scan comes instead. -/
inductive Harmless : List (Effect × Stop) → Prop
  | none : Harmless []
  | kept (stop : Stop) (rest : List (Effect × Stop)) : Harmless ((.kept, stop) :: rest)
  | lost {stop : Stop} {rest : List (Effect × Stop)}
      (instead : (without .lost rest).head? = some stop) : Harmless ((.lost, stop) :: rest)
  | gained {stop : Stop} {rest : List (Effect × Stop)}
      (instead : (without .gained rest).head? = some stop) : Harmless ((.gained, stop) :: rest)

end Hiding

section Files

variable {env : ScanEnv} {realPath name : Bytes} {device : Option Device} {opening : Opening}

@[simp] lemma filesOf_append (es fs : List Event) : filesOf (es ++ fs) = filesOf es ++ filesOf fs :=
  List.filterMap_append

@[simp] lemma filesOf_below (name : Bytes) (es : List Event) :
    filesOf (es.map (Event.below name)) = filesOf es := by
  rw [filesOf, List.filterMap_map, filesOf]
  congr 1
  funext e
  rcases e with _ | _ | (_ | _ | _) <;> rfl

/-- The files of one entry. -/
lemma filesOf_entry (dType : UInt8) (below rest : DirStream) :
    filesOf (events env realPath device (.entry name dType opening below rest)) =
      (match entryAction env (getDirPath realPath) device name dType opening with
        | .store => [(pathPlusSlash (getDirPath realPath), name)]
        | .descend dev =>
          match pruneCheck env (getDirPath (joinPath realPath name)) with
          | .clear => filesOf (events env (joinPath realPath name) (some dev) below)
          | _ => []
        | _ => []) ++ filesOf (events env realPath device rest) := by
  rw [events]
  cases entryAction env (getDirPath realPath) device name dType opening with
  | skip => rfl
  | store => rfl
  | halt stop => rfl
  | descend dev =>
    cases pruneCheck env (getDirPath (joinPath realPath name)) with
    | prunePath => rfl
    | bindMount => rfl
    | clear =>
      simp only [List.cons_append, filesOf, List.filterMap_cons, foundFile]
      rw [← filesOf, ← filesOf, ← filesOf, filesOf_append, filesOf_below]

lemma filesOf_ne_nil_iff (realPath : Bytes) (device : Option Device) (entries : DirStream) :
    filesOf (events env realPath device entries) ≠ [] ↔ HoldsFile env realPath device entries := by
  induction entries generalizing realPath device with
  | done => exact iff_of_false (fun h => h rfl) id
  | entry name dType opening below rest ihBelow ihRest =>
    rw [filesOf_entry, HoldsFile, ne_eq, List.append_eq_nil_iff, not_and_or, ← ne_eq (filesOf _),
      ihRest]
    apply or_congr_left
    cases entryAction env (getDirPath realPath) device name dType opening with
    | skip => simp
    | store => simp
    | halt stop => simp
    | descend dev =>
      cases pruneCheck env (getDirPath (joinPath realPath name)) with
      | prunePath => simp
      | bindMount => simp
      | clear => simpa using ihBelow _ _

/-- What one pass of the loop can do with an entry of a type. -/
inductive Acts (type : EntryType) : EntryAction → Prop
  | skip : Acts type .skip
  | store (regular : type = .regFile) : Acts type .store
  | halt {stop : Stop} (ends : ∀ errMsg, stop ≠ .failed errMsg) : Acts type (.halt stop)
  | descend (directory : type = .directory) (dev : Device) : Acts type (.descend dev)

lemma entryAction_acts (env : ScanEnv) (dirPath : Bytes) (device : Option Device) (name : Bytes)
    (dType : UInt8) (opening : Opening) :
    Acts (entryTypeOf dType) (entryAction env dirPath device name dType opening) := by
  rw [entryAction]
  by_cases hskip : isDots name = true ∨ name = []
  · rcases hskip with h | h <;> simp [h, Acts.skip]
  obtain ⟨hdots, hname⟩ := not_or.mp hskip
  rw [if_neg hdots, if_neg hname]
  by_cases hreg : entryTypeOf dType = .regFile
  · rw [if_pos hreg]
    split
    · exact .store hreg
    · exact .skip
  have exits : Acts (entryTypeOf dType) (.halt .exited) := .halt fun _ h => by cases h
  rw [if_neg hreg]
  split
  · exact .skip
  split
  · exact .skip
  rcases opening with _ | _ | (_ | dev)
  · exact .skip
  · exact .halt fun _ h => by cases h
  · simp only
    split
    · exact .skip
    · exact exits
  · cases device with
    | none => exact exits
    | some parentDev =>
      simp only
      split
      · exact .skip
      · split
        next hdirectory => exact .descend hdirectory dev
        next => exact .skip

/-- An entry of unknown type is skipped, or opening it ends the scan. -/
lemma unknown_action (env : ScanEnv) (dirPath : Bytes) (device : Option Device) (name : Bytes)
    (opening : Opening) :
    entryAction env dirPath device name dtUnknown opening = .skip ∨
      ∃ stop, entryAction env dirPath device name dtUnknown opening = .halt stop := by
  have hacts := entryAction_acts env dirPath device name dtUnknown opening
  have htype : entryTypeOf dtUnknown = .unknown := by decide
  rw [htype] at hacts
  generalize entryAction env dirPath device name dtUnknown opening = action at hacts ⊢
  cases hacts with
  | skip => exact .inl rfl
  | store regular => cases regular
  | halt => exact .inr ⟨_, rfl⟩
  | descend directory => cases directory

/-- The second list is longer than the first if `lost`, and the same list if not. -/
def Loses {α : Type*} (lost : Prop) (fewer all : List α) : Prop :=
  (lost → fewer.length < all.length) ∧ (¬ lost → fewer = all)

lemma Loses.length_le {α : Type*} {lost : Prop} {fewer all : List α}
    (h : Loses lost fewer all) : fewer.length ≤ all.length := by
  by_cases hlost : lost
  · exact Nat.le_of_lt (h.1 hlost)
  · rw [h.2 hlost]

lemma Loses.append {α : Type*} {p q : Prop} {fewer all fewer' all' : List α}
    (h : Loses p fewer all) (h' : Loses q fewer' all') :
    Loses (p ∨ q) (fewer ++ fewer') (all ++ all') := by
  have hle := h.length_le
  have hle' := h'.length_le
  constructor
  · rw [List.length_append, List.length_append]
    rintro (hp | hq)
    · have := h.1 hp
      omega
    · have := h'.1 hq
      omega
  · intro hnone
    rw [h.2 (fun hp => hnone (.inl hp)), h'.2 (fun hq => hnone (.inr hq))]

lemma loses_all {α : Type*} (all : List α) : Loses (all ≠ []) [] all := by
  constructor
  · exact List.length_pos_of_ne_nil
  · intro hempty
    exact (not_not.mp hempty).symm

lemma loses_none {α : Type*} (all : List α) : Loses False all all :=
  ⟨False.elim, fun _ => rfl⟩

/-- Hiding types loses files exactly if a marked entry is overlooked, and adds none. -/
lemma hidden_files (hidden : Position → Bool) (realPath : Bytes) (device : Option Device)
    (entries : DirStream) :
    Loses (Overlooks env hidden realPath device entries)
      (filesOf (events env realPath device (hideTypes hidden entries)))
      (filesOf (events env realPath device entries)) := by
  induction entries generalizing hidden realPath device with
  | done => exact loses_none []
  | entry name dType opening below rest ihBelow ihRest =>
    rw [hideTypes, filesOf_entry, filesOf_entry, Overlooks]
    apply Loses.append _ (ihRest _ _ _)
    cases hmark : hidden .here with
    | true =>
      have hnone : ∀ own : Device → List (Bytes × Bytes),
          (match entryAction env (getDirPath realPath) device name dtUnknown opening with
            | .store => [(pathPlusSlash (getDirPath realPath), name)]
            | .descend dev => own dev
            | _ => []) = [] := by
        intro own
        rcases unknown_action env (getDirPath realPath) device name opening with h | ⟨stop, h⟩ <;>
          rw [h]
      simp only [if_true, hnone]
      cases entryAction env (getDirPath realPath) device name dType opening with
      | skip => exact loses_none []
      | halt stop => exact loses_none []
      | store => exact ⟨fun _ => Nat.one_pos, fun h => absurd trivial h⟩
      | descend dev =>
        cases pruneCheck env (getDirPath (joinPath realPath name)) with
        | clear => simpa [← filesOf_ne_nil_iff] using loses_all _
        | prunePath => simpa using loses_none _
        | bindMount => simpa using loses_none _
    | false =>
      simp only [Bool.false_eq_true, if_false]
      cases entryAction env (getDirPath realPath) device name dType opening with
      | skip => exact loses_none []
      | halt stop => exact loses_none []
      | store => exact loses_none _
      | descend dev =>
        cases pruneCheck env (getDirPath (joinPath realPath name)) with
        | clear => simpa using ihBelow _ _ _
        | prunePath => simpa using loses_none _
        | bindMount => simpa using loses_none _

end Files

section Results

/-- The same status; and where the scan returns, the same found files and the same cache to name
their paths. -/
def SameResult (a b : ScanOutcome × ScanState) : Prop :=
  status a.1 = status b.1 ∧
    ∀ result, status a.1 = .returned result →
      a.2.foundFiles = b.2.foundFiles ∧ a.2.cache = b.2.cache

lemma outcomeOf_eq (es : List Event) :
    outcomeOf es = ((firstStop es).map Stop.outcome).getD (.returned true (.text [])) := by
  induction es with
  | nil => rfl
  | cons e rest ih =>
    cases e with
    | found directory name => exact ih
    | entered name => exact ih
    | stopped stop => rfl

/-- Without a stop the scan finds all files of the walk. -/
lemma foundOf_eq_filesOf {es : List Event} (free : firstStop es = none) :
    foundOf es = filesOf es := by
  induction es with
  | nil => rfl
  | cons e rest ih =>
    cases e with
    | found directory name => exact congrArg (List.cons _) (ih free)
    | entered name => exact ih free
    | stopped stop => cases free

variable {env : ScanEnv}

lemma pruneCheck_not_bindMount (off : env.conf.pruneBindMounts = false) (path : Bytes) :
    pruneCheck env path ≠ .bindMount := by
  rw [pruneCheck_off off]
  split <;> exact fun h => by cases h

/-- Without bind-mount pruning every stop ends the process. -/
lemma events_not_failed (off : env.conf.pruneBindMounts = false) {realPath : Bytes}
    {device : Option Device} {entries : DirStream} {stop : Stop}
    (h : .stopped stop ∈ events env realPath device entries) (errMsg : ScanMessage) :
    stop ≠ .failed errMsg := by
  induction entries generalizing realPath device stop errMsg with
  | done => cases h
  | entry name dType opening below rest ihBelow ihRest =>
    rw [events] at h
    have hacts := entryAction_acts env (getDirPath realPath) device name dType opening
    generalize entryAction env (getDirPath realPath) device name dType opening = action at hacts h
    cases hacts with
    | skip => exact ihRest h errMsg
    | store => exact ihRest ((List.mem_cons.mp h).resolve_left (fun he => by cases he)) errMsg
    | halt ends =>
      rcases List.mem_cons.mp h with he | h
      · cases he
        exact ends errMsg
      · exact ihRest h errMsg
    | descend _ dev =>
      have hafter := (List.mem_cons.mp h).resolve_left (fun he => by cases he)
      rcases List.mem_append.mp hafter with hinside | hrest
      · obtain ⟨e, hmem, hbelow⟩ := List.mem_map.mp hinside
        cases hcheck : pruneCheck env (getDirPath (joinPath realPath name)) with
        | prunePath => simp [hcheck] at hmem
        | bindMount => exact absurd hcheck (pruneCheck_not_bindMount off _)
        | clear =>
          rw [hcheck] at hmem
          cases e with
          | found directory file => cases hbelow
          | entered directory => cases hbelow
          | stopped inner =>
            cases inner with
            | failed message => exact absurd rfl (ihBelow hmem message)
            | exited => cases hbelow; exact fun hbad => by cases hbad
            | crashed fault => cases hbelow; exact fun hbad => by cases hbad
      · exact ihRest hrest errMsg

lemma firstStop_not_failed (off : env.conf.pruneBindMounts = false) (root : Root)
    (errMsg : ScanMessage) : firstStop (rootEvents env root) ≠ some (.failed errMsg) := by
  intro h
  obtain ⟨e, hmem, hstop⟩ := List.exists_of_findSome?_eq_some h
  cases e with
  | found directory name => cases hstop
  | entered name => cases hstop
  | stopped stop =>
    obtain rfl := Option.some.inj hstop
    exact events_not_failed off hmem errMsg rfl

/-- All openings of a walk that end the scan. -/
def stopsOf (es : List Event) : List Stop := es.filterMap stopOf

lemma firstStop_eq (es : List Event) : firstStop es = (stopsOf es).head? :=
  (List.head?_filterMap ..).symm

/-- Below a directory only the failures change. -/
lemma stopsOf_below (name : Bytes) {es : List Event}
    (hes : ∀ stop, .stopped stop ∈ es → ∀ errMsg, stop ≠ .failed errMsg) :
    stopsOf (es.map (Event.below name)) = stopsOf es := by
  rw [stopsOf, List.filterMap_map, stopsOf]
  apply List.filterMap_congr
  intro e he
  cases e with
  | found directory file => rfl
  | entered directory => rfl
  | stopped stop =>
    cases stop with
    | failed errMsg => exact absurd rfl (hes _ he errMsg)
    | exited => rfl
    | crashed fault => rfl

/-- The ends of one entry. -/
lemma stopsOf_entry (off : env.conf.pruneBindMounts = false) (realPath : Bytes)
    (device : Option Device) (name : Bytes) (dType : UInt8) (opening : Opening)
    (below rest : DirStream) :
    stopsOf (events env realPath device (.entry name dType opening below rest)) =
      (match entryAction env (getDirPath realPath) device name dType opening with
        | .halt stop => [stop]
        | .descend dev =>
          if pruneCheck env (getDirPath (joinPath realPath name)) = .clear then
            stopsOf (events env (joinPath realPath name) (some dev) below)
          else []
        | _ => []) ++ stopsOf (events env realPath device rest) := by
  rw [events]
  cases entryAction env (getDirPath realPath) device name dType opening with
  | skip => rfl
  | store => rfl
  | halt stop => rfl
  | descend dev =>
    have hbelow := @stopsOf_below name (events env (joinPath realPath name) (some dev) below)
      (fun stop hstop => events_not_failed off hstop)
    cases hcheck : pruneCheck env (getDirPath (joinPath realPath name)) with
    | prunePath => rfl
    | bindMount => exact absurd hcheck (pruneCheck_not_bindMount off _)
    | clear =>
      simp only [if_true]
      rw [← hbelow]
      exact List.filterMap_append

@[simp] lemma without_append (effect : Effect) (es fs : List (Effect × Stop)) :
    without effect (es ++ fs) = without effect es ++ without effect fs := by
  rw [without, List.filter_append, List.map_append, without, without]

lemma without_all (effect : Effect) (es : List (Effect × Stop)) :
    without effect (es.map (fun e => (effect, e.2))) = [] := by
  rw [without, List.map_eq_nil_iff, List.filter_eq_nil_iff]
  intro e he
  obtain ⟨e', -, rfl⟩ := List.mem_map.mp he
  simp

/-- Without marks nothing is touched. -/
lemma unmarked_kept (realPath : Bytes) (device : Option Device) (entries : DirStream) :
    ∀ e ∈ ends env (fun _ => false) realPath device entries, e.1 = .kept := by
  induction entries generalizing realPath device with
  | done => exact fun e he => absurd he List.not_mem_nil
  | entry name dType opening below rest ihBelow ihRest =>
    intro e he
    rw [ends] at he
    rcases List.mem_append.mp he with hown | hrest
    · simp only [Bool.false_eq_true, if_false] at hown
      split at hown
      · rw [List.mem_singleton.mp hown]
      · split at hown
        · exact ihBelow _ _ e hown
        · cases hown
      · cases hown
    · exact ihRest _ _ e hrest

lemma without_of_kept {effect : Effect} (touched : effect ≠ .kept) {es : List (Effect × Stop)}
    (kept : ∀ e ∈ es, e.1 = .kept) : without effect es = es.map Prod.snd := by
  rw [without, List.filter_eq_self.mpr]
  intro e he
  rw [kept e he, decide_eq_true_iff]
  exact touched.symm

lemma without_none {effect other : Effect} (h : other ≠ effect) (es : List (Effect × Stop)) :
    without effect (es.map (fun e => (other, e.2))) = es.map Prod.snd := by
  rw [without, List.filter_eq_self.mpr, List.map_map]
  · rfl
  · intro e he
    obtain ⟨e', -, rfl⟩ := List.mem_map.mp he
    simpa using h

/-- A scan with the types comes to all but the gained ends. -/
lemma stopsOf_typed (off : env.conf.pruneBindMounts = false) (hidden : Position → Bool)
    (realPath : Bytes) (device : Option Device) (entries : DirStream) :
    stopsOf (events env realPath device entries) =
      without .gained (ends env hidden realPath device entries) := by
  induction entries generalizing hidden realPath device with
  | done => rfl
  | entry name dType opening below rest ihBelow ihRest =>
    rw [stopsOf_entry off, ends, without_append, ← ihRest (fun p => hidden (.next p))]
    congr 1
    have hgained : without .gained (if hidden .here then
        (match entryAction env (getDirPath realPath) device name dtUnknown opening with
          | .halt stop => [(Effect.gained, stop)]
          | _ => []) else []) = [] := by
      split
      · split <;> rfl
      · rfl
    cases entryAction env (getDirPath realPath) device name dType opening with
    | skip => exact hgained.symm
    | store => exact hgained.symm
    | halt stop => rfl
    | descend dev =>
      by_cases hclear : pruneCheck env (getDirPath (joinPath realPath name)) = .clear
      · cases hmark : hidden .here with
        | true =>
          simp only [if_pos hclear, if_true]
          rw [ihBelow (fun _ => false), without_none (by decide),
            without_of_kept (by decide) (unmarked_kept _ _ _)]
        | false =>
          simp only [if_pos hclear, Bool.false_eq_true, if_false]
          exact ihBelow _ _ _
      · simp only [if_neg hclear]
        rfl

/-- No directory is entered without its type. -/
def unentered : EntryAction → EntryAction
  | .descend _ => .skip
  | action => action

/-- Where a type leads to a stop or into a directory, the entry is opened without it as well. -/
lemma untyped_action {env : ScanEnv} {dirPath : Bytes} {device : Option Device} {name : Bytes}
    {dType : UInt8} {opening : Opening} {action : EntryAction}
    (h : entryAction env dirPath device name dType opening = action)
    (hskip : action ≠ .skip) (hstore : action ≠ .store) :
    entryAction env dirPath device name dtUnknown opening = unentered action := by
  have huntyped : entryTypeOf dtUnknown = .unknown := by decide
  rw [entryAction] at h ⊢
  by_cases hdots : isDots name = true
  · rw [if_pos hdots] at h
    exact absurd h.symm hskip
  by_cases hname : name = []
  · rw [if_neg hdots, if_pos hname] at h
    exact absurd h.symm hskip
  by_cases hreg : entryTypeOf dType = .regFile
  · rw [if_neg hdots, if_neg hname, if_pos hreg] at h
    split at h
    · exact absurd h.symm hstore
    · exact absurd h.symm hskip
  rw [if_neg hdots, if_neg hname, if_neg hreg] at h
  rw [if_neg hdots, if_neg hname, huntyped, if_neg EntryType.noConfusion,
    if_neg (fun h => h.1 rfl)]
  split at h
  · exact absurd h.symm hskip
  split at h
  · exact absurd h.symm hskip
  next hprune =>
    subst h
    rw [if_neg hprune]
    rcases opening with _ | _ | (_ | dev)
    · rfl
    · rfl
    · simp only
      split <;> rfl
    · cases device with
      | none => rfl
      | some parentDev =>
        simp only [reduceCtorEq, if_false]
        split
        · rfl
        · split <;> rfl

lemma unknown_of_halt {env : ScanEnv} {dirPath : Bytes} {device : Option Device} {name : Bytes}
    {dType : UInt8} {opening : Opening} {stop : Stop}
    (h : entryAction env dirPath device name dType opening = .halt stop) :
    entryAction env dirPath device name dtUnknown opening = .halt stop :=
  untyped_action h EntryAction.noConfusion EntryAction.noConfusion

lemma unknown_of_descend {env : ScanEnv} {dirPath : Bytes} {device : Option Device} {name : Bytes}
    {dType : UInt8} {opening : Opening} {dev : Device}
    (h : entryAction env dirPath device name dType opening = .descend dev) :
    entryAction env dirPath device name dtUnknown opening = .skip :=
  untyped_action h EntryAction.noConfusion EntryAction.noConfusion

/-- A scan without the marked types comes to all but the lost ends. -/
lemma stopsOf_hidden (off : env.conf.pruneBindMounts = false) (hidden : Position → Bool)
    (realPath : Bytes) (device : Option Device) (entries : DirStream) :
    stopsOf (events env realPath device (hideTypes hidden entries)) =
      without .lost (ends env hidden realPath device entries) := by
  induction entries generalizing hidden realPath device with
  | done => rfl
  | entry name dType opening below rest ihBelow ihRest =>
    rw [hideTypes, stopsOf_entry off, ends, without_append, ← ihRest]
    congr 1
    cases hmark : hidden .here with
    | true =>
      simp only [if_true]
      have hunknown := unknown_action env (getDirPath realPath) device name opening
      cases haction : entryAction env (getDirPath realPath) device name dType opening with
      | skip => rcases hunknown with h | ⟨stop, h⟩ <;> rw [h] <;> rfl
      | store => rcases hunknown with h | ⟨stop, h⟩ <;> rw [h] <;> rfl
      | halt stop =>
        rw [unknown_of_halt haction]
        rfl
      | descend dev =>
        rw [unknown_of_descend haction]
        simp only
        split
        · exact (without_all _ _).symm
        · rfl
    | false =>
      simp only [Bool.false_eq_true, if_false]
      cases entryAction env (getDirPath realPath) device name dType opening with
      | skip => rfl
      | store => rfl
      | halt stop => rfl
      | descend dev =>
        simp only
        split
        · exact ihBelow _ _ _
        · rfl

/-- Both scans come to the same first end exactly if the marks are harmless. -/
lemma harmless_iff (es : List (Effect × Stop)) :
    Harmless es ↔ (without .gained es).head? = (without .lost es).head? := by
  rcases es with _ | ⟨⟨_ | _ | _, stop⟩, rest⟩
  · exact iff_of_true .none rfl
  · exact iff_of_true (.kept stop rest) rfl
  · constructor
    · rintro ⟨⟩
      rename_i instead
      exact instead.symm
    · exact fun h => .lost h.symm
  · constructor
    · rintro ⟨⟩
      rename_i instead
      exact instead
    · exact fun h => .gained h

lemma ends_nil_iff {es : List (Effect × Stop)} (harmless : Harmless es) :
    (without .gained es).head? = none ↔ es = [] := by
  constructor
  · intro hnone
    have hnone' := (harmless_iff es).mp harmless ▸ hnone
    cases harmless with
    | none => rfl
    | kept stop rest => cases hnone
    | lost => cases hnone
    | gained => cases hnone'
  · rintro rfl
    rfl

/-- Walks without failures have the same status exactly if the same kind of stop ends them. -/
lemma status_eq_iff {es fs : List Event} (hes : ∀ errMsg, firstStop es ≠ some (.failed errMsg))
    (hfs : ∀ errMsg, firstStop fs ≠ some (.failed errMsg)) :
    status (outcomeOf es) = status (outcomeOf fs) ↔ firstStop es = firstStop fs := by
  rw [outcomeOf_eq, outcomeOf_eq]
  rcases hstop : firstStop es with _ | (errMsg | _ | fault)
  · rcases hstop' : firstStop fs with _ | (errMsg' | _ | fault')
    · simp
    · exact absurd hstop' (hfs errMsg')
    · simp [status, Stop.outcome]
    · simp [status, Stop.outcome]
  · exact absurd hstop (hes errMsg)
  · rcases hstop' : firstStop fs with _ | (errMsg' | _ | fault')
    · simp [status, Stop.outcome]
    · exact absurd hstop' (hfs errMsg')
    · simp
    · simp [status, Stop.outcome]
  · rcases hstop' : firstStop fs with _ | (errMsg' | _ | fault')
    · simp [status, Stop.outcome]
    · exact absurd hstop' (hfs errMsg')
    · simp [status, Stop.outcome]
    · simp [status, Stop.outcome]

/-- A walk without failures returns exactly if nothing stops it. -/
lemma returns_iff {es : List Event} (hes : ∀ errMsg, firstStop es ≠ some (.failed errMsg)) :
    (∃ result, status (outcomeOf es) = .returned result) ↔ firstStop es = none := by
  rw [outcomeOf_eq]
  rcases hstop : firstStop es with _ | (errMsg | _ | fault)
  · simp [status]
  · exact absurd hstop (hes errMsg)
  · simp [status, Stop.outcome]
  · simp [status, Stop.outcome]

lemma sameResult_congr {a a' b b' : ScanOutcome × ScanState} (ha : SameScan a a')
    (hb : SameScan b b') : SameResult a b ↔ SameResult a' b' := by
  simp only [SameResult, ha.1, ha.2.1, ha.2.2, hb.1, hb.2.1, hb.2.2]

/-- Replays of walks that are stopped alike have the same result if they find the same files
without a stop; the numbers of the files tell them apart. -/
lemma sameResult_replay_iff {es fs : List Event} {lost : Prop}
    (hes : ∀ errMsg, firstStop es ≠ some (.failed errMsg))
    (hfs : ∀ errMsg, firstStop fs ≠ some (.failed errMsg))
    (loses : Loses lost (filesOf fs) (filesOf es)) (st : ScanState) :
    SameResult (replay es st) (replay fs st) ↔
      firstStop es = firstStop fs ∧ (firstStop es = none → ¬ lost) := by
  rw [SameResult, replay_outcome, replay_outcome, status_eq_iff hes hfs]
  apply and_congr_right
  intro hstop
  have hpairs := replay_files es st
  have hpairs' := replay_files fs st
  constructor
  · intro hsame hfree hlost
    obtain ⟨result, hresult⟩ := (returns_iff hes).mpr hfree
    obtain ⟨hfiles, -⟩ := hsame result hresult
    have hlen := congrArg (fun pair : List FileInfo × StringCache => pair.1.length) hpairs
    have hlen' := congrArg (fun pair : List FileInfo × StringCache => pair.1.length) hpairs'
    simp only [storedFiles_length, foundOf_eq_filesOf hfree, foundOf_eq_filesOf (hstop ▸ hfree)]
      at hlen hlen'
    have hless := loses.1 hlost
    rw [hfiles] at hlen
    omega
  · intro hkept result hresult
    have hfree := (returns_iff hes).mp ⟨result, hresult⟩
    rw [foundOf_eq_filesOf hfree] at hpairs
    rw [foundOf_eq_filesOf (hstop ▸ hfree), loses.2 (hkept hfree), ← hpairs] at hpairs'
    exact ⟨(congrArg Prod.fst hpairs').symm, (congrArg Prod.snd hpairs').symm⟩

/-- Hiding types changes nothing in a scan exactly if the scan root is pruned, or the marked entries
neither add nor take away the opening that ends the scan and, where none does, none of them is
overlooked. -/
theorem types_dispensable_iff {env : ScanEnv} (off : env.conf.pruneBindMounts = false) (root : Root)
    (hidden : Position → Bool) (st : ScanState) :
    SameResult (scan env (.ok root) st) (scan env (.ok (hideRootTypes hidden root)) st) ↔
      (pruneCheck env (getDirPath root.realPath) = .clear →
        Harmless (endsFrom env hidden root) ∧
          (endsFrom env hidden root = [] → ¬ OverlooksFrom env hidden root)) := by
  cases hcheck : pruneCheck env (getDirPath root.realPath) with
  | bindMount => exact absurd hcheck (pruneCheck_not_bindMount off _)
  | prunePath =>
    have hsame : scan env (.ok (hideRootTypes hidden root)) st = scan env (.ok root) st := by
      simp only [scan, scanFs, hideRootTypes, hcheck]
    rw [hsame]
    exact iff_of_true ⟨rfl, fun _ _ => ⟨rfl, rfl⟩⟩ (fun h => by cases h)
  | clear =>
    have hclear : pruneCheck env (getDirPath (hideRootTypes hidden root).realPath) = .clear :=
      hcheck
    rw [sameResult_congr (scan_replay hcheck st) (scan_replay hclear st),
      forall_prop_of_true rfl]
    have htyped : firstStop (rootEvents env root) =
        (without .gained (endsFrom env hidden root)).head? := by
      rw [firstStop_eq]
      exact congrArg List.head? (stopsOf_typed off hidden _ _ _)
    have huntyped : firstStop (rootEvents env (hideRootTypes hidden root)) =
        (without .lost (endsFrom env hidden root)).head? := by
      rw [firstStop_eq]
      exact congrArg List.head? (stopsOf_hidden off hidden _ _ _)
    refine (sameResult_replay_iff (firstStop_not_failed off root)
      (firstStop_not_failed off (hideRootTypes hidden root))
      (hidden_files hidden root.realPath root.device root.entries) st).trans ?_
    change (firstStop (rootEvents env root) = firstStop (rootEvents env _) ∧
      (firstStop (rootEvents env root) = none → ¬ OverlooksFrom env hidden root)) ↔ _
    rw [htyped, huntyped, ← harmless_iff]
    exact and_congr_right fun harmless => imp_congr_left (ends_nil_iff harmless)

/-- The mark on the first entry alone. -/
def firstHidden : Position → Bool
  | .here => true
  | _ => false

def plainEnv : ScanEnv where
  conf := ConfigParser.new
  isBindMount := fun _ => false
  mounts := some []

/-- The type of the empty directory `mnt` is dispensable. -/
theorem types_dispensable_mnt :
    SameResult (scan plainEnv (.ok mntRoot) (.new none))
      (scan plainEnv (.ok (hideRootTypes firstHidden mntRoot)) (.new none)) := by
  have hmnt : entryAction plainEnv (getDirPath (text "/")) (some 1) (text "mnt") 4
      (.opened (some 1)) = .descend 1 := by decide
  have hfile : entryAction plainEnv (getDirPath (text "/")) (some 1) (text "a.so") 8 .failed =
      .store := by decide
  apply (types_dispensable_iff rfl mntRoot firstHidden (.new none)).mpr
  have hends : endsFrom plainEnv firstHidden mntRoot = [] := by decide
  intro _
  rw [hends]
  refine ⟨.none, fun _ => ?_⟩
  simp only [OverlooksFrom, mntRoot, Overlooks, hmnt, hfile]
  simp [firstHidden, HoldsFile]

/-- A root with one tracked file. -/
def fileRoot : Root where
  realPath := text "/"
  device := some 1
  entries := .entry (text "a.so") 8 .failed .done .done

/-- Without its type the tracked file `/a.so` is not found. -/
theorem untyped_file_lost :
    plainEnv.conf.pruneBindMounts = false ∧
      ¬ SameResult (scan plainEnv (.ok fileRoot) (.new none))
        (scan plainEnv (.ok (hideRootTypes firstHidden fileRoot)) (.new none)) := by
  refine ⟨rfl, ?_⟩
  rintro ⟨-, hfound⟩
  obtain ⟨hfiles, -⟩ := hfound true (by decide)
  revert hfiles
  decide

end Results
end UnknownTypes
