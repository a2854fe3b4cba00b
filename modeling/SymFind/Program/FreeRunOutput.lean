import SymFind.Core.SymbolPrinting
import SymFind.Lib.Shuffle
import SymFind.Program.SearchPipeline

/-!
# What a free run prints

Every thread inserts into the one output stream, and prints a symbol by three
insertions. Each insertion arrives whole, but those of other threads may come
between the path of a file and the symbol's line.
-/
namespace FreeRunOutput
open RecordCodec Machine SymbolData PathCache PathStrings ElfParser Threading ParallelBuild
open SearchAgreement SymbolPrinting Shuffle SearchPipeline TreeScan ScanSelection Compression

section Output

/-- The insertions that print a list of symbols one after the other. -/
def outputOf (shown : List Shown) : List Bytes :=
  shown.flatMap (fun s => insertions s.1 s.2.1 s.2.2)

/-- Every path is followed by the line of its symbol. -/
def Whole (out : List Bytes) : Prop := ∃ shown, out = outputOf shown

/-- What the threads of a free run insert, each in its order. -/
def threadOutputs (shared : Shared) (ignoreSymbol : SymbolShouldBeIgnoredCallback)
    (chunks : List FileIDList) : Except Fault (List (List Bytes)) := do
  let outputs ← chunks.mapM (worker shared ignoreSymbol [])
  pure (outputs.map outputOf)

lemma outputOf_append (shown more : List Shown) :
    outputOf (shown ++ more) = outputOf shown ++ outputOf more := List.flatMap_append

lemma outputOf_eq_nil_iff (shown : List Shown) : outputOf shown = [] ↔ shown = [] := by
  cases shown with
  | nil => simp [outputOf]
  | cons s rest => simp [outputOf, insertions]

/-- Behind the first insertion of an output comes the colon that ends a line with a path. -/
lemma Whole.second {first second : Bytes} {rest : List Bytes}
    (whole : Whole (first :: second :: rest)) : second = text ":\n" := by
  obtain ⟨shown, h⟩ := whole
  cases shown with
  | nil => cases h
  | cons s more => exact (List.cons.inj (List.cons.inj h).2).1

end Output

section Tearing

variable {outputs : List (List Shown)}

lemma outputOf_flatten (outputs : List (List Shown)) :
    (outputs.map outputOf).flatten = outputOf outputs.flatten := by
  induction outputs with
  | nil => rfl
  | cons shown rest ih =>
    rw [List.map_cons, List.flatten_cons, ih, List.flatten_cons, outputOf_append]

lemma printing_length (outputs : List (List Shown)) :
    ((outputs.map outputOf).filter (· ≠ [])).length = (outputs.filter (· ≠ [])).length := by
  rw [List.filter_map, List.length_map]
  congr 1
  apply List.filter_congr
  intro shown _
  simp [outputOf_eq_nil_iff]

/-- With one printing thread the lines stay together. -/
lemma whole_of_single (single : (outputs.filter (· ≠ [])).length ≤ 1) {out : List Bytes}
    (shuffles : Shuffles (outputs.map outputOf) out) : Whole out := by
  refine ⟨outputs.flatten, ?_⟩
  rw [shuffles.of_single (by rwa [printing_length]), outputOf_flatten]

/-- Two printing threads can part them: both insert a path before either goes on. -/
lemma torn_of_two (before middle after : List (List Shown)) (s t : Shown)
    (shown shown' : List Shown) (named : slash ∈ t.1) :
    ∃ out, Shuffles ((before ++ (s :: shown) :: (middle ++ (t :: shown') :: after)).map outputOf)
      out ∧ ¬ Whole out := by
  obtain ⟨rest, hrest⟩ : ∃ rest, outputOf (s :: shown) = s.1 :: rest := ⟨_, rfl⟩
  obtain ⟨rest', hrest'⟩ : ∃ rest, outputOf (t :: shown') = t.1 :: rest := ⟨_, rfl⟩
  rw [List.map_append, List.map_cons, List.map_append, List.map_cons, hrest, hrest']
  obtain ⟨out, hlater⟩ : ∃ out, Shuffles ((before.map outputOf ++ rest :: middle.map outputOf) ++
      rest' :: after.map outputOf) out := ⟨_, shuffles_flatten _⟩
  have hsecond := Shuffles.take (a := t.1) hlater
  rw [List.append_assoc, List.cons_append] at hsecond
  refine ⟨_, .take hsecond, fun whole => ?_⟩
  have hcolon := whole.second
  rw [hcolon] at named
  exact absurd named (by decide)

/-- Two threads that print stand somewhere among the others. -/
lemma exists_two {outputs : List (List Shown)} (two : 2 ≤ (outputs.filter (· ≠ [])).length) :
    ∃ before s shown middle t shown' after,
      outputs = before ++ (s :: shown) :: (middle ++ (t :: shown') :: after) := by
  obtain ⟨first, second, more, hfilter⟩ : ∃ first second more,
      outputs.filter (· ≠ []) = first :: second :: more := by
    match hf : outputs.filter (· ≠ []), two with
    | first :: second :: more, _ => exact ⟨first, second, more, rfl⟩
  obtain ⟨before, behind, rfl, -, hfirst, hbehind⟩ := List.filter_eq_cons_iff.mp hfilter
  obtain ⟨middle, after, rfl, -, hsecond, -⟩ := List.filter_eq_cons_iff.mp hbehind
  obtain ⟨s, shown, rfl⟩ := List.exists_cons_of_ne_nil (of_decide_eq_true hfirst)
  obtain ⟨t, shown', rfl⟩ := List.exists_cons_of_ne_nil (of_decide_eq_true hsecond)
  exact ⟨before, s, shown, middle, t, shown', after, rfl⟩

/-- However the insertions arrive, paths and lines stay together exactly when one thread at most
prints. -/
lemma whole_iff (named : ∀ shown ∈ outputs, ∀ s ∈ shown, slash ∈ s.1) :
    (∀ out, Shuffles (outputs.map outputOf) out → Whole out) ↔
      (outputs.filter (· ≠ [])).length ≤ 1 := by
  constructor
  · intro whole
    by_contra hmany
    have htwo : 2 ≤ (outputs.filter (· ≠ [])).length := by omega
    obtain ⟨before, s, shown, middle, t, shown', after, rfl⟩ := exists_two htwo
    obtain ⟨out, hshuffles, htorn⟩ := torn_of_two before middle after s t shown shown'
      (named (t :: shown') (by simp) t List.mem_cons_self)
    exact htorn (whole out hshuffles)
  · exact fun single out shuffles => whole_of_single single shuffles

end Tearing

section Threads

/-- The chunks of a division among threads that have something to show. -/
def printingChunks (shared : Shared) (ignoreSymbol : SymbolShouldBeIgnoredCallback)
    (chunks : List FileIDList) : List FileIDList :=
  chunks.filter (fun chunk => chunk.flatMap (shownOf shared ignoreSymbol) ≠ [])

variable {shared : Shared} {ignoreSymbol : SymbolShouldBeIgnoredCallback}

/-- The threads show the files of their chunks. -/
lemma mapM_worker {chunks : List FileIDList}
    (inRange : ∀ chunk ∈ chunks, ∀ id ∈ chunk, id.toNat < shared.foundFiles.length) :
    chunks.mapM (worker shared ignoreSymbol []) =
      .ok (chunks.map (fun chunk => chunk.flatMap (shownOf shared ignoreSymbol))) := by
  induction chunks with
  | nil => rfl
  | cons chunk rest ih =>
    rw [List.mapM_cons, worker_shows (inRange chunk List.mem_cons_self),
      ih (fun c hc => inRange c (List.mem_cons_of_mem chunk hc))]
    rfl

/-- Every path under which a file is shown has a slash. -/
lemma shownOf_named (closed : ClosedPaths shared) {id : FileID} {s : Shown}
    (h : s ∈ shownOf shared ignoreSymbol id) : slash ∈ s.1 := by
  obtain ⟨sym, hsym, rfl⟩ := List.mem_map.mp h
  have hreported := List.mem_of_mem_filter hsym
  rw [reportedSymbols] at hreported
  rw [filePathOf]
  cases hfile : shared.foundFiles[id.toNat]? with
  | none =>
    rw [hfile] at hreported
    cases hreported
  | some file =>
    obtain ⟨path, hpath, hslash⟩ := closed file (List.mem_of_getElem? hfile)
    simp only [getFileInfoFullPath, StringCache.getString_of_getElem? hpath]
    exact List.mem_append_left _ (List.mem_of_getLast? hslash)

/-- What all threads insert, for any files that a scan may hand over. -/
lemma threadOutputs_eq (closed : ClosedPaths shared) (small : shared.foundFiles.length < 2 ^ 32)
    {threadCount : Nat} (someThread : 1 ≤ threadCount) :
    ∃ outputs, threadOutputs shared ignoreSymbol
        (computeFileIdChunks shared.foundFiles.length threadCount) = .ok outputs ∧
      (∀ out, Shuffles outputs out → out.Perm (outputOf
        ((allFileIds shared.foundFiles.length).flatMap (shownOf shared ignoreSymbol)))) ∧
      ((∀ out, Shuffles outputs out → Whole out) ↔ (printingChunks shared ignoreSymbol
        (computeFileIdChunks shared.foundFiles.length threadCount)).length ≤ 1) := by
  have hall := computeFileIdChunks_flatten someThread small
  obtain ⟨chunks, hchunks⟩ : ∃ chunks,
      chunks = computeFileIdChunks shared.foundFiles.length threadCount := ⟨_, rfl⟩
  have hworkers := @mapM_worker shared ignoreSymbol _ (chunk_ids someThread small)
  rw [← hchunks] at hall hworkers ⊢
  refine ⟨(chunks.map (fun chunk => chunk.flatMap (shownOf shared ignoreSymbol))).map outputOf,
    ?_, ?_, ?_⟩
  · rw [threadOutputs, hworkers]
    rfl
  · intro out shuffles
    have hflat : (chunks.map (fun chunk => chunk.flatMap (shownOf shared ignoreSymbol))).flatten =
        chunks.flatten.flatMap (shownOf shared ignoreSymbol) := by
      have hid : chunks.flatten = chunks.flatMap id := List.flatMap_id.symm
      rw [hid, List.flatMap_assoc, List.flatMap_def]
      rfl
    rw [allFileIds, ← hall, ← hflat, ← outputOf_flatten]
    exact shuffles.perm
  · rw [whole_iff, printingChunks, List.filter_map, List.length_map]
    · rfl
    · intro shown hshown s hs
      obtain ⟨chunk, -, rfl⟩ := List.mem_map.mp hshown
      obtain ⟨id, -, hid⟩ := List.mem_flatMap.mp hs
      exact shownOf_named closed hid

/-- Behind any scan, with any number of threads: whatever the order of the insertions, a free run
prints the symbols of the found files, and no path is parted from its line in any order exactly
when one thread at most has something to print. -/
theorem free_run_torn_iff (env : ScanEnv) (root : Except Nat Root)
    (dictBuilder : Option DictionaryBuilder) (contents : Bytes → ObjectFile)
    (ignoreSymbol : SymbolShouldBeIgnoredCallback) (threadCount : Nat)
    (someThread : 1 ≤ threadCount)
    (small : (scan env root (.new dictBuilder)).2.foundFiles.length < 2 ^ 32) :
    ∃ outputs, threadOutputs (sharedOf (scan env root (.new dictBuilder)).2 contents) ignoreSymbol
        (computeFileIdChunks (scan env root (.new dictBuilder)).2.foundFiles.length threadCount) =
          .ok outputs ∧
      (∀ out, Shuffles outputs out → out.Perm (outputOf (shownOfPaths contents ignoreSymbol
        (foundPaths (scan env root (.new dictBuilder)))))) ∧
      ((∀ out, Shuffles outputs out → Whole out) ↔
        (printingChunks (sharedOf (scan env root (.new dictBuilder)).2 contents) ignoreSymbol
          (computeFileIdChunks (scan env root (.new dictBuilder)).2.foundFiles.length
            threadCount)).length ≤ 1) := by
  have interned := @scan_keeps Interned env interned_kept root _ (interned_new dictBuilder)
  rw [foundPaths, ← flatMap_shownOf _ contents ignoreSymbol small]
  exact threadOutputs_eq (interned.closed contents) small someThread

/-- Two object files under the root, each of them with one symbol. -/
def twoObjects : Root where
  realPath := text "/"
  device := some 1
  entries := .entry (text "a.o") 8 .failed .done (.entry (text "b.o") 8 .failed .done .done)

def oneSymbol (_ : Bytes) : ObjectFile :=
  .ok [⟨text "main", ⟨true, .symtab, .func, .global, .default, 0⟩⟩]

theorem free_run_torn_two :
    ∃ outputs out, threadOutputs
        (sharedOf (scan nothingPruned (.ok twoObjects) (.new none)).2 oneSymbol) (fun _ => false)
        (computeFileIdChunks 2 2) = .ok outputs ∧ Shuffles outputs out ∧ ¬ Whole out := by
  obtain ⟨outputs, hthreads, -, hwhole⟩ := free_run_torn_iff nothingPruned (.ok twoObjects) none
    oneSymbol (fun _ => false) 2 (by decide) (by decide +kernel)
  have htorn : ¬ ∀ out, Shuffles outputs out → Whole out :=
    fun whole => absurd (hwhole.mp whole) (by decide +kernel)
  obtain ⟨out, hout⟩ := Classical.not_forall.mp htorn
  obtain ⟨hshuffles, hnot⟩ := Classical.not_imp.mp hout
  exact ⟨outputs, out, hthreads, hshuffles, hnot⟩

end Threads

end FreeRunOutput
