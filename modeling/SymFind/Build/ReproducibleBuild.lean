import SymFind.Build.MergeTables
import SymFind.Build.SearchAgreement
import SymFind.Filesystem.ScanSelection

/-!
# The same files give the same database

Threads finish in any order and the kernel stores a buffer in any number of
pieces, but what a build stores is settled before, as long as its tables are
iterated in the order of insertion: the names reach the dictionary in the order
of the files, and the merged table does not depend on how the files were shared
out.
-/
namespace ReproducibleBuild
open RecordCodec InsertionMap Machine SymbolData TrigramCodes PathCache Compression
open DatabaseLayout DatabaseBlocks Config DatabaseWriting WritePlan DatabaseRoundTrip
open ParallelBuild MergeTables SearchAgreement Interleaving Threading

section Sampling

/-- The part of a merge that decides about samples. -/
abbrev Sampling := Option DictionaryBuilder × UInt64

def sampling (m : Merging) : Sampling := (m.dictBuilder, m.symbolNameSamples)

/-- A new name as the merge offers it. -/
def offer : Sampling → SymbolName → Sampling
  | (none, samples), _ => (none, samples)
  | (some builder, samples), name =>
    (some (if (samples + 1).toNat ≤ maxSymbolNameSamples then builder.addSample name else builder),
      samples + 1)

lemma sampling_addSample (m : Merging) (name : SymbolName) :
    sampling (m.addSample name) = offer (sampling m) name := by
  obtain ⟨mergedSymtable, dictBuilder, samples⟩ := m
  cases dictBuilder <;> rfl

/-- A pass offers a name when the merged table does not know it. -/
lemma sampling_mergeSymbol (m : Merging) (sym : SymbolName × SymbolRefs) :
    sampling (mergeSymbol m sym) =
      if sym.1 ∈ m.mergedSymtable.keys then sampling m else offer (sampling m) sym.1 := by
  by_cases known : sym.1 ∈ m.mergedSymtable.keys
  · obtain ⟨-, hbuilder, hsamples⟩ := mergeSymbol_known known
    rw [if_pos known, sampling, hbuilder, hsamples]
    rfl
  · have hget := (m.mergedSymtable.get_eq_none_iff sym.1).mpr known
    rw [if_neg known, ← sampling_addSample, mergeSymbol, hget]
    rfl

/-- Over a list of entries the new names are offered in the order of their first appearance, and
they are the keys that the merged table gets. -/
lemma foldl_mergeSymbol_sampling (syms : List (SymbolName × SymbolRefs)) (m : Merging) :
    (syms.foldl mergeSymbol m).mergedSymtable.keys =
        m.mergedSymtable.keys ++ newOf m.mergedSymtable.keys (syms.map Prod.fst) ∧
      sampling (syms.foldl mergeSymbol m) =
        (newOf m.mergedSymtable.keys (syms.map Prod.fst)).foldl offer (sampling m) := by
  induction syms generalizing m with
  | nil => simp [newOf]
  | cons sym rest ih =>
    obtain ⟨hkeys, hsampling⟩ := ih (mergeSymbol m sym)
    rw [List.foldl_cons, List.map_cons, hkeys, hsampling, sampling_mergeSymbol, mergeSymbol_keys,
      addKey]
    by_cases known : sym.1 ∈ m.mergedSymtable.keys
    · rw [if_pos known, if_pos known, newOf_known known]
      exact ⟨rfl, rfl⟩
    · rw [if_neg known, if_neg known, newOf_new known, List.foldl_cons, List.append_assoc]
      exact ⟨rfl, rfl⟩

/-- A merge into an empty table offers the keys of the merged table in their order. -/
lemma mergeSymtables_sampling (symtables : List HashMap) (dictBuilder : Option DictionaryBuilder)
    (samples : UInt64) :
    sampling (mergeSymtables symtables ⟨Map.empty, dictBuilder, samples⟩) =
      (mergeSymtables symtables ⟨Map.empty, dictBuilder, samples⟩).mergedSymtable.keys.foldl offer
        (dictBuilder, samples) := by
  rw [mergeSymtables_entries]
  obtain ⟨hkeys, hsampling⟩ := foldl_mergeSymbol_sampling (symtables.flatMap Map.entries)
    ⟨Map.empty, dictBuilder, samples⟩
  rw [hkeys, hsampling]
  rfl

end Sampling

section Builds

variable {z : Zstd} {order : IterationOrder (TrigramCode × List UInt32)}
  {tableOrder : IterationOrder (SymbolName × SymbolRefs)} {shared : Shared}
  {conf : ConfigParser} {dictBuilder : Option DictionaryBuilder}

/-- What every build of these files hands to `store_db`. -/
def settledArgs (shared : Shared) (conf : ConfigParser) (dictBuilder : Option DictionaryBuilder) :
    StoreArgs where
  foundFiles := shared.foundFiles
  pathList := shared.cache.idToStr
  conf := conf
  symtable := record (reports shared (allFileIds shared.foundFiles.length))
  dictBuilder := ((record (reports shared (allFileIds shared.foundFiles.length))).keys.foldl offer
    (dictBuilder, 0)).1

/-- What the threads hand to `store_db` when they have stopped. -/
lemma args_settled (inserted : InsertionOrdered tableOrder) {threadCount : Nat}
    (someThread : 1 ≤ threadCount) (small : shared.foundFiles.length < 2 ^ 32)
    {joined : List Worker}
    (steps : Steps (Worker.next shared)
      ((computeFileIdChunks shared.foundFiles.length threadCount).map Worker.start) joined)
    (stopped : Stopped (Worker.next shared) joined) :
    buildArgs tableOrder shared conf
        (mergeSymtables ((joined.map Worker.symtable).map (iterated tableOrder))
          ⟨Map.empty, dictBuilder, 0⟩) =
      settledArgs shared conf dictBuilder := by
  have htable : (mergeSymtables (joined.map Worker.symtable)
      ⟨Map.empty, dictBuilder, 0⟩).mergedSymtable =
        record (reports shared (allFileIds shared.foundFiles.length)) := by
    rw [(joined_symtables (chunk_ids someThread small) steps stopped).2,
      merged_record (computeFileIdChunks_flatten someThread small)]
  have hbuilder := congrArg Prod.fst
    (mergeSymtables_sampling (joined.map Worker.symtable) dictBuilder 0)
  rw [htable] at hbuilder
  rw [inserted.tables, buildArgs, inserted, settledArgs, htable, ← hbuilder]
  rfl

/-- Threads that are started are one at least, and they start on the chunks. -/
lemma launched_chunks {fileCount threadCount : Nat} {workers : List Worker}
    (launched : launchThreads fileCount threadCount = some workers) :
    1 ≤ threadCount ∧ workers = (computeFileIdChunks fileCount threadCount).map Worker.start := by
  rw [launchThreads] at launched
  split_ifs at launched with hzero
  exact ⟨by omega, (Option.some.inj launched).symm⟩

lemma args_launched (inserted : InsertionOrdered tableOrder) {threadCount : Nat}
    {workers joined : List Worker}
    (launched : launchThreads shared.foundFiles.length threadCount = some workers)
    (small : shared.foundFiles.length < 2 ^ 32) (steps : Steps (Worker.next shared) workers joined)
    (stopped : Stopped (Worker.next shared) joined) :
    buildArgs tableOrder shared conf
        (mergeSymtables ((joined.map Worker.symtable).map (iterated tableOrder))
          ⟨Map.empty, dictBuilder, 0⟩) =
      settledArgs shared conf dictBuilder := by
  obtain ⟨someThread, rfl⟩ := launched_chunks launched
  exact args_settled inserted someThread small steps stopped

/-- What a build hands to `store_db` does not depend on its threads. -/
lemma BuildRun.args_eq (run : BuildRun z order tableOrder shared conf dictBuilder)
    (inserted : InsertionOrdered tableOrder) (small : shared.foundFiles.length < 2 ^ 32) :
    buildArgs tableOrder shared conf run.merging = settledArgs shared conf dictBuilder := by
  rw [run.merged, args_launched inserted run.launched small run.steps run.stopped]

/-- A build that returns true leaves the image of what was found. -/
lemma BuildRun.image (run : BuildRun z order tableOrder shared conf dictBuilder)
    (inserted : InsertionOrdered tableOrder)
    (fits : Fits z order (settledArgs shared conf dictBuilder)) :
    ∃ built, buildTables z order (settledArgs shared conf dictBuilder)
        (withDictOf z (settledArgs shared conf dictBuilder)) = .ok built ∧
      run.after.file = (imageParts z (settledArgs shared conf dictBuilder) built).flatten := by
  have hargs := BuildRun.args_eq run inserted (small_of_fits fits)
  obtain ⟨built, hbuilt, hfile⟩ := stored_image (hargs ▸ fits) run.returned
  rw [hargs] at hbuilt hfile
  exact ⟨built, hbuilt, hfile⟩

/-- Two builds of the same files that return true leave the same bytes: the number of threads, the
order in which they work, what was in the file before and the sizes in which the kernel stores a
buffer make no difference. -/
theorem builds_leave_same_bytes (run run' : BuildRun z order tableOrder shared conf dictBuilder)
    (inserted : InsertionOrdered tableOrder)
    (fits : Fits z order (settledArgs shared conf dictBuilder)) :
    run.after.file = run'.after.file := by
  obtain ⟨built, hbuilt, hfile⟩ := BuildRun.image run inserted fits
  obtain ⟨built', hbuilt', hfile'⟩ := BuildRun.image run' inserted fits
  obtain rfl : built = built' := Except.ok.inj (hbuilt.symm.trans hbuilt')
  rw [hfile, hfile']

/-- What can be stored of the files some build stores, with any number of threads. -/
lemma exists_build (inserted : InsertionOrdered tableOrder)
    (small : shared.foundFiles.length < 2 ^ 32) {threadCount : Nat}
    (someThread : 1 ≤ threadCount) {before : Disk}
    (stores : (Writing.on (storeDb z order (.ok ()) (settledArgs shared conf dictBuilder))
      before).1.isOk = true) :
    ∃ run : BuildRun z order tableOrder shared conf dictBuilder,
      run.threadCount = threadCount := by
  obtain ⟨joined, steps, stopped⟩ := exists_stopped (@worker_lowers shared)
    ((computeFileIdChunks shared.foundFiles.length threadCount).map Worker.start)
  have hargs := @args_settled tableOrder shared conf dictBuilder inserted _ someThread small _ steps
    stopped
  rcases hrun : Writing.on (storeDb z order (.ok ()) (settledArgs shared conf dictBuilder))
    before with ⟨halt | u, after⟩
  · rw [hrun] at stores
    cases stores
  · have launched : launchThreads shared.foundFiles.length threadCount =
        some ((computeFileIdChunks shared.foundFiles.length threadCount).map Worker.start) := by
      rw [launchThreads, if_neg (by omega)]
    exact ⟨⟨threadCount, someThread, _, launched, joined, steps, stopped, _, rfl, .ok (), .ok (),
      before, after, by rw [hargs]; exact hrun⟩, rfl⟩

lemma exists_sampleBuild {threadCount : Nat} (someThread : 1 ≤ threadCount) :
    ∃ run : BuildRun Zstd.stored (IterationOrder.insertion _) (IterationOrder.insertion _)
        sampleShared ConfigParser.new none,
      run.threadCount = threadCount :=
  @exists_build _ _ _ _ _ _ insertion_ordered (by decide) _ someThread sampleDisk
    (by decide +kernel)

/-- One thread and two threads leave the same database of the three files. -/
theorem builds_leave_same_bytes_sample :
    ∃ run run' : BuildRun Zstd.stored (IterationOrder.insertion _) (IterationOrder.insertion _)
        sampleShared ConfigParser.new none,
      run.threadCount = 1 ∧ run'.threadCount = 2 ∧ run.after.file = run'.after.file := by
  obtain ⟨run, hone⟩ := exists_sampleBuild (Nat.le_refl 1)
  obtain ⟨run', htwo⟩ := exists_sampleBuild (by decide : 1 ≤ 2)
  exact ⟨run, run', hone, htwo,
    builds_leave_same_bytes run run' insertion_ordered (by decide +kernel)⟩

end Builds

end ReproducibleBuild
