import SymFind.Core.SymbolData

/-!
# Times of directories and the cached clock

A time is current unless it lies more than three seconds back. The clock is read
only when the cache does not settle that, and the cache keeps the last reading
less three seconds. The comparison with that reading is the wrong way round.
-/
namespace DirTimes

section Model

structure DirTime where
  sec : Int64
  nsec : Int32
  deriving DecidableEq

/-- `operator<` -/
def DirTime.lt (a b : DirTime) : Bool :=
  if a.sec ≠ b.sec then a.sec < b.sec else a.nsec < b.nsec

/-- `operator>=` is the negation of the comparison with its arguments exchanged. -/
def DirTime.ge (a b : DirTime) : Bool := !b.lt a

/-- `std::max` -/
def DirTime.max (a b : DirTime) : DirTime := if a.lt b then b else a

def unknownDirTime : DirTime := ⟨0, 0⟩

/-- What `gettimeofday` stores. -/
structure Timeval where
  tvSec : Int64
  tvUsec : Int64
  usec_range : 0 ≤ tvUsec.toInt ∧ tvUsec.toInt < 1000000

/-- The earliest time that is current at a reading of the clock. -/
def earliest (tv : Timeval) : DirTime := ⟨tv.tvSec - 3, (tv.tvUsec * 1000).toInt32⟩

/-- The answer and the cache after the call; `tv` is what the clock shows, if it is read. -/
def timeIsCurrent (cache dt : DirTime) (tv : Timeval) : Bool × DirTime :=
  if dt.lt cache then (false, cache)
  else
    let cache := earliest tv
    (dt.ge cache, cache)

structure Timespec where
  tvSec : Int64
  tvNsec : Int64

structure DirStat where
  stCtim : Timespec
  stMtim : Timespec

def DirStat.ctime (stat : DirStat) : DirTime := ⟨stat.stCtim.tvSec, stat.stCtim.tvNsec.toInt32⟩

def DirStat.mtime (stat : DirStat) : DirTime := ⟨stat.stMtim.tvSec, stat.stMtim.tvNsec.toInt32⟩

def getDirtimeFromStat (cache : DirTime) (stat : DirStat) (tv : Timeval) : DirTime × DirTime :=
  let dt := stat.ctime.max stat.mtime
  let (current, cache) := timeIsCurrent cache dt tv
  if current then (unknownDirTime, cache) else (dt, cache)

/-- A call of `time_is_current`: the time asked for, and what the clock shows then. -/
abbrev Query := DirTime × Timeval

/-- The answers to calls one after the other, and the cache behind them. -/
def askAll : DirTime → List Query → List Bool × DirTime
  | cache, [] => ([], cache)
  | cache, (dt, tv) :: rest =>
    let (answer, cache) := timeIsCurrent cache dt tv
    let (answers, cache) := askAll cache rest
    (answer :: answers, cache)

/-- The cache that the process starts with. -/
def startCache : DirTime := ⟨0, 0⟩

end Model

section Order

variable {a b c : DirTime}

lemma lt_iff : a.lt b = true ↔
    a.sec.toInt < b.sec.toInt ∨ (a.sec.toInt = b.sec.toInt ∧ a.nsec.toInt < b.nsec.toInt) := by
  rw [DirTime.lt]
  by_cases h : a.sec = b.sec
  · simp [h, Int32.lt_iff_toInt_lt]
  · have hne : a.sec.toInt ≠ b.sec.toInt := fun heq => h (Int64.toInt_inj.mp heq)
    simp [h, hne, Int64.lt_iff_toInt_lt]

lemma dirTime_ext (hsec : a.sec.toInt = b.sec.toInt) (hnsec : a.nsec.toInt = b.nsec.toInt) :
    a = b := by
  obtain ⟨asec, ansec⟩ := a
  obtain ⟨bsec, bnsec⟩ := b
  obtain rfl : asec = bsec := Int64.toInt_inj.mp hsec
  obtain rfl : ansec = bnsec := Int32.toInt_inj.mp hnsec
  rfl

lemma lt_irrefl (a : DirTime) : ¬ a.lt a = true := by
  rw [lt_iff]
  omega

lemma lt_asymm (h : a.lt b = true) : b.lt a = false := by
  rw [Bool.eq_false_iff, ne_eq, lt_iff]
  rw [lt_iff] at h
  omega

lemma lt_of_lt_of_le (hab : a.lt b = true) (hbc : ¬ c.lt b = true) : a.lt c = true := by
  rw [lt_iff] at *
  omega

lemma lt_trichotomy (a b : DirTime) : a.lt b = true ∨ a = b ∨ b.lt a = true := by
  rw [lt_iff, lt_iff]
  rcases Int.lt_trichotomy a.sec.toInt b.sec.toInt with h | h | h
  · exact .inl (.inl h)
  · rcases Int.lt_trichotomy a.nsec.toInt b.nsec.toInt with h' | h' | h'
    · exact .inl (.inr ⟨h, h'⟩)
    · exact .inr (.inl (dirTime_ext h h'))
    · exact .inr (.inr (.inr ⟨h.symm, h'⟩))
  · exact .inr (.inr (.inl h))

lemma max_lt_iff : (a.max b).lt c = true ↔ a.lt c = true ∧ b.lt c = true := by
  rw [DirTime.max]
  by_cases h : a.lt b = true
  · rw [if_pos h]
    rw [lt_iff] at h
    simp only [lt_iff]
    omega
  · rw [if_neg h]
    rw [lt_iff] at h
    simp only [lt_iff]
    omega

lemma lt_max_iff : c.lt (a.max b) = true ↔ c.lt a = true ∨ c.lt b = true := by
  rw [DirTime.max]
  by_cases h : a.lt b = true
  · rw [if_pos h]
    rw [lt_iff] at h
    simp only [lt_iff]
    omega
  · rw [if_neg h]
    rw [lt_iff] at h
    simp only [lt_iff]
    omega

end Order

section Clock

def Timeval.le (a b : Timeval) : Prop :=
  a.tvSec < b.tvSec ∨ (a.tvSec = b.tvSec ∧ a.tvUsec ≤ b.tvUsec)

/-- Not earlier than three seconds after the epoch. -/
def Timeval.Late (tv : Timeval) : Prop := 3 ≤ tv.tvSec

/-- What `time_is_current` would answer if it read the clock at every call. -/
def isRecent (dt : DirTime) (tv : Timeval) : Bool := !dt.lt (earliest tv)

variable {tv later : Timeval} {cache dt : DirTime}

lemma earliest_sec (late : tv.Late) : (earliest tv).sec.toInt = tv.tvSec.toInt - 3 := by
  have hlow : (3 : Int64).toInt ≤ tv.tvSec.toInt := Int64.le_iff_toInt_le.mp late
  have hthree : (3 : Int64).toInt = 3 := rfl
  have hhigh := tv.tvSec.toInt_lt
  rw [earliest, Int64.toInt_sub, hthree]
  exact Int.bmod_eq_of_le (by omega) (by omega)

lemma earliest_nsec (tv : Timeval) : (earliest tv).nsec.toInt = tv.tvUsec.toInt * 1000 := by
  obtain ⟨hlow, hhigh⟩ := tv.usec_range
  have hthousand : (1000 : Int64).toInt = 1000 := rfl
  have hproduct : (tv.tvUsec * 1000).toInt = tv.tvUsec.toInt * 1000 := by
    rw [Int64.toInt_mul, hthousand]
    exact Int.bmod_eq_of_le (by omega) (by omega)
  rw [earliest, Int64.toInt_toInt32, hproduct]
  exact Int.bmod_eq_of_le (by omega) (by omega)

/-- The limit does not go back. -/
lemma earliest_mono (late : tv.Late) (hle : tv.le later) :
    ¬ (earliest later).lt (earliest tv) = true := by
  have hfrom : later.Late := by
    rcases hle with hlt | ⟨heq, -⟩
    · exact Int64.le_trans late (Int64.le_of_lt hlt)
    · rw [Timeval.Late, ← heq]
      exact late
  rw [lt_iff, earliest_sec late, earliest_sec hfrom, earliest_nsec, earliest_nsec]
  rcases hle with hlt | ⟨heq, husec⟩
  · have := Int64.lt_iff_toInt_lt.mp hlt
    omega
  · have := Int64.le_iff_toInt_le.mp husec
    rw [heq]
    omega

lemma start_behind (late : tv.Late) : ¬ (earliest tv).lt startCache = true := by
  have hlow : (3 : Int64).toInt ≤ tv.tvSec.toInt := Int64.le_iff_toInt_le.mp late
  have hthree : (3 : Int64).toInt = 3 := rfl
  have hsec : startCache.sec.toInt = 0 := rfl
  have hnsec : startCache.nsec.toInt = 0 := rfl
  have husec := tv.usec_range.1
  rw [lt_iff, earliest_sec late, earliest_nsec, hsec, hnsec]
  omega

end Clock

section Runs

variable {tv : Timeval} {cache dt : DirTime}

/-- The clock is read unless the time lies before the cache. -/
def nextCache (cache dt : DirTime) (tv : Timeval) : DirTime :=
  if dt.lt cache then cache else earliest tv

lemma timeIsCurrent_cache (cache dt : DirTime) (tv : Timeval) :
    (timeIsCurrent cache dt tv).2 = nextCache cache dt tv := by
  rw [timeIsCurrent, nextCache]
  split <;> rfl

/-- The cached answer is right exactly for a time before the cache or right at the limit. -/
lemma timeIsCurrent_right (dt : DirTime) (behind : ¬ (earliest tv).lt cache = true) :
    (timeIsCurrent cache dt tv).1 = isRecent dt tv ↔
      dt.lt cache = true ∨ dt = earliest tv := by
  rw [timeIsCurrent, isRecent]
  by_cases h : dt.lt cache = true
  · have hold : dt.lt (earliest tv) = true := lt_of_lt_of_le h behind
    simp [h, hold]
  · rw [if_neg h, or_iff_right h]
    have hirrefl : (earliest tv).lt (earliest tv) = false := Bool.eq_false_iff.mpr (lt_irrefl _)
    rcases lt_trichotomy dt (earliest tv) with hlt | rfl | hgt
    · have hne : dt ≠ earliest tv := by
        rintro rfl
        exact lt_irrefl _ hlt
      simp [DirTime.ge, hlt, lt_asymm hlt, hne]
    · simp [DirTime.ge, hirrefl]
    · have hne : dt ≠ earliest tv := by
        rintro rfl
        exact lt_irrefl _ hgt
      simp [DirTime.ge, hgt, lt_asymm hgt, hne]

/-- Every time asked for lies before the cache or right at the limit of its call. -/
def Settled : DirTime → List Query → Prop
  | _, [] => True
  | cache, (dt, tv) :: rest =>
    (dt.lt cache = true ∨ dt = earliest tv) ∧ Settled (nextCache cache dt tv) rest

/-- The clock is not behind the cache at a call, and does not go back. -/
structure Forward (cache : DirTime) (calls : List Query) : Prop where
  behind : ∀ call ∈ calls, ¬ (earliest call.2).lt cache = true
  late : ∀ call ∈ calls, call.2.Late
  nondecreasing : calls.Pairwise (fun call next => call.2.le next.2)

lemma Forward.next {rest : List Query} (forward : Forward cache ((dt, tv) :: rest)) :
    Forward (nextCache cache dt tv) rest := by
  obtain ⟨hfrom, hrest⟩ := List.pairwise_cons.mp forward.nondecreasing
  refine ⟨?_, fun call hcall => forward.late call (List.mem_cons_of_mem _ hcall), hrest⟩
  intro call hcall
  rw [nextCache]
  split
  · exact forward.behind call (List.mem_cons_of_mem _ hcall)
  · exact earliest_mono (forward.late (dt, tv) List.mem_cons_self) (hfrom call hcall)

/-- All answers of a run are right exactly if every call is settled. -/
lemma askAll_right {calls : List Query} (forward : Forward cache calls) :
    (askAll cache calls).1 = calls.map (fun call => isRecent call.1 call.2) ↔
      Settled cache calls := by
  induction calls generalizing cache with
  | nil => simp [askAll, Settled]
  | cons call rest ih =>
    obtain ⟨dt, tv⟩ := call
    have hright := timeIsCurrent_right dt (forward.behind (dt, tv) List.mem_cons_self)
    simp only [askAll, List.map_cons, List.cons.injEq, timeIsCurrent_cache, hright,
      ih forward.next, Settled]

/-- A reading after the calls of a run is not behind the cache. -/
lemma askAll_behind {calls : List Query} (forward : Forward cache calls)
    (behind : ¬ (earliest tv).lt cache = true) (last : ∀ call ∈ calls, call.2.le tv) :
    ¬ (earliest tv).lt (askAll cache calls).2 = true := by
  induction calls generalizing cache with
  | nil => exact behind
  | cons call rest ih =>
    obtain ⟨dt, tv'⟩ := call
    simp only [askAll, timeIsCurrent_cache]
    refine ih forward.next ?_ (fun call hcall => last call (List.mem_cons_of_mem _ hcall))
    rw [nextCache]
    split
    · exact behind
    · exact earliest_mono (forward.late (dt, tv') List.mem_cons_self)
        (last (dt, tv') List.mem_cons_self)

/-- A known time means that both times lie more than three seconds back. -/
def KnownIsOld (result : DirTime) (stat : DirStat) (tv : Timeval) : Prop :=
  result ≠ unknownDirTime →
    stat.ctime.lt (earliest tv) = true ∧ stat.mtime.lt (earliest tv) = true

/-- A directory's time is known only when it is old exactly if it was not changed within the last
three seconds. -/
lemma getDirtime_old (stat : DirStat) (late : tv.Late)
    (behind : ¬ (earliest tv).lt cache = true) :
    KnownIsOld (getDirtimeFromStat cache stat tv).1 stat tv ↔
      ¬ (earliest tv).lt stat.ctime = true ∧ ¬ (earliest tv).lt stat.mtime = true := by
  rw [← not_or, ← lt_max_iff, KnownIsOld, ← max_lt_iff, getDirtimeFromStat, timeIsCurrent]
  generalize stat.ctime.max stat.mtime = dt
  by_cases hcache : dt.lt cache = true
  · have hold : dt.lt (earliest tv) = true := lt_of_lt_of_le hcache behind
    simp [hcache, hold, lt_asymm hold]
  · by_cases hnew : (earliest tv).lt dt = true
    · have hknown : dt ≠ unknownDirTime := by
        rintro rfl
        exact start_behind late hnew
      simp [hcache, DirTime.ge, hnew, hknown, lt_asymm hnew]
    · simp [hcache, DirTime.ge, hnew]

/-- Under a clock that does not go back, the answers are right exactly if each time lies before the
cache or right at the limit; a directory's time is then known only when it is old exactly if
neither of its times lies behind the limit. -/
theorem time_is_current_iff (calls : List Query)
    (nondecreasing : calls.Pairwise (fun call next => call.2.le next.2))
    (late : ∀ call ∈ calls, call.2.Late) :
    ((askAll startCache calls).1 = calls.map (fun call => isRecent call.1 call.2) ↔
      Settled startCache calls) ∧
    ∀ stat tv, tv.Late → (∀ call ∈ calls, call.2.le tv) →
      (KnownIsOld (getDirtimeFromStat (askAll startCache calls).2 stat tv).1 stat tv ↔
        ¬ (earliest tv).lt stat.ctime = true ∧ ¬ (earliest tv).lt stat.mtime = true) := by
  have forward : Forward startCache calls :=
    ⟨fun call hcall => start_behind (late call hcall), late, nondecreasing⟩
  refine ⟨askAll_right forward, ?_⟩
  intro stat tv htv last
  exact getDirtime_old stat htv (askAll_behind forward (start_behind htv) last)

/-- Two readings of the clock. -/
def firstReading : Timeval := ⟨1700000000, 0, by decide⟩
def secondReading : Timeval := ⟨1700000001, 500000, by decide⟩

/-- The second time is settled by the cache. -/
theorem time_is_current_iff_settled :
    (askAll startCache [(⟨1699999997, 0⟩, firstReading),
      (⟨1699999996, 999999999⟩, secondReading)]).1 = [true, false] := by
  have settled := (time_is_current_iff [(⟨1699999997, 0⟩, firstReading),
    (⟨1699999996, 999999999⟩, secondReading)] (by unfold Timeval.le; decide)
      (by unfold Timeval.Late; decide)).1.mpr ⟨.inr (by decide), .inl (by decide), trivial⟩
  exact settled

/-- A directory that was changed a second before the first reading. -/
def justChanged : DirStat := ⟨⟨1699999999, 0⟩, ⟨1699999999, 0⟩⟩

/-- Its time passes for an old one, and is known. -/
theorem recent_time_known :
    (askAll startCache [(justChanged.ctime, firstReading)]).1 = [false] ∧
      isRecent justChanged.ctime firstReading = true ∧
      (getDirtimeFromStat startCache justChanged firstReading).1 = justChanged.ctime ∧
      ¬ KnownIsOld (getDirtimeFromStat startCache justChanged firstReading).1 justChanged
        firstReading := by
  refine ⟨by decide, by decide, by decide, ?_⟩
  intro old
  exact absurd (old (by decide)).1 (by decide)

end Runs
end DirTimes
