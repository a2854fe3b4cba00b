import SymFind.Config.OptionParser

/-!
# Accepted and refused command lines

What is accepted can be run. A running method that is not recognised is not refused for
itself, as its test compares bits with none, and one without a value is read past the last
argument.
-/
namespace CommandLines
open RecordCodec SymbolData StringComparators OptionParser Outcome

section Reading

/-- The pieces that are taken, with the options behind them. -/
inductive Taken (options : ProgramOptions) : Token → ProgramOptions → Prop where
  | help : Taken options .help { options with printHelp := true }
  | version : Taken options .version { options with showVersion := true }
  | regex : Taken options .regex { options with searchType := .regex }
  | fuzz : Taken options .fuzz { options with searchType := .fuzzy }
  | runningMethod (value : Bytes) (unset : options.runningMethod = .notSet) :
      Taken options (.value .runningMethod (some value))
        { options with runningMethod := parseRunningMethod value }
  | searchType (value : Bytes) (known : parseSearchType value ≠ .unknown) :
      Taken options (.value .searchType (some value))
        { options with searchType := parseSearchType value }
  | visibility (value : Bytes) (known : parseVisibility value ≠ .unknown) :
      Taken options (.value .visibility (some value))
        { options with visibility := parseVisibility value }
  | scanPath (value : Bytes) :
      Taken options (.value .scanPath (some value)) { options with scanRootPath := value }
  | symbol (arg : Bytes) (unnamed : options.symbol = []) :
      Taken options (.symbol arg) { options with symbol := arg }

/-- The pieces that are refused, by what was read before. -/
def RefusedBy (options : ProgramOptions) : Token → Prop
  | .debug _ => True
  | .unknown _ => True
  | .value .runningMethod _ => options.runningMethod ≠ .notSet
  | .value .searchType none => True
  | .value .searchType (some value) => parseSearchType value = .unknown
  | .value .visibility none => True
  | .value .visibility (some value) => parseVisibility value = .unknown
  | .value .scanPath none => True
  | .symbol _ => options.symbol ≠ []
  | _ => False

/-- A piece is taken or refused, or it is a running method that lacks its value. -/
lemma applyToken_cases (options : ProgramOptions) (token : Token) :
    (∃ options', applyToken options token = .ok options' ∧ Taken options token options') ∨
      (∃ message, applyToken options token = .error (.rejected message) ∧
        RefusedBy options token) ∨
      applyToken options token = .error (.fault .nullPointer) ∧
        token = .value .runningMethod none ∧ options.runningMethod = .notSet := by
  cases token with
  | help => exact Or.inl ⟨_, rfl, .help⟩
  | version => exact Or.inl ⟨_, rfl, .version⟩
  | regex => exact Or.inl ⟨_, rfl, .regex⟩
  | fuzz => exact Or.inl ⟨_, rfl, .fuzz⟩
  | debug arg => exact Or.inr (Or.inl ⟨_, rfl, trivial⟩)
  | unknown arg => exact Or.inr (Or.inl ⟨_, rfl, trivial⟩)
  | symbol arg =>
    by_cases hsymbol : options.symbol = []
    · exact Or.inl ⟨_, if_neg (not_not_intro hsymbol), .symbol arg hsymbol⟩
    · exact Or.inr (Or.inl ⟨_, if_pos hsymbol, hsymbol⟩)
  | value option value =>
    cases option with
    | runningMethod =>
      rw [applyToken.eq_def]
      dsimp only
      by_cases hset : options.runningMethod = .notSet
      · rw [if_neg (not_not_intro hset)]
        cases value with
        | none => exact Or.inr (Or.inr ⟨rfl, rfl, hset⟩)
        | some value => exact Or.inl ⟨_, rfl, .runningMethod value hset⟩
      · rw [if_pos hset]
        exact Or.inr (Or.inl ⟨_, rfl, hset⟩)
    | searchType =>
      cases value with
      | none => exact Or.inr (Or.inl ⟨_, rfl, trivial⟩)
      | some value =>
        by_cases hunknown : parseSearchType value = .unknown
        · exact Or.inr (Or.inl ⟨_, if_pos hunknown, hunknown⟩)
        · exact Or.inl ⟨_, if_neg hunknown, .searchType value hunknown⟩
    | visibility =>
      cases value with
      | none => exact Or.inr (Or.inl ⟨_, rfl, trivial⟩)
      | some value =>
        by_cases hunknown : parseVisibility value = .unknown
        · exact Or.inr (Or.inl ⟨_, if_pos hunknown, hunknown⟩)
        · exact Or.inl ⟨_, if_neg hunknown, .visibility value hunknown⟩
    | scanPath =>
      cases value with
      | none => exact Or.inr (Or.inl ⟨_, rfl, trivial⟩)
      | some value => exact Or.inl ⟨_, rfl, .scanPath value⟩

lemma taken_of_ok {options options' : ProgramOptions} {token : Token}
    (h : applyToken options token = .ok options') : Taken options token options' := by
  rcases applyToken_cases options token with ⟨_, hok, htaken⟩ | ⟨_, herror, _⟩ | ⟨herror, _⟩
  · cases hok.symm.trans h
    exact htaken
  · cases herror.symm.trans h
  · cases herror.symm.trans h

lemma not_taken_of_refused {options options' : ProgramOptions} {token : Token}
    (refused : RefusedBy options token) : ¬ Taken options token options' := by
  intro taken
  cases taken with
  | runningMethod value unset => exact refused unset
  | searchType value known => exact known refused
  | visibility value known => exact known refused
  | symbol arg unnamed => exact refused unnamed
  | _ => exact refused

lemma rejected_iff_refusedBy (options : ProgramOptions) (token : Token) :
    (∃ message, applyToken options token = .error (.rejected message)) ↔
      RefusedBy options token := by
  rcases applyToken_cases options token with ⟨_, hok, htaken⟩ | ⟨message, herror, hrefused⟩ |
    ⟨herror, rfl, hunset⟩
  · rw [hok]
    exact iff_of_false nofun (fun hrefused => not_taken_of_refused hrefused htaken)
  · exact iff_of_true ⟨message, herror⟩ hrefused
  · rw [herror]
    exact iff_of_false nofun (fun hset => hset hunset)

/-- Only a running method without a value is a fault. -/
lemma fault_method {options : ProgramOptions} {token : Token} {fault : Machine.Fault}
    (h : applyToken options token = .error (.fault fault)) :
    token = .value .runningMethod none := by
  rcases applyToken_cases options token with ⟨_, hok, _⟩ | ⟨_, herror, _⟩ | ⟨_, hmethod, _⟩
  · cases hok.symm.trans h
  · cases herror.symm.trans h
  · exact hmethod

/-- The piece sets the running method `m`. -/
def Sets (m : RunningMethod) (token : Token) : Prop :=
  ∃ value, token = .value .runningMethod (some value) ∧ parseRunningMethod value = m

/-- The piece is a symbol that is not empty. -/
def Names (token : Token) : Prop := ∃ name, token = .symbol name ∧ name ≠ []

variable {options options' : ProgramOptions} {pieces : List Token}

/-- A running method that is set is one of the recognised ones on the command line. -/
lemma method_recorded {m : RunningMethod} (real : m ≠ .notSet)
    (h : pieces.foldlM applyToken options = .ok options') :
    options'.runningMethod = m ↔ options.runningMethod = m ∨ ∃ token ∈ pieces, Sets m token := by
  refine foldlM_recorded (Q := fun s => s.runningMethod = m) (fun s token s' hstep => ?_) h
  cases taken_of_ok hstep with
  | runningMethod value unset => simp [Sets, unset, Ne.symm real]
  | _ => simp [Sets]

lemma symbol_recorded (h : pieces.foldlM applyToken options = .ok options') :
    options'.symbol ≠ [] ↔ options.symbol ≠ [] ∨ ∃ token ∈ pieces, Names token := by
  refine foldlM_recorded (Q := fun s => s.symbol ≠ []) (fun s token s' hstep => ?_) h
  cases taken_of_ok hstep with
  | symbol arg unnamed => simp [Names, unnamed]
  | _ => simp [Names]

/-- A flag that one piece raises and no piece takes down. -/
lemma flag_recorded (flag : ProgramOptions → Bool) (raises : Token)
    (step : ∀ s token s', Taken s token s' →
      (flag s' = true ↔ flag s = true ∨ token = raises))
    (h : pieces.foldlM applyToken options = .ok options') :
    flag options' = true ↔ flag options = true ∨ raises ∈ pieces := by
  have hrec := foldlM_recorded (Q := fun s => flag s = true) (R := (· = raises))
    (fun s token s' hstep => step s token s' (taken_of_ok hstep)) h
  simpa using hrec

lemma help_recorded (h : pieces.foldlM applyToken options = .ok options') :
    options'.printHelp = true ↔ options.printHelp = true ∨ .help ∈ pieces :=
  flag_recorded (·.printHelp) .help (fun _ _ _ taken => by cases taken <;> simp) h

lemma version_recorded (h : pieces.foldlM applyToken options = .ok options') :
    options'.showVersion = true ↔ options.showVersion = true ∨ .version ∈ pieces :=
  flag_recorded (·.showVersion) .version (fun _ _ _ taken => by cases taken <;> simp) h

end Reading

section Ready

/-- No unrecognised search type or visibility is kept. -/
def Known (options : ProgramOptions) : Prop :=
  options.searchType ≠ .unknown ∧ options.visibility ≠ .unknown

lemma known_kept {options options' : ProgramOptions} {pieces : List Token} (known : Known options)
    (h : pieces.foldlM applyToken options = .ok options') : Known options' := by
  refine foldlM_keeps (fun s token s' hs hstep => ?_) known h
  cases taken_of_ok hstep with
  | regex => exact ⟨nofun, hs.2⟩
  | fuzz => exact ⟨nofun, hs.2⟩
  | searchType value hvalue => exact ⟨hvalue, hs.2⟩
  | visibility value hvalue => exact ⟨hs.1, hvalue⟩
  | _ => exact hs

/-- Options with which the program can run. -/
structure Ready (options : ProgramOptions) : Prop where
  runningMethod : options.runningMethod = .buildDb ∨ options.runningMethod = .readDb ∨
    options.runningMethod = .freeRun
  searchType : options.searchType = .default ∨ options.searchType = .regex ∨
    options.searchType = .fuzzy
  visibility : options.visibility = .onlyDefined ∨ options.visibility = .onlyRuntime ∨
    options.visibility = .showFull
  symbol : options.runningMethod ≠ .buildDb → options.symbol ≠ []
  scanRootPath : options.runningMethod ≠ .freeRun → options.scanRootPath = []

lemma real_method {m : RunningMethod} (set : m ≠ .notSet) :
    m = .buildDb ∨ m = .readDb ∨ m = .freeRun := by
  cases m <;> simp_all

lemma real_searchType {t : StringComparatorType} (set : t ≠ .notSet) (known : t ≠ .unknown) :
    t = .default ∨ t = .regex ∨ t = .fuzzy := by
  cases t <;> simp_all

lemma real_visibility {v : SymbolDefinitionToPrint} (set : v ≠ .notSet) (known : v ≠ .unknown) :
    v = .onlyDefined ∨ v = .onlyRuntime ∨ v = .showFull := by
  cases v <;> simp_all

lemma completed_ready {options : ProgramOptions} (known : Known options)
    (named : ¬ (options.symbol = [] ∧ options.runningMethod ≠ .buildDb)) :
    Ready options.completed where
  runningMethod := real_method (orDefault_unset _ nofun)
  searchType := real_searchType (orDefault_unset _ nofun) (orDefault_ne known.1 nofun)
  visibility := real_visibility (orDefault_unset _ nofun) (orDefault_ne known.2 nofun)
  symbol hmethod hsymbol := named ⟨hsymbol, mt (method_buildDb_iff _).mpr hmethod⟩
  scanRootPath hmethod := if_neg (mt (method_freeRun_iff _).mpr hmethod)

lemma parseArguments_cons (program : Bytes) {args : List Bytes} (given : args ≠ [])
    (start : ProgramOptions) : parseArguments (program :: args) start =
      (tokens args).foldlM applyToken start >>= finish := by
  have hlength : ¬ (program :: args).length < 2 := by
    have := List.length_pos_iff.mpr given
    rw [List.length_cons]
    omega
  rw [parseArguments, if_neg hlength, List.tail_cons, parseLoop_tokens]

/-- A command line is accepted when its pieces are taken and, unless help or the version is asked
for, a symbol is there. -/
lemma parseArguments_ok {argv : List Bytes} {start options : ProgramOptions}
    {warnings : List Bytes} (h : parseArguments argv start = .ok (options, warnings)) :
    ∃ options', (tokens argv.tail).foldlM applyToken start = .ok options' ∧
      finish options' = .ok (options, warnings) := by
  rw [parseArguments] at h
  split at h
  · cases h
  · rw [parseLoop_tokens] at h
    exact bind_ok h

/-- Whatever is accepted without asking for help or the version can be run, and has a
comparator. -/
theorem accepted_ready {argv : List Bytes} {options : ProgramOptions} {warnings : List Bytes}
    (accepted : parseArguments argv {} = .ok (options, warnings)) (runs : options.Runs) :
    Ready options ∧ ∀ engines,
      (makeStringComparator engines options.searchType options.symbol).isSome := by
  obtain ⟨options', hfold, hfinish⟩ := parseArguments_ok accepted
  have hknown : Known options' := known_kept ⟨by decide, by decide⟩ hfold
  have hready : Ready options := by
    by_cases hruns : options'.Runs
    · by_cases hmissing : options'.symbol = [] ∧ options'.runningMethod ≠ .buildDb
      · rw [finish_missing hruns hmissing] at hfinish
        cases hfinish
      · obtain ⟨_, hcompleted⟩ := finish_completed hruns hmissing
        rw [hcompleted] at hfinish
        cases hfinish
        exact completed_ready hknown hmissing
    · rw [finish_shown hruns] at hfinish
      cases hfinish
      exact absurd runs hruns
  refine ⟨hready, fun engines => ?_⟩
  rcases hready.searchType with h | h | h
  · rw [h]; rfl
  · rw [h]; rfl
  · rw [h]; rfl

theorem accepted_ready_regex :
    ∃ options warnings, parseArguments [text "symfind", text "-r", text "malloc"] {} =
      .ok (options, warnings) ∧ options.Runs ∧ Ready options ∧
        (makeStringComparator literalEngines options.searchType options.symbol).isSome := by
  have accepted : parseArguments [text "symfind", text "-r", text "malloc"] {} = .ok
      ({ runningMethod := .readDb, searchType := .regex, visibility := .onlyDefined,
         symbol := text "malloc" }, []) := by decide
  have hready := accepted_ready accepted ⟨rfl, rfl⟩
  exact ⟨_, _, accepted, ⟨rfl, rfl⟩, hready.1, hready.2 literalEngines⟩

end Ready

section Bad

/-- The piece is an option whose value is missing, or not recognised. -/
def BadValue : Token → Prop
  | .value _ none => True
  | .value .runningMethod (some value) => parseRunningMethod value = .notSet
  | .value .searchType (some value) => parseSearchType value = .unknown
  | .value .visibility (some value) => parseVisibility value = .unknown
  | _ => False

def Rejected (argv : List Bytes) : Prop :=
  ∃ message, parseArguments argv {} = .error (.rejected message)

/-- The pieces that end the loop with `false`. Of the running methods it is those behind one that
is recognised. -/
def Refused (before : List Token) : Token → Prop
  | .debug _ => True
  | .unknown _ => True
  | .value .runningMethod _ => ∃ token ∈ before, ∃ m, m ≠ .notSet ∧ Sets m token
  | .value .searchType none => True
  | .value .searchType (some value) => parseSearchType value = .unknown
  | .value .visibility none => True
  | .value .visibility (some value) => parseVisibility value = .unknown
  | .value .scanPath none => True
  | .symbol _ => ∃ token ∈ before, Names token
  | _ => False

def SomeRefused (pieces : List Token) : Prop :=
  ∃ before token after, pieces = before ++ token :: after ∧ Refused before token

/-- The loop gets to the end, and a symbol is missing there. -/
structure Incomplete (pieces : List Token) : Prop where
  ends : .value .runningMethod none ∉ pieces
  noHelp : .help ∉ pieces
  noVersion : .version ∉ pieces
  unnamed : ∀ token ∈ pieces, ¬ Names token
  noBuild : ∀ token ∈ pieces, ¬ Sets .buildDb token

lemma method_set_iff {before : List Token} {options : ProgramOptions}
    (h : before.foldlM applyToken {} = .ok options) :
    options.runningMethod ≠ .notSet ↔ ∃ token ∈ before, ∃ m, m ≠ .notSet ∧ Sets m token := by
  constructor
  · intro hset
    have hrec := (method_recorded hset h).mp rfl
    rcases hrec with hstart | ⟨token, hmem, hsets⟩
    · exact absurd hstart.symm hset
    · exact ⟨token, hmem, _, hset, hsets⟩
  · rintro ⟨token, hmem, m, hreal, hsets⟩
    rw [(method_recorded hreal h).mpr (Or.inr ⟨token, hmem, hsets⟩)]
    exact hreal

lemma named_iff {before : List Token} {options : ProgramOptions}
    (h : before.foldlM applyToken {} = .ok options) :
    options.symbol ≠ [] ↔ ∃ token ∈ before, Names token :=
  (symbol_recorded h).trans (or_iff_right (not_not_intro rfl))

/-- Behind pieces that were taken, the refused ones are those that end the loop with `false`. -/
lemma rejected_iff_refused {before : List Token} {options : ProgramOptions}
    (h : before.foldlM applyToken {} = .ok options) (token : Token) :
    (∃ message, applyToken options token = .error (.rejected message)) ↔
      Refused before token := by
  rw [rejected_iff_refusedBy]
  cases token with
  | symbol arg => exact named_iff h
  | value option value =>
    cases option with
    | runningMethod => exact method_set_iff h
    | _ => cases value <;> rfl
  | _ => rfl

/-- An option lacks its value at the end only. -/
lemma no_value_last {args : List Bytes} {option : ValueOption} {before after : List Token}
    (h : tokens args = before ++ .value option none :: after) : after = [] := by
  induction args using tokens.induct generalizing before with
  | case1 => exact absurd h (by simp [tokens])
  | case2 arg rest token harg ih =>
    rw [tokens_single harg] at h
    cases before with
    | nil =>
      rw [(List.cons.inj h).1] at harg
      exact absurd harg readArg_no_value
    | cons _ before => exact ih (List.cons.inj h).2
  | case3 arg option' harg =>
    rw [tokens_no_value harg] at h
    cases before with
    | nil => exact (List.cons.inj h).2.symm
    | cons _ before => exact absurd (List.cons.inj h).2 (by simp)
  | case4 arg option' harg value rest ih =>
    rw [tokens_value harg] at h
    cases before with
    | nil => cases h
    | cons _ before => exact ih (List.cons.inj h).2

/-- A refused piece is reached, or another one before it ends the loop with `false`. -/
lemma loop_rejected {args : List Bytes} (refused : SomeRefused (tokens args)) :
    ∃ message, (tokens args).foldlM applyToken {} = .error (.rejected message) := by
  obtain ⟨before, token, after, hpieces, hrefused⟩ := refused
  rw [hpieces, List.foldlM_append]
  cases hbefore : before.foldlM applyToken {} with
  | ok options =>
    obtain ⟨message, hmessage⟩ := (rejected_iff_refused hbefore token).mpr hrefused
    refine ⟨message, ?_⟩
    change (token :: after).foldlM applyToken options = _
    rw [List.foldlM_cons, hmessage]
    rfl
  | error ended =>
    cases ended with
    | rejected message => exact ⟨message, rfl⟩
    | fault fault =>
      obtain ⟨first, last, between, _, rfl, _, hlast⟩ := foldlM_fails hbefore
      rw [fault_method hlast, List.append_assoc, List.cons_append] at hpieces
      have hend := no_value_last hpieces
      exact absurd hend (by simp)

/-- Behind the loop only a missing symbol is refused. -/
lemma incomplete_of_rejected {pieces : List Token} {options : ProgramOptions} {message : Bytes}
    (h : pieces.foldlM applyToken {} = .ok options)
    (rejected : finish options = .error (.rejected message)) : Incomplete pieces := by
  have hruns : options.Runs := by
    by_contra hshown
    rw [finish_shown hshown] at rejected
    cases rejected
  have hmissing : options.symbol = [] ∧ options.runningMethod ≠ .buildDb := by
    by_contra hnamed
    obtain ⟨warnings, hfinish⟩ := finish_completed hruns hnamed
    rw [hfinish] at rejected
    cases rejected
  refine ⟨?_, ?_, ?_, ?_, ?_⟩
  · intro hmem
    obtain ⟨s₁, s₂, hstep⟩ := foldlM_step_ok h hmem
    cases taken_of_ok hstep
  · intro hmem
    exact absurd ((help_recorded h).mpr (Or.inr hmem)) (by simp [hruns.1])
  · intro hmem
    exact absurd ((version_recorded h).mpr (Or.inr hmem)) (by simp [hruns.2])
  · intro token hmem hnames
    exact (named_iff h).mpr ⟨token, hmem, hnames⟩ hmissing.1
  · intro token hmem hsets
    exact hmissing.2 ((method_recorded (by decide) h).mpr (Or.inr ⟨token, hmem, hsets⟩))

lemma rejected_of_incomplete {pieces : List Token} (incomplete : Incomplete pieces) :
    ∃ message, (pieces.foldlM applyToken {} >>= finish) = .error (.rejected message) := by
  cases hfold : pieces.foldlM applyToken {} with
  | error ended =>
    cases ended with
    | rejected message => exact ⟨message, rfl⟩
    | fault fault =>
      obtain ⟨before, token, after, _, rfl, _, htoken⟩ := foldlM_fails hfold
      rw [fault_method htoken] at incomplete
      exact absurd (List.mem_append_right before List.mem_cons_self) incomplete.ends
  | ok options =>
    have hruns : options.Runs := by
      constructor
      · rw [← Bool.not_eq_true, help_recorded hfold]
        rintro (hstart | hmem)
        · cases hstart
        · exact incomplete.noHelp hmem
      · rw [← Bool.not_eq_true, version_recorded hfold]
        rintro (hstart | hmem)
        · cases hstart
        · exact incomplete.noVersion hmem
    have hunnamed : options.symbol = [] := by
      by_contra hnamed
      obtain ⟨token, hmem, hnames⟩ := (named_iff hfold).mp hnamed
      exact incomplete.unnamed token hmem hnames
    have hbuild : options.runningMethod ≠ .buildDb := by
      rw [ne_eq, method_recorded (by decide) hfold]
      rintro (hstart | ⟨token, hmem, hsets⟩)
      · cases hstart
      · exact incomplete.noBuild token hmem hsets
    exact ⟨missingSymbol, finish_missing hruns ⟨hunnamed, hbuild⟩⟩

/-- A bad value leads to `false`, without a use of a missing argument, exactly when something else
than the value of a running method is refused. -/
theorem bad_rejected_iff (program : Bytes) (args : List Bytes)
    (bad : ∃ token ∈ tokens args, BadValue token) :
    Rejected (program :: args) ↔ SomeRefused (tokens args) ∨ Incomplete (tokens args) := by
  have hgiven : args ≠ [] := by
    rintro rfl
    obtain ⟨token, hmem, _⟩ := bad
    cases hmem
  rw [Rejected, parseArguments_cons program hgiven]
  constructor
  · rintro ⟨message, hmessage⟩
    cases hfold : (tokens args).foldlM applyToken {} with
    | error ended =>
      rw [hfold] at hmessage
      cases hmessage
      obtain ⟨before, token, after, options, hpieces, hbefore, htoken⟩ := foldlM_fails hfold
      exact Or.inl ⟨before, token, after, hpieces,
        (rejected_iff_refused hbefore token).mp ⟨message, htoken⟩⟩
    | ok options =>
      rw [hfold] at hmessage
      exact Or.inr (incomplete_of_rejected hfold hmessage)
  · rintro (hrefused | hincomplete)
    · obtain ⟨message, hmessage⟩ := loop_rejected hrefused
      rw [hmessage]
      exact ⟨message, rfl⟩
    · exact rejected_of_incomplete hincomplete

theorem bad_rejected_iff_fuzzy : Rejected
    [text "symfind", text "-m", text "foo", text "malloc", text "--search-type", text "best"] := by
  have hpieces : tokens [text "-m", text "foo", text "malloc", text "--search-type",
      text "best"] = [.value .runningMethod (some (text "foo")), .symbol (text "malloc"),
        .value .searchType (some (text "best"))] := by decide
  refine (bad_rejected_iff (text "symfind") _ ?_).mpr (Or.inl ?_)
  · rw [hpieces]
    exact ⟨_, List.mem_cons_self, by rw [BadValue]; decide⟩
  · rw [hpieces]
    refine ⟨[.value .runningMethod (some (text "foo")), .symbol (text "malloc")], _, [], rfl, ?_⟩
    rw [Refused]
    decide

/-- A running method that is not recognised is taken for none, and one without a value is read
past the last argument. -/
theorem bad_accepted :
    (¬ ∀ program args, (∃ token ∈ tokens args, BadValue token) → Rejected (program :: args)) ∧
      parseArguments [text "symfind", text "malloc", text "-m"] {} =
        .error (.fault .nullPointer) := by
  refine ⟨fun hall => ?_, by decide⟩
  have hbad : ∃ token ∈ tokens [text "-m", text "foo", text "malloc"], BadValue token :=
    ⟨.value .runningMethod (some (text "foo")), by decide, by rw [BadValue]; decide⟩
  obtain ⟨message, hrejected⟩ := hall (text "symfind") _ hbad
  have haccepted : parseArguments [text "symfind", text "-m", text "foo", text "malloc"] {} =
      .ok ({ runningMethod := .readDb, searchType := .default, visibility := .onlyDefined,
             symbol := text "malloc" }, []) := by decide
  exact absurd (haccepted.symm.trans hrejected) nofun

end Bad
end CommandLines
