import ClassGauge.Proofs.RunSettings

/-! # Changes to compiled settings

A change sets one of the four parts of compiled settings. A change of patterns fails if one of its
patterns is none, and then it leaves everything as it was. So after any run of changes each part is
what the last change of that part that could be made has set, whatever happened to the others.

* `foldl_eq_last_write`: the value that is written last is the one that is read after a run;
* `compilePatterns_of_compiles`, `compilePatterns_eq_error_iff`: what patterns are compiled to, and the
  error of the first that is none;
* `changeOrKeep_eq`, `changeAll_eq`: what one change and what a run of changes makes of each part;
* `changeAll_last`: which paths are selected after a run, and the other parts.
-/

namespace ClassGauge

/-- What is read after a run of steps, each of which writes a value or leaves it, is the value that was
written last. -/
theorem foldl_eq_last_write {σ α γ : Type} (step : σ → γ → σ) (read : σ → α)
    (write? : γ → Option α) (hstep : ∀ s c, read (step s c) = (write? c).getD (read s))
    (cs : List γ) (s : σ) :
    read (cs.foldl step s) = (cs.filterMap write?).getLast?.getD (read s) := by
  induction cs generalizing s with
  | nil => rfl
  | cons c cs ih =>
    rw [List.foldl_cons, ih, hstep, List.filterMap_cons]
    cases write? c with
    | none => rfl
    | some a => simp [List.getLast?_cons]

namespace Selection

variable {ps : List String} {path : String} {s : Selection} {c : Change}
  {before after : List Change} {e : SettingsError}

/-! ## Patterns one by one -/

theorem compilePatterns_eq_mapM (ps : List String) :
    compilePatterns ps = ps.mapM fun p => (Glob.compile p).mapError (.badPattern p) := by
  induction ps with
  | nil => rfl
  | cons p ps ih =>
    rw [compilePatterns, List.mapM_cons, ← ih]
    cases Glob.compile p with
    | error fault => rfl
    | ok tokens => cases compilePatterns ps <;> rfl

/-- Patterns fail to compile with the error of the first that is none. -/
theorem compilePatterns_eq_error_iff : compilePatterns ps = .error e ↔
    ∃ before p after fault, ps = before ++ p :: after ∧ Compiles before ∧
      Glob.compile p = .error fault ∧ e = .badPattern p fault := by
  simp only [compilePatterns_eq_mapM, mapM_eq_error_iff, mapError_eq_ok_iff, mapError_eq_error_iff,
    Compiles, exists_and_left]

theorem not_compiles_iff :
    ¬ Compiles ps ↔ ∃ p ∈ ps, ∃ fault, Glob.compile p = .error fault := by
  simp only [Compiles, not_forall, exists_prop]
  refine exists_congr fun p => and_congr_right fun _ => ?_
  cases Glob.compile p <;> simp

instance (ps : List String) : Decidable (Compiles ps) :=
  decidable_of_iff (∀ p ∈ ps, (Glob.compile p).isOk = true) <| by
    refine forall₂_congr fun p _ => ?_
    cases Glob.compile p <;> simp [Except.isOk, Except.toBool]

/-- The tokens of those of some texts that are patterns. -/
def compiled (ps : List String) : List (List Glob.Token) :=
  ps.filterMap fun p => (Glob.compile p).toOption

theorem compilePatterns_of_compiles (h : Compiles ps) : compilePatterns ps = .ok (compiled ps) := by
  induction ps with
  | nil => rfl
  | cons p ps ih =>
    rcases List.forall_mem_cons.mp h with ⟨⟨tokens, htokens⟩, hps⟩
    rw [compilePatterns, htokens, ih hps]
    simp [Except.map, compiled, htokens, Except.toOption]

theorem exists_map_compilePatterns_error_iff {α : Type} {f : List (List Glob.Token) → α} :
    (∃ e, (compilePatterns ps).map f = .error e) ↔ ∃ p ∈ ps, ∃ fault, Glob.compile p = .error fault := by
  rw [← not_compiles_iff, ← exists_compilePatterns_iff]
  cases compilePatterns ps <;> simp [Except.map]

/-! ## What patterns match -/

/-- Whether one of some compiled patterns matches a path. -/
def MatchesTokens (ts : List (List Glob.Token)) (path : String) : Prop :=
  ∃ tokens ∈ ts, Glob.isMatch tokens path = true

/-- Whether one of some patterns matches a path. -/
def MatchesPatterns (ps : List String) (path : String) : Prop :=
  ∃ p ∈ ps, ∃ tokens, Glob.compile p = .ok tokens ∧ Glob.isMatch tokens path = true

theorem matchesTokens_compiled : MatchesTokens (compiled ps) path ↔ MatchesPatterns ps path := by
  have htoken {p : String} {tokens : List Glob.Token} :
      (Glob.compile p).toOption = some tokens ↔ Glob.compile p = .ok tokens := by
    cases Glob.compile p <;> simp [Except.toOption]
  simp only [MatchesTokens, MatchesPatterns, compiled, List.mem_filterMap, htoken]
  constructor
  · rintro ⟨tokens, ⟨p, hp, hcompile⟩, hmatch⟩
    exact ⟨p, hp, tokens, hcompile, hmatch⟩
  · rintro ⟨p, hp, tokens, hcompile, hmatch⟩
    exact ⟨tokens, ⟨p, hp, hcompile⟩, hmatch⟩

theorem selects_iff :
    s.selects path = true ↔ MatchesTokens s.included path ∧ ¬ MatchesTokens s.excluded path := by
  simp [selects, MatchesTokens]

/-! ## Single changes -/

namespace Change

/-- The patterns of the files to analyse that a change sets: none if it sets another part, or if it
cannot be made. -/
def included? : Change → Option (List String)
  | .included ps => if Compiles ps then some ps else none
  | _ => none

def excluded? : Change → Option (List String)
  | .excluded ps => if Compiles ps then some ps else none
  | _ => none

def skipMalformed? : Change → Option Bool
  | .skipMalformed skip => some skip
  | _ => none

def outputPath? : Change → Option String
  | .outputPath path => some path
  | _ => none

end Change

/-- The error with which a change fails, whatever it is made to: that of the first of its patterns that
is none. -/
theorem change_eq_error_iff : s.change c = .error e ↔
    ∃ before p after fault, (c = .included (before ++ p :: after) ∨ c = .excluded (before ++ p :: after)) ∧
      Compiles before ∧ Glob.compile p = .error fault ∧ e = .badPattern p fault := by
  cases c with
  | included ps =>
    simp only [change, map_eq_error_iff, compilePatterns_eq_error_iff, Change.included.injEq,
      reduceCtorEq, or_false]
  | excluded ps =>
    simp only [change, map_eq_error_iff, compilePatterns_eq_error_iff, Change.excluded.injEq,
      reduceCtorEq, false_or]
  | skipMalformed skip => simp [change]
  | outputPath path => simp [change]

/-- A change fails if it sets patterns of which one is none. -/
theorem exists_change_error_iff : (∃ e, s.change c = .error e) ↔
    ∃ ps, (c = .included ps ∨ c = .excluded ps) ∧ ∃ p ∈ ps, ∃ fault, Glob.compile p = .error fault := by
  cases c with
  | included ps => simpa [change] using exists_map_compilePatterns_error_iff
  | excluded ps => simpa [change] using exists_map_compilePatterns_error_iff
  | skipMalformed skip => simp [change]
  | outputPath path => simp [change]

theorem changeOrKeep_of_error (h : s.change c = .error e) : s.changeOrKeep c = s := by
  rw [changeOrKeep, h]

/-- A change of patterns is made if all of them are patterns. -/
theorem changeOrKeep_of_patterns {f : List (List Glob.Token) → Selection}
    (h : s.change c = (compilePatterns ps).map f) :
    s.changeOrKeep c = if Compiles ps then f (compiled ps) else s := by
  by_cases hps : Compiles ps
  · rw [changeOrKeep, h, compilePatterns_of_compiles hps, if_pos hps]
    rfl
  · obtain ⟨e, he⟩ := (exists_map_compilePatterns_error_iff (f := f)).mpr (not_compiles_iff.mp hps)
    rw [changeOrKeep_of_error (h.trans he), if_neg hps]

/-- What a change makes of settings: each part is what the change sets, or what it was. -/
theorem changeOrKeep_eq (s : Selection) (c : Change) : s.changeOrKeep c =
    { included := (c.included?.map compiled).getD s.included
      excluded := (c.excluded?.map compiled).getD s.excluded
      skipMalformed := c.skipMalformed?.getD s.skipMalformed
      outputPath := c.outputPath?.getD s.outputPath } := by
  cases c with
  | included ps =>
    have hchange : s.change (.included ps) =
        (compilePatterns ps).map fun ts => { s with included := ts } := rfl
    rw [changeOrKeep_of_patterns hchange, Change.included?]
    split <;> rfl
  | excluded ps =>
    have hchange : s.change (.excluded ps) =
        (compilePatterns ps).map fun ts => { s with excluded := ts } := rfl
    rw [changeOrKeep_of_patterns hchange, Change.excluded?]
    split <;> rfl
  | skipMalformed skip => rfl
  | outputPath path => rfl

/-! ## Runs of changes -/

/-- The settings after some changes, one after the other. -/
def changeAll (s : Selection) (cs : List Change) : Selection :=
  cs.foldl changeOrKeep s

/-- What a run of changes makes of settings: each part is what it was set to last, or what it was in
the beginning. -/
theorem changeAll_eq (s : Selection) (cs : List Change) : s.changeAll cs =
    { included := ((cs.filterMap Change.included?).getLast?.map compiled).getD s.included
      excluded := ((cs.filterMap Change.excluded?).getLast?.map compiled).getD s.excluded
      skipMalformed := (cs.filterMap Change.skipMalformed?).getLast?.getD s.skipMalformed
      outputPath := (cs.filterMap Change.outputPath?).getLast?.getD s.outputPath } := by
  have hincluded := foldl_eq_last_write changeOrKeep included (fun c => c.included?.map compiled)
    (fun s c => by rw [changeOrKeep_eq s c]) cs s
  have hexcluded := foldl_eq_last_write changeOrKeep excluded (fun c => c.excluded?.map compiled)
    (fun s c => by rw [changeOrKeep_eq s c]) cs s
  have hskip := foldl_eq_last_write changeOrKeep skipMalformed Change.skipMalformed?
    (fun s c => by rw [changeOrKeep_eq s c]) cs s
  have hpath := foldl_eq_last_write changeOrKeep outputPath Change.outputPath?
    (fun s c => by rw [changeOrKeep_eq s c]) cs s
  rw [← List.map_filterMap, List.getLast?_map] at hincluded hexcluded
  rw [← hincluded, ← hexcluded, ← hskip, ← hpath, changeAll]

/-- Whether a path matches one of the patterns that were set last, or if none were set one of those
there were in the beginning. -/
def MatchesLast (initial : List (List Glob.Token)) (last? : Option (List String)) (path : String) :
    Prop :=
  match last? with
  | some ps => MatchesPatterns ps path
  | none => MatchesTokens initial path

theorem matchesTokens_getD {initial : List (List Glob.Token)} {last? : Option (List String)} :
    MatchesTokens ((last?.map compiled).getD initial) path ↔ MatchesLast initial last? path := by
  cases last? with
  | none => exact Iff.rfl
  | some ps => exact matchesTokens_compiled

/-- A change that cannot be made leaves no trace in a run. -/
theorem changeAll_of_error (h : (s.changeAll before).change c = .error e) :
    s.changeAll (before ++ c :: after) = s.changeAll (before ++ after) := by
  rw [changeAll, changeAll, List.foldl_append, List.foldl_append, List.foldl_cons]
  exact congrArg (after.foldl changeOrKeep) (changeOrKeep_of_error h)

/-- Settings and what changes make of them. A change that fails leaves the settings as they are, and
the rest of a run goes on as if it had not been there. A change fails exactly if it sets patterns of
which one is none, and the error tells the first of these. After any run of changes a path is selected
if it matches one of the patterns that the last change that could be made has set for the files to
analyse, or of those there were if there was no such change, and none of those for the files to leave
out, which are found in the same way. Whether malformed files are left out, and where the report goes,
is decided by the last change of that part alone. -/
theorem changeAll_last (s : Selection) (cs : List Change) :
    (∀ t c e, Selection.change t c = .error e → t.changeOrKeep c = t) ∧
    (∀ before c after e, (s.changeAll before).change c = .error e →
      s.changeAll (before ++ c :: after) = s.changeAll (before ++ after)) ∧
    (∀ t c, (∃ e, Selection.change t c = .error e) ↔
      ∃ ps, (c = .included ps ∨ c = .excluded ps) ∧
        ∃ p ∈ ps, ∃ fault, Glob.compile p = .error fault) ∧
    (∀ t c e, Selection.change t c = .error e ↔ ∃ before p after fault,
      (c = .included (before ++ p :: after) ∨ c = .excluded (before ++ p :: after)) ∧
        (∀ q ∈ before, ∃ tokens, Glob.compile q = .ok tokens) ∧ Glob.compile p = .error fault ∧
        e = .badPattern p fault ∧ e.message = "Invalid glob pattern: " ++ p ++ ": " ++ fault.message) ∧
    (∀ path, (s.changeAll cs).selects path = true ↔
      MatchesLast s.included (cs.filterMap Change.included?).getLast? path ∧
        ¬ MatchesLast s.excluded (cs.filterMap Change.excluded?).getLast? path) ∧
    (s.changeAll cs).skipMalformed =
      (cs.filterMap Change.skipMalformed?).getLast?.getD s.skipMalformed ∧
    ∀ root, (s.changeAll cs).outputFor root =
      Path.join root ((cs.filterMap Change.outputPath?).getLast?.getD s.outputPath) := by
  refine ⟨fun _ _ _ => changeOrKeep_of_error, fun _ _ _ _ => changeAll_of_error,
    fun _ _ => exists_change_error_iff, ?_, ?_, ?_, ?_⟩
  · -- The last equation is the text of that error and follows from the others.
    intro t c e
    rw [change_eq_error_iff]
    constructor
    · rintro ⟨before, p, after, fault, hc, hbefore, hp, rfl⟩
      exact ⟨before, p, after, fault, hc, hbefore, hp, rfl, rfl⟩
    · rintro ⟨before, p, after, fault, hc, hbefore, hp, rfl, _⟩
      exact ⟨before, p, after, fault, hc, hbefore, hp, rfl⟩
  · -- Whatever is set last holds, and without a change what there was in the beginning.
    intro path
    rw [selects_iff, changeAll_eq]
    exact and_congr matchesTokens_getD (not_congr matchesTokens_getD)
  · rw [changeAll_eq]
  · intro root
    rw [outputFor, changeAll_eq]

/-- Changes to the default settings, of which the second cannot be made. -/
def mixedChanges : List Change :=
  [.included ["**/*.ts"], .included ["lib/*.ts", "src/["], .skipMalformed false, .excluded ["test/**"],
    .outputPath "a.json", .skipMalformed true, .outputPath "b.json"]

/-- The second change fails with its second pattern and leaves no trace: the patterns of the first and
of the fourth are in force in the end. -/
theorem changeAll_last_mixedChanges :
    (default.changeAll [.included ["**/*.ts"]]).change (.included ["lib/*.ts", "src/["]) =
      .error (.badPattern "src/[" ⟨4, .invalidRange⟩) ∧
    default.changeAll mixedChanges = default.changeAll (mixedChanges.eraseIdx 1) ∧
    ((default.changeAll mixedChanges).selects "lib/a.ts" = true ↔
      MatchesPatterns ["**/*.ts"] "lib/a.ts" ∧ ¬ MatchesPatterns ["test/**"] "lib/a.ts") ∧
    (default.changeAll mixedChanges).selects "lib/a.ts" = true ∧
    (default.changeAll mixedChanges).selects "test/a.ts" = false ∧
    (default.changeAll mixedChanges).skipMalformed = true ∧
    (default.changeAll mixedChanges).outputFor "/p" = "/p/b.json" := by
  rcases changeAll_last default mixedChanges with ⟨_, htrace, _, _, hselects, hskip, hpath⟩
  have hfails : (default.changeAll [.included ["**/*.ts"]]).change (.included ["lib/*.ts", "src/["]) =
      .error (.badPattern "src/[" ⟨4, .invalidRange⟩) := by decide
  refine ⟨hfails, htrace [_] _ _ _ hfails, hselects "lib/a.ts", by decide, by decide, hskip, ?_⟩
  rw [hpath]
  decide

end Selection

end ClassGauge
