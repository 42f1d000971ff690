import ClassGauge.CommandLine.Run
import ClassGauge.Proofs.Runs

/-! # The settings of a run

What the command line says stands in for what the settings say. The settings are compiled as they
are, though, before anything is put in their place, so that a run needs each of their patterns to be
one, whether it uses it or not.

* `settingsOf`, `overridden`: the settings that are read for a run, and what the options make of
  them;
* `selectionOf_eq`: the compiled settings of a run, said with these;
* `reported?_selectionOf`, `exists_selectionOf_iff`: with which text a run is refused for its
  patterns, and when it has compiled settings.
-/

namespace ClassGauge

namespace Selection

/-! ## Patterns -/

def Compiles (patterns : List String) : Prop :=
  ∀ p ∈ patterns, ∃ tokens, Glob.compile p = .ok tokens

variable {ps qs : List String} {s : Settings} {selection : Selection}

theorem compiles_append : Compiles (ps ++ qs) ↔ Compiles ps ∧ Compiles qs :=
  List.forall_mem_append

/-- Patterns are compiled together if each of them can be. -/
theorem exists_compilePatterns_iff :
    (∃ tokens, compilePatterns ps = .ok tokens) ↔ Compiles ps := by
  induction ps with
  | nil => simp [compilePatterns, Compiles]
  | cons p ps ih =>
    rw [Compiles, List.forall_mem_cons, ← Compiles, ← ih, compilePatterns]
    cases Glob.compile p with
    | error e => simp
    | ok tokens => simp [map_eq_ok_iff]

/-- The text with which a result that failed is reported. -/
def reported? {α : Type} : Except SettingsError α → Option String
  | .error e => some e.message
  | .ok _ => none

/-- The text with which patterns are refused: that for the first of them that cannot be compiled. -/
def refusal? (patterns : List String) : Option String :=
  patterns.findSome? fun p => reported? ((Glob.compile p).mapError (.badPattern p))

theorem reported?_eq_none_iff {α : Type} {r : Except SettingsError α} :
    reported? r = none ↔ ∃ a, r = .ok a := by
  cases r <;> simp [reported?]

theorem reported?_map {α β : Type} (f : α → β) (r : Except SettingsError α) :
    reported? (r.map f) = reported? r := by
  cases r <;> rfl

theorem reported?_bind_const {α β : Type} (r : Except SettingsError α) (r' : Except SettingsError β) :
    reported? (r.bind fun _ => r') = (reported? r).or (reported? r') := by
  cases r <;> rfl

theorem refusal?_append : refusal? (ps ++ qs) = (refusal? ps).or (refusal? qs) :=
  List.findSome?_append

/-- Patterns that nothing stands in for are compiled again, with the same answer. -/
theorem refusal?_or_replaced (ps qs : List String) :
    (refusal? ps).or (refusal? (if qs.isEmpty then ps else qs)) =
      (refusal? ps).or (refusal? qs) := by
  cases qs with
  | nil => simp [refusal?]
  | cons q qs => rfl

theorem refusal?_eq_none_iff : refusal? ps = none ↔ Compiles ps := by
  have hpattern : ∀ p, reported? ((Glob.compile p).mapError (.badPattern p)) = none ↔
      ∃ tokens, Glob.compile p = .ok tokens := by
    intro p
    cases Glob.compile p <;> simp [reported?, Except.mapError]
  simp only [refusal?, List.findSome?_eq_none_iff, hpattern, Compiles]

theorem reported?_compilePatterns (ps : List String) :
    reported? (compilePatterns ps) = refusal? ps := by
  induction ps with
  | nil => rfl
  | cons p ps ih =>
    rw [refusal?, List.findSome?_cons, ← refusal?, ← ih, compilePatterns]
    cases Glob.compile p with
    | error e => rfl
    | ok tokens => exact reported?_map _ _

theorem reported?_ofSettings (s : Settings) :
    reported? (ofSettings s) = (refusal? s.included).or (refusal? s.excluded) := by
  rw [ofSettings, ← reported?_compilePatterns, ← reported?_compilePatterns]
  cases compilePatterns s.included with
  | error e => rfl
  | ok included => cases compilePatterns s.excluded <;> rfl

theorem ofSettings_eq_ok_iff : ofSettings s = .ok selection ↔
    ∃ included excluded, compilePatterns s.included = .ok included ∧
      compilePatterns s.excluded = .ok excluded ∧
      selection = ⟨included, excluded, s.skipMalformed, s.outputPath⟩ := by
  rw [ofSettings]
  cases compilePatterns s.included with
  | error e => simp [bind, Except.bind]
  | ok included =>
    cases compilePatterns s.excluded with
    | error e => simp [bind, Except.bind]
    | ok excluded => simp [bind, Except.bind, pure, Except.pure, eq_comm]

/-- Settings can be compiled if all their patterns can be. -/
theorem exists_ofSettings_iff :
    (∃ selection, ofSettings s = .ok selection) ↔ Compiles s.included ∧ Compiles s.excluded := by
  simp only [ofSettings_eq_ok_iff, ← exists_compilePatterns_iff]
  constructor
  · rintro ⟨_, included, excluded, hincluded, hexcluded, _⟩
    exact ⟨⟨included, hincluded⟩, excluded, hexcluded⟩
  · rintro ⟨⟨included, hincluded⟩, excluded, hexcluded⟩
    exact ⟨_, included, excluded, hincluded, hexcluded, rfl⟩

/-- Compiled patterns are kept, or others are compiled in their place. -/
theorem included_or_change (selection : Selection)
    (h : compilePatterns ps = .ok selection.included) (qs : List String) :
    (if qs.isEmpty then .ok selection else selection.change (.included qs)) =
      (compilePatterns (if qs.isEmpty then ps else qs)).map
        fun included => { selection with included } := by
  split
  · rw [h]
    rfl
  · rfl

theorem excluded_or_change (selection : Selection)
    (h : compilePatterns ps = .ok selection.excluded) (qs : List String) :
    (if qs.isEmpty then .ok selection else selection.change (.excluded qs)) =
      (compilePatterns (if qs.isEmpty then ps else qs)).map
        fun excluded => { selection with excluded } := by
  split
  · rw [h]
    rfl
  · rfl

end Selection

namespace CommandLine

variable {d : Disk} {o : Options} {s : Settings}

/-- The settings that are read for a run: those of the file that is named, or else those of the
project. -/
def settingsOf (d : Disk) (o : Options) : Except SettingsError Settings :=
  match o.config with
  | some path => d.readSettings path
  | none => d.projectSettings o.project

def settingsFile? (d : Disk) (o : Options) : Option String :=
  match o.config with
  | some path => some path
  | none => d.findSettingsFile? o.project

theorem settingsOf_of_file {file : String} (h : settingsFile? d o = some file) :
    settingsOf d o = d.readSettings file := by
  rw [settingsFile?] at h
  rw [settingsOf]
  cases hconfig : o.config with
  | some path =>
    rw [hconfig] at h
    cases h
    rfl
  | none =>
    rw [hconfig] at h
    replace h : d.findSettingsFile? o.project = some file := h
    simp only [Disk.projectSettings, h]

/-- Settings with the options of the command line in their place. -/
def overridden (d : Disk) (o : Options) (s : Settings) : Settings where
  included := if o.included.isEmpty then s.included else o.included
  excluded := if o.excluded.isEmpty then s.excluded else o.excluded
  skipMalformed := s.skipMalformed && !o.has .keepMalformed
  outputPath :=
    match o.output with
    | some path => Path.join d.workingDirectory.toPath path
    | none => s.outputPath

/-- The steps in which the options are put in their place, of which two can fail. -/
theorem selectionOf_eq_bind (d : Disk) (o : Options) : selectionOf d o =
    ((settingsOf d o).bind Selection.ofSettings).bind fun selection =>
      (if o.included.isEmpty then .ok selection
        else selection.change (.included o.included)).bind fun selection =>
      (if o.excluded.isEmpty then .ok selection
        else selection.change (.excluded o.excluded)).bind fun selection =>
      .ok { selection with
        skipMalformed := selection.skipMalformed && !o.has .keepMalformed
        outputPath :=
          match o.output with
          | some path => Path.join d.workingDirectory.toPath path
          | none => selection.outputPath } := by
  -- The steps are the same as written, but for the options that are not given.
  have hload : d.loadSelection o.project o.config = (settingsOf d o).bind Selection.ofSettings := by
    simp only [Disk.loadSelection, settingsOf]
    cases o.config <;> rfl
  rw [selectionOf, hload]
  congr 1
  funext selection
  cases o.included.isEmpty <;> cases o.excluded.isEmpty <;> cases o.has .keepMalformed <;>
    cases o.output <;> simp [Selection.change, bind, Except.bind]

/-- The compiled settings of a run are the settings with the options in their place, but the settings
have to compile without them first. -/
theorem selectionOf_eq (d : Disk) (o : Options) : selectionOf d o =
    (settingsOf d o).bind fun s =>
      (Selection.ofSettings s).bind fun _ => Selection.ofSettings (overridden d o s) := by
  rw [selectionOf_eq_bind]
  cases settingsOf d o with
  | error e => rfl
  | ok s =>
    show (Selection.ofSettings s).bind _ = (Selection.ofSettings s).bind _
    cases hs : Selection.ofSettings s with
    | error e => rfl
    | ok selection =>
      obtain ⟨included, excluded, hincluded, hexcluded, rfl⟩ := Selection.ofSettings_eq_ok_iff.mp hs
      -- From here on only the patterns of the command line can be wrong, and both sides compile
      -- them in the same order.
      let selection : Selection := ⟨included, excluded, s.skipMalformed, s.outputPath⟩
      show (if o.included.isEmpty then _ else _ : Except SettingsError Selection).bind _ = _
      rw [Selection.included_or_change selection hincluded]
      simp only [Except.bind, overridden, Selection.ofSettings, bind]
      cases Selection.compilePatterns (if o.included.isEmpty then s.included else o.included) with
      | error e => rfl
      | ok included =>
        simp only [Except.map]
        rw [Selection.excluded_or_change _ hexcluded]
        cases Selection.compilePatterns (if o.excluded.isEmpty then s.excluded else o.excluded) with
        | error e => rfl
        | ok excluded => rfl

variable {selection : Selection}

theorem selectionOf_of_settings (hs : settingsOf d o = .ok s) :
    selectionOf d o = (Selection.ofSettings s).bind fun _ =>
      Selection.ofSettings (overridden d o s) := by
  rw [selectionOf_eq, hs]
  rfl

/-- If a run has compiled settings, they are those that are read for it with the options in their
place. -/
theorem ofSettings_overridden (hs : settingsOf d o = .ok s) (h : selectionOf d o = .ok selection) :
    Selection.ofSettings (overridden d o s) = .ok selection := by
  rw [selectionOf_of_settings hs] at h
  cases hcompiled : Selection.ofSettings s with
  | error e =>
    rw [hcompiled] at h
    cases h
  | ok _ =>
    rw [hcompiled] at h
    exact h

/-- A run is refused with the text for the first pattern that cannot be compiled, those of the
settings in front of those of the command line. -/
theorem reported?_selectionOf (hs : settingsOf d o = .ok s) :
    Selection.reported? (selectionOf d o) =
      Selection.refusal? (s.included ++ s.excluded ++ o.included ++ o.excluded) := by
  have hincluded := Selection.refusal?_or_replaced s.included o.included
  have hexcluded := Selection.refusal?_or_replaced s.excluded o.excluded
  rw [selectionOf_of_settings hs, Selection.reported?_bind_const, Selection.reported?_ofSettings,
    Selection.reported?_ofSettings, Selection.refusal?_append, Selection.refusal?_append,
    Selection.refusal?_append, overridden]
  -- Only patterns that compile at first are compiled again.
  cases hfirst : Selection.refusal? s.included with
  | some text => rfl
  | none =>
    cases hsecond : Selection.refusal? s.excluded with
    | some text => rfl
    | none =>
      rw [hfirst, Option.none_or, Option.none_or] at hincluded
      rw [hsecond, Option.none_or, Option.none_or] at hexcluded
      simp only [Option.none_or, hincluded, hexcluded]

/-- A run has compiled settings exactly if all patterns are patterns, those of the settings and those
of the command line. -/
theorem exists_selectionOf_iff (hs : settingsOf d o = .ok s) :
    (∃ selection, selectionOf d o = .ok selection) ↔
      Selection.Compiles (s.included ++ s.excluded ++ o.included ++ o.excluded) := by
  rw [← Selection.reported?_eq_none_iff, reported?_selectionOf hs, Selection.refusal?_eq_none_iff]

end CommandLine

end ClassGauge
