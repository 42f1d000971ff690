import ClassGauge.Proofs.Disk.Differing
import ClassGauge.Proofs.Effects
import ClassGauge.Proofs.SameSources

/-! # Patterns on the command line

Patterns on the command line stand in for those of the settings file. So two runs on disks that
differ in the settings file only, and in no other settings than patterns that are replaced, should
come to the same. They do if the patterns that are replaced can be compiled. But these are compiled
before they are replaced, so that one that is wrong ends the run.

* `DifferInSettings`: two disks that differ in patterns that are replaced;
* `SameOutcome`: two runs that come to the same;
* `sameOutcome_run`: when runs on such disks come to the same;
* `not_sameOutcome_run`: two that do not.
-/

namespace ClassGauge

open Disk

namespace Selection

variable {s s' : Settings} {selection : Selection}

/-- Patterns are the same, or all of them can be compiled. -/
def AlikeOrCompile (old new : List String) : Prop :=
  new = old ∨ Compiles old ∧ Compiles new

/-- Patterns that are the same or can be compiled are refused with the same text. -/
theorem AlikeOrCompile.refusal?_eq {old new : List String} (h : AlikeOrCompile old new) :
    refusal? new = refusal? old := by
  rcases h with rfl | ⟨hold, hnew⟩
  · rfl
  · rw [refusal?_eq_none_iff.mpr hold, refusal?_eq_none_iff.mpr hnew]

end Selection

namespace CommandLine

variable {d d' : Disk} {parse : Parser} {o : Options} {selection : Selection} {s s' : Settings}
  {place : Place} {arguments : List String}

/-- Two disks that differ in the settings file of a run and in nothing else. What is written there is
settings in both, and they differ in patterns at most that the command line replaces. -/
structure DifferInSettings (o : Options) (place : Place) (s s' : Settings) (d d' : Disk) : Prop where
  file : ∃ file, settingsFile? d o = some file ∧ d.resolve file = .ok place ∧
    d.readSettings file = .ok s ∧ d'.readSettings file = .ok s'
  disks : ∃ c c', DifferAt place c c' d d'
  included : s'.included = s.included ∨ o.included ≠ []
  excluded : s'.excluded = s.excluded ∨ o.excluded ≠ []
  skipMalformed : s'.skipMalformed = s.skipMalformed
  outputPath : s'.outputPath = s.outputPath

/-- Two runs, on disks that differ in one file, come to the same: they print the same and end alike,
and if they write anything, they write the same. -/
structure SameOutcome (place : Place) (d d' : Disk) (e e' : Effect) : Prop where
  status : e'.status = e.status
  stdout : e'.stdout = e.stdout
  stderr : e'.stderr = e.stderr
  elsewhere : ∀ p, p ≠ place → e'.disk.occupant p = e.disk.occupant p
  here : e.disk.occupant place = d.occupant place ∧ e'.disk.occupant place = d'.occupant place ∨
    e'.disk.occupant place = e.disk.occupant place

namespace DifferInSettings

variable (h : DifferInSettings o place s s' d d')

include h

theorem alike : Alike d d' := by
  obtain ⟨_, _, hdisks⟩ := h.disks
  exact hdisks.alike

theorem settingsOf_eq : settingsOf d o = .ok s ∧ settingsOf d' o = .ok s' := by
  obtain ⟨file, hfile, _, hs, hs'⟩ := h.file
  have hfile' : settingsFile? d' o = some file := by
    rw [← hfile, settingsFile?, settingsFile?, findSettingsFile?, findSettingsFile?,
      settingsStart?, settingsStart?, h.alike.isFile_eq]
    simp only [funext h.alike.pathExists_eq]
  exact ⟨(settingsOf_of_file hfile).trans hs, (settingsOf_of_file hfile').trans hs'⟩

theorem overridden_eq : overridden d' o s' = overridden d o s := by
  have hpatterns : ∀ {given old new : List String}, new = old ∨ given ≠ [] →
      (if given.isEmpty then new else given) = if given.isEmpty then old else given := by
    rintro given old new (rfl | hgiven)
    · rfl
    · simp [hgiven]
  rw [overridden, overridden, hpatterns h.included, hpatterns h.excluded, h.skipMalformed,
    h.outputPath, h.alike.keeps.workingDirectory]

/-- If both runs have compiled settings, they have the same. -/
theorem selectionOf_eq {selection' : Selection} (hselection : selectionOf d o = .ok selection)
    (hselection' : selectionOf d' o = .ok selection') : selection' = selection := by
  obtain ⟨hs, hs'⟩ := h.settingsOf_eq
  have hcompiled := ofSettings_overridden hs hselection
  have hcompiled' := ofSettings_overridden hs' hselection'
  rw [h.overridden_eq, hcompiled] at hcompiled'
  exact (Except.ok.inj hcompiled').symm

/-- If the settings file is none of the source files that are discovered, then these are the same. -/
theorem sameSources (hsource : IsSource place → place ∉ d.discovered selection o.project) :
    SameSources selection o.project d d' := by
  obtain ⟨c, c', hdisks⟩ := h.disks
  refine ⟨h.alike.keeps, h.alike.resolve_eq _, ?_, ?_⟩
  · intro p _
    by_cases hp : p = place
    · simp [hp, hdisks.here, hdisks.here']
    · rw [hdisks.elsewhere p hp]
  · -- What is discovered lies elsewhere, so it holds the same.
    intro p hmem hp
    apply hdisks.elsewhere
    rintro rfl
    exact hsource hp hmem

end DifferInSettings

/-- Runs that print the same and end alike come to the same if their disks differ as they did or are
the same. -/
theorem sameOutcome_of_differsAtMost {c c' : Content} {m m' : Disk} {status : Nat}
    {stdout stderr : String} (h : DifferAt place c c' d d') (hm : DiffersAtMost place c c' m m') :
    SameOutcome place d d' ⟨status, stdout, stderr, m⟩ ⟨status, stdout, stderr, m'⟩ := by
  obtain ⟨b, b', hdiffer, hfiles⟩ := hm
  refine ⟨rfl, rfl, rfl, hdiffer.elsewhere, ?_⟩
  rw [h.here, h.here', hdiffer.here, hdiffer.here']
  rcases hfiles with ⟨rfl, rfl⟩ | rfl
  · exact Or.inl ⟨rfl, rfl⟩
  · exact Or.inr rfl

/-- The same report is delivered alike on disks that differ in one file. -/
theorem sameOutcome_deliver {c c' : Content} (h : DifferAt place c c' d d') (o : Options)
    (selection : Selection) (log : String) (report : Report) :
    SameOutcome place d d' (deliver d o selection log report)
      (deliver d' o selection log report) := by
  have hroot : reportRoot d' o.project = reportRoot d o.project := by
    rw [reportRoot, reportRoot, h.alike.isFile_eq]
  simp only [deliver, hroot]
  split
  · exact sameOutcome_of_differsAtMost h h.differsAtMost
  · obtain ⟨hsame, hdiffer⟩ := h.writeReport (selection.outputFor (reportRoot d o.project))
      (Record.writeAll report.records)
    generalize writeReport d _ _ = r at hsame hdiffer
    generalize writeReport d' _ _ = r' at hsame hdiffer
    obtain ⟨m, fault?⟩ := r
    obtain ⟨m', fault?'⟩ := r'
    obtain rfl : fault?' = fault? := hsame
    cases fault?' <;> exact sameOutcome_of_differsAtMost h hdiffer

theorem stderr_deliver (d : Disk) (o : Options) (selection : Selection) (log : String)
    (report : Report) : ∃ rest, (deliver d o selection log report).stderr = log ++ rest := by
  simp only [deliver]
  split
  · exact ⟨_, rfl⟩
  · split
    · exact ⟨_, rfl⟩
    · exact ⟨_, by simp only [String.append_assoc]; rfl⟩

/-- A run with compiled settings prints first that it starts. -/
theorem stderr_runWith_of_ok (parse : Parser) (h : selectionOf d o = .ok selection) :
    ∃ rest, (runWith d parse o).stderr = startLine o ++ rest := by
  cases hreport : (d.analyzeProject parse o.project selection).report with
  | error error =>
    rw [runWith, h]
    simp only [hreport, String.append_assoc]
    exact ⟨_, rfl⟩
  | ok report =>
    obtain ⟨rest, hrest⟩ := stderr_deliver d o selection (logOf d parse o selection report) report
    rw [runWith_of_report h hreport, hrest, logOf]
    exact ⟨_, by simp only [String.append_assoc]; rfl⟩

theorem head?_startLine (o : Options) (rest : String) :
    (startLine o ++ rest).toList.head? = some 'A' := by
  unfold startLine
  simp [String.toList_append]

theorem head?_errorLine (error : RunError) : (errorLine error).toList.head? = some 'E' := by
  simp [errorLine, String.toList_append]

/-- What a run prints that is refused for its settings differs in the first letter. -/
theorem errorLine_ne_startLine (error : RunError) (o : Options) (rest : String) :
    errorLine error ≠ startLine o ++ rest := by
  intro heq
  have hfirst := head?_errorLine error
  rw [heq, head?_startLine] at hfirst
  cases hfirst

theorem errorLine_eq_iff {error error' : SettingsError} :
    errorLine (.settings error') = errorLine (.settings error) ↔ error'.message = error.message := by
  rw [errorLine, errorLine, String.append_left_inj, String.append_right_inj]
  rfl

/-- Two runs that are not refused come to the same. -/
theorem DifferInSettings.sameOutcome_runWith_of_ok {selection' : Selection}
    (h : DifferInSettings o place s s' d d') (parse : Parser) (hd : d.root.Proper)
    (hd' : d'.root.Proper) (hselection : selectionOf d o = .ok selection)
    (hselection' : selectionOf d' o = .ok selection')
    (hsource : IsSource place → place ∉ d.discovered selection o.project) :
    SameOutcome place d d' (runWith d parse o) (runWith d' parse o) := by
  obtain ⟨c, c', hdisks⟩ := h.disks
  obtain rfl := h.selectionOf_eq hselection hselection'
  have hanalysis := (h.sameSources hsource).analyzeProject_eq hd hd' parse
  rw [runWith, runWith, hselection, hselection']
  simp only [hanalysis]
  split
  · exact sameOutcome_of_differsAtMost hdisks hdisks.differsAtMost
  · exact sameOutcome_deliver hdisks o selection' _ _

/-- Runs with the same arguments come to the same exactly if they are refused with the same text or
not at all. -/
theorem DifferInSettings.sameOutcome_runWith_iff (h : DifferInSettings o place s s' d d')
    (parse : Parser) (hd : d.root.Proper) (hd' : d'.root.Proper)
    (hsource : IsSource place → ∀ selection, selectionOf d o = .ok selection →
      place ∉ d.discovered selection o.project) :
    SameOutcome place d d' (runWith d parse o) (runWith d' parse o) ↔
      Selection.reported? (selectionOf d' o) = Selection.reported? (selectionOf d o) := by
  obtain ⟨c, c', hdisks⟩ := h.disks
  -- A run that is refused prints another first letter than one that is not.
  cases hcompiled : selectionOf d o with
  | error error =>
    rw [runWith_of_error hcompiled]
    cases hcompiled' : selectionOf d' o with
    | error error' =>
      rw [runWith_of_error hcompiled']
      constructor
      · intro hsame
        exact congrArg some (errorLine_eq_iff.mp hsame.stderr)
      · intro htext
        rw [errorLine_eq_iff.mpr (Option.some.inj htext)]
        exact sameOutcome_of_differsAtMost hdisks hdisks.differsAtMost
    | ok selection' =>
      obtain ⟨rest, hrest⟩ := stderr_runWith_of_ok parse hcompiled'
      refine iff_of_false (fun hsame => ?_) nofun
      exact errorLine_ne_startLine _ _ _ (hsame.stderr.symm.trans hrest)
  | ok selection =>
    cases hcompiled' : selectionOf d' o with
    | error error' =>
      obtain ⟨rest, hrest⟩ := stderr_runWith_of_ok parse hcompiled
      rw [runWith_of_error hcompiled']
      refine iff_of_false (fun hsame => ?_) nofun
      exact errorLine_ne_startLine _ _ _ (hsame.stderr.trans hrest)
    | ok selection' =>
      refine iff_of_true ?_ rfl
      exact h.sameOutcome_runWith_of_ok parse hd hd' hcompiled hcompiled' fun hplace =>
        hsource hplace selection hcompiled

/-- Patterns on the command line stand in for those of the settings file: two runs with the same
arguments come to the same on two disks that differ in the settings file only, and there in patterns
only that the arguments replace, if patterns that differ can be compiled. In general, since the
patterns of the file are compiled before they are replaced, the runs come to the same exactly if they
are refused with the same text or not at all: that for the first pattern that is none, whether it is
used or not. A settings file with the name of a source file may be one of the files that are
analysed, and then the sources differ as well; it is required that it is none of them. -/
theorem sameOutcome_run (hd : d.root.Proper) (hd' : d'.root.Proper)
    (hparse : Options.parse arguments = .ok (.run o)) (h : DifferInSettings o place s s' d d')
    (hsource : IsSource place → ∀ selection, selectionOf d o = .ok selection →
      place ∉ d.discovered selection o.project) :
    (Selection.AlikeOrCompile s.included s'.included →
      Selection.AlikeOrCompile s.excluded s'.excluded →
      SameOutcome place d d' (run d parse arguments) (run d' parse arguments)) ∧
    (SameOutcome place d d' (run d parse arguments) (run d' parse arguments) ↔
      Selection.refusal? (s'.included ++ s'.excluded ++ o.included ++ o.excluded) =
        Selection.refusal? (s.included ++ s.excluded ++ o.included ++ o.excluded)) := by
  have hrun : ∀ d, run d parse arguments = runWith d parse o := by
    intro d
    rw [run, hparse]
  obtain ⟨hs, hs'⟩ := h.settingsOf_eq
  have hiff := h.sameOutcome_runWith_iff parse hd hd' hsource
  rw [reported?_selectionOf hs, reported?_selectionOf hs', ← hrun, ← hrun] at hiff
  refine ⟨fun hincluded hexcluded => hiff.mpr ?_, hiff⟩
  simp only [Selection.refusal?_append, hincluded.refusal?_eq, hexcluded.refusal?_eq]

/-- A disk with one file in the working directory. -/
def oneFile (name text : String) : Disk :=
  (⟨.directory [], []⟩ : Disk).put [name] (.file (.text text))

theorem proper_oneFile (name text : String) : (oneFile name text).root.Proper := by
  have hempty : (Entry.directory []).Proper := .directory List.nodup_nil (by simp)
  exact hempty.put (.file _) [name]

theorem differAt_oneFile (name text text' : String) :
    DifferAt [name] (.text text) (.text text') (oneFile name text) (oneFile name text') := by
  have hput : ∀ text, ∀ p, (oneFile name text).occupant p =
      if p = [name] then .file (.text text) else (Entry.directory []).occupantAt p := by
    intro text p
    have hroot : (⟨.directory [], []⟩ : Disk).occupant [] = .directory := rfl
    have hfree : (⟨.directory [], []⟩ : Disk).occupant ([] ++ [name]) ≠ .directory :=
      Occupant.noConfusion
    exact occupant_put hroot hfree (Entry.isLeaf_file (.text text)) p
  refine ⟨?_, ?_, ?_, rfl⟩
  · rw [hput, if_pos rfl]
  · rw [hput, if_pos rfl]
  · intro p hp
    rw [hput, hput, if_neg hp, if_neg hp]

/-- Settings that differ in patterns that the command line replaces make no difference. -/
theorem sameOutcome_run_oneFile :
    let arguments := ["--include", "**/*.ts", "--stdout"]
    let d := oneFile ".classmetrics.toml" "[analysis]\ninclude = [\"lib/*.ts\"]\n"
    let d' := oneFile ".classmetrics.toml" "[analysis]\ninclude = []\n"
    d.root.Proper ∧ d'.root.Proper ∧
    SameOutcome [".classmetrics.toml"] d d' (run d (fun _ _ => none) arguments)
      (run d' (fun _ _ => none) arguments) := by
  intro arguments d d'
  let o : Options := { Options.none with included := ["**/*.ts"], flags := [.stdout] }
  let s : Settings := { Settings.default with included := ["lib/*.ts"] }
  let s' : Settings := { Settings.default with included := [] }
  have hparse : Options.parse arguments = .ok (.run o) := rfl
  have hs : d.readSettings "./.classmetrics.toml" = .ok s := by decide +kernel
  have hs' : d'.readSettings "./.classmetrics.toml" = .ok s' := by decide +kernel
  have hfile : settingsFile? d o = some "./.classmetrics.toml" := by decide +kernel
  have hdiffer : DifferInSettings o [".classmetrics.toml"] s s' d d' :=
    ⟨⟨"./.classmetrics.toml", hfile, rfl, hs, hs'⟩, ⟨_, _, differAt_oneFile _ _ _⟩,
      Or.inr (List.cons_ne_nil _ _), Or.inl rfl, rfl, rfl⟩
  have hcompile : Selection.AlikeOrCompile s.included s'.included :=
    Or.inr ⟨Selection.exists_compilePatterns_iff.mp ⟨_, rfl⟩,
      Selection.exists_compilePatterns_iff.mp ⟨_, rfl⟩⟩
  have hsource : ¬ IsSource [".classmetrics.toml"] := by
    rw [IsSource]
    decide
  obtain ⟨hsame, _⟩ := sameOutcome_run (proper_oneFile _ _) (proper_oneFile _ _) hparse hdiffer
    fun h => absurd h hsource
  exact ⟨proper_oneFile _ _, proper_oneFile _ _, hsame hcompile (Or.inl rfl)⟩

/-- A wrong pattern ends a run though the command line replaces it. -/
theorem not_sameOutcome_run :
    let arguments := ["--include", "**/*.ts", "--stdout"]
    let d := oneFile ".classmetrics.toml" "[analysis]\ninclude = [\"src/[\"]\n"
    let d' := oneFile ".classmetrics.toml" "[analysis]\ninclude = []\n"
    (∃ o s s', Options.parse arguments = .ok (.run o) ∧ o.included ≠ [] ∧
      DifferInSettings o [".classmetrics.toml"] s s' d d') ∧
    (run d (fun _ _ => none) arguments).status = 1 ∧
    (run d' (fun _ _ => none) arguments).status = 0 := by
  intro arguments d d'
  let o : Options := { Options.none with included := ["**/*.ts"], flags := [.stdout] }
  have hfile : settingsFile? d o = some "./.classmetrics.toml" := by decide +kernel
  have hs : d.readSettings "./.classmetrics.toml" =
      .ok { Settings.default with included := ["src/["] } := by decide +kernel
  have hs' : d'.readSettings "./.classmetrics.toml" =
      .ok { Settings.default with included := [] } := by decide +kernel
  have hdiffer : DifferInSettings o [".classmetrics.toml"] _ _ d d' :=
    ⟨⟨_, hfile, rfl, hs, hs'⟩, ⟨_, _, differAt_oneFile _ _ _⟩, Or.inr (List.cons_ne_nil _ _),
      Or.inl rfl, rfl, rfl⟩
  exact ⟨⟨o, _, _, rfl, List.cons_ne_nil _ _, hdiffer⟩, by decide +kernel, by decide +kernel⟩

end CommandLine

end ClassGauge
