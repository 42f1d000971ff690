import ClassGauge.Proofs.Disk.Writing
import ClassGauge.Proofs.Project
import ClassGauge.Proofs.RunSettings

/-! # What a run does to the disk

A run changes the disk only in its last step. Whatever fails before leaves the disk as it was and
prints nothing; a run that prints its report leaves the disk as it was as well; and a run that writes
its report adds directories above it that were missing and changes nothing else.

* `Effect.Refused`: a run that ends before its last step;
* `runWith_of_error`, `runWith_of_report`: the ways through a run;
* `run_effects`: what each run prints and what it changes.
-/

namespace ClassGauge

namespace Path

/-- Whatever is joined to an absolute path gives one. -/
theorem isAbsolute_join_of_isAbsolute {root : String} (h : isAbsolute root = true) (path : String) :
    isAbsolute (join root path) = true := by
  have hne : root ≠ "" := by
    rintro rfl
    cases h
  rw [join]
  split
  · next hpath => exact hpath
  · split
    · rw [isAbsolute_append hne, h]
    · rw [String.append_assoc, isAbsolute_append hne, h]

end Path

open ClassGauge.Path Disk

namespace CommandLine

variable {d d' : Disk} {parse : Parser} {o : Options} {selection : Selection} {s : Settings}
  {report : Report} {log : String}

/-- A run that failed, printed nothing but its error and left the disk as it was. -/
structure Effect.Refused (e : Effect) (d : Disk) : Prop where
  status : e.status = 1
  stdout : e.stdout = ""
  disk : e.disk = d

/-- A report that was written, or could not be written. In the second case there may be new
directories all the same. -/
inductive Effect.Delivered (path text : String) (d : Disk) (e : Effect) : Prop where
  | written (place : Place) (status : e.status = 0) (disk : Written path text place d e.disk)
  | failed (status : e.status = 1) (disk : AddsDirectories (ancestors path).tail d e.disk)

theorem runWith_of_error {error : SettingsError} (h : selectionOf d o = .error error) :
    runWith d parse o = ⟨1, "", errorLine (.settings error), d⟩ := by
  rw [runWith, h]

theorem refused_runWith_of_settings {error : SettingsError} (h : selectionOf d o = .error error) :
    (runWith d parse o).Refused d := by
  rw [runWith_of_error h]
  exact ⟨rfl, rfl, rfl⟩

theorem refused_runWith_of_report {error : ProjectError} (h : selectionOf d o = .ok selection)
    (hreport : (d.analyzeProject parse o.project selection).report = .error error) :
    (runWith d parse o).Refused d := by
  rw [runWith, h]
  simp only [hreport]
  exact ⟨rfl, rfl, rfl⟩

/-- What a run prints on standard error before it delivers its report. -/
def logOf (d : Disk) (parse : Parser) (o : Options) (selection : Selection) (report : Report) :
    String :=
  startLine o ++ String.join ((d.analyzeProject parse o.project selection).warnings.map logLine) ++
    completionLine report

theorem runWith_of_report (h : selectionOf d o = .ok selection)
    (hreport : (d.analyzeProject parse o.project selection).report = .ok report) :
    runWith d parse o = deliver d o selection (logOf d parse o selection report) report := by
  rw [runWith, h]
  simp only [hreport]
  rfl

/-- A report that cannot be written leaves new directories behind and nothing else. -/
theorem addsDirectories_of_writeReport {path text : String} {fault : DiskFault}
    (h : writeReport d path text = (d', some fault)) :
    AddsDirectories (ancestors path).tail d d' := by
  rcases hmade : d.makeAbove path with ⟨middle, _ | fault'⟩
  · rw [writeReport_of_makeAbove hmade] at h
    cases hwrite : middle.writeText path text with
    | error fault' =>
      rw [hwrite] at h
      cases h
      exact addsDirectories_makeAbove hmade
    | ok written =>
      rw [hwrite] at h
      cases h
  · rw [writeReport_of_fault hmade] at h
    cases h
    exact addsDirectories_makeAbove hmade

/-- Delivering a report to a file prints nothing and changes nothing else. -/
theorem delivered_deliver (hfile : o.has .stdout = false) :
    (deliver d o selection log report).stdout = "" ∧
      (deliver d o selection log report).Delivered (selection.outputFor (reportRoot d o.project))
        (Record.writeAll report.records) d := by
  simp only [deliver, hfile, if_neg Bool.false_ne_true]
  split
  · next hwrite => exact ⟨rfl, .failed rfl (addsDirectories_of_writeReport hwrite)⟩
  · next hwrite =>
    obtain ⟨place, hplace, _⟩ := written_of_writeReport hwrite
    exact ⟨rfl, .written place rfl hplace⟩

/-- A path for the report on the command line is relative to the working directory. -/
theorem outputFor_of_output {output : String} (h : o.output = some output)
    (hselection : Selection.ofSettings (overridden d o s) = .ok selection) (root : String) :
    selection.outputFor root = join d.workingDirectory.toPath output := by
  obtain ⟨_, _, _, _, rfl⟩ := Selection.ofSettings_eq_ok_iff.mp hselection
  have habsolute : isAbsolute (join d.workingDirectory.toPath output) = true :=
    isAbsolute_join_of_isAbsolute (isAbsolute_toPath _) output
  simp only [Selection.outputFor, overridden, h]
  rw [join, if_pos habsolute]

/-- What a run prints and what it changes. If its settings cannot be read, if a pattern is none or if
the analysis fails, it is refused. If all goes well and the report is to be printed, it is printed
and nothing changes. Otherwise nothing is printed, and the report is the only file that is new or
changed; besides, there may be new directories, to which paths above that of the report lead. The
path of the report is relative to the project, or to the directory of a project that is a single
file; if it is given on the command line, it is relative to the working directory. -/
theorem run_effects (d : Disk) (parse : Parser) {arguments : List String}
    (h : Options.parse arguments = .ok (.run o)) :
    (∀ error, settingsOf d o = .error error → (run d parse arguments).Refused d) ∧
    ∀ s, settingsOf d o = .ok s →
      (¬ Selection.Compiles (s.included ++ s.excluded ++ o.included ++ o.excluded) →
        (run d parse arguments).Refused d) ∧
      (Selection.Compiles (s.included ++ s.excluded ++ o.included ++ o.excluded) →
        ∃ selection, Selection.ofSettings (overridden d o s) = .ok selection ∧
        (∀ error, (d.analyzeProject parse o.project selection).report = .error error →
          (run d parse arguments).Refused d) ∧
        ∀ report, (d.analyzeProject parse o.project selection).report = .ok report →
          let e := run d parse arguments
          let text := Record.writeAll report.records
          let path := selection.outputFor (reportRoot d o.project)
          (o.has .stdout = true → e.status = 0 ∧ e.stdout = text ∧ e.disk = d) ∧
          (o.has .stdout = false → e.stdout = "" ∧ e.Delivered path text d) ∧
          ∀ output, o.output = some output → path = join d.workingDirectory.toPath output) := by
  have hrun : run d parse arguments = runWith d parse o := by
    rw [run, h]
  rw [hrun]
  constructor
  · intro error hsettings
    have hselection : selectionOf d o = .error error := by
      rw [selectionOf_eq, hsettings]
      rfl
    exact refused_runWith_of_settings hselection
  · intro s hsettings
    rw [← exists_selectionOf_iff hsettings]
    constructor
    · -- A pattern that is none leaves the run without compiled settings.
      intro hnone
      cases hselection : selectionOf d o with
      | error error => exact refused_runWith_of_settings hselection
      | ok selection => exact absurd ⟨selection, hselection⟩ hnone
    · rintro ⟨selection, hselection⟩
      -- The compiled settings do not depend on the way in which the options were put in their
      -- place.
      have hcompiled := ofSettings_overridden hsettings hselection
      refine ⟨selection, hcompiled, fun error => refused_runWith_of_report hselection, ?_⟩
      intro report hreport
      simp only [runWith_of_report hselection hreport]
      refine ⟨?_, delivered_deliver, fun output houtput => outputFor_of_output houtput hcompiled _⟩
      intro hstdout
      simp [deliver, hstdout]

/-- A working directory in which there is a source directory without files. -/
def emptyProject : Disk :=
  ⟨.directory [("w", .directory [("src", .directory [])])], ["w"]⟩

/-- A report on no files is written below a directory that was missing. -/
theorem run_effects_emptyProject :
    let arguments := ["-o", "out/report.json"]
    let e := run emptyProject (fun _ _ => none) arguments
    Options.parse arguments = .ok (.run { Options.none with output := some "out/report.json" }) ∧
    e.status = 0 ∧ e.stdout = "" ∧
    Written "/w/out/report.json" "[]\n" ["w", "out", "report.json"] emptyProject e.disk := by
  intro arguments e
  have hparse : Options.parse arguments =
      .ok (.run { Options.none with output := some "out/report.json" }) := rfl
  obtain ⟨_, heffects⟩ := run_effects emptyProject (fun _ _ => none) hparse
  obtain ⟨_, hcompiles⟩ := heffects Settings.default rfl
  have hpatterns : Selection.Compiles Settings.default.included :=
    Selection.exists_compilePatterns_iff.mp ⟨_, rfl⟩
  obtain ⟨selection, hselection, _, hreports⟩ := hcompiles
    (by simpa [Settings.default, Options.none] using hpatterns)
  obtain rfl : _ = selection := Except.ok.inj hselection
  -- No file is discovered, whichever patterns there are.
  have hreport : ∀ selection, (emptyProject.analyzeProject (fun _ _ => none) "." selection).report =
      .ok ⟨[], 0, []⟩ := by
    intro selection
    have hplaces : (Entry.directory [("src", .directory [])]).filePlaces isIgnoredDirectory = [] := by
      decide +kernel
    show (reportOn selection.skipMalformed ((discover selection ["w"] _).filterMap _)).report = _
    rw [discover, hplaces]
    rfl
  obtain ⟨_, hwritten, _⟩ := hreports ⟨[], 0, []⟩ (hreport _)
  obtain ⟨hstdout, hdelivered⟩ := hwritten rfl
  have hstatus : e.status = 0 := by decide +kernel
  -- The status tells that the report was written, and its path where.
  cases hdelivered with
  | written place _ hplace =>
    have hleads : e.disk.resolve "/w/out/report.json" = .ok ["w", "out", "report.json"] := by
      decide +kernel
    obtain rfl : place = ["w", "out", "report.json"] :=
      Except.ok.inj (hplace.leads.symm.trans hleads)
    exact ⟨hparse, hstatus, hstdout, hplace⟩
  | failed hfailed =>
    rw [hstatus] at hfailed
    cases hfailed

end CommandLine

end ClassGauge
