import Mathlib.Data.List.Find
import ClassGauge.Proofs.Effects
import ClassGauge.Proofs.SameSources
import ClassGauge.Proofs.SettingsSearch

/-! # Running again

A run that writes its report leaves a disk on which the same run finds the same settings and the same
source files, provided that the report is none of these itself and no part of its path is called as a
settings file is. So the second run comes to the same report and writes it where it is.

* `projectSettings_congr`: the search for settings sees only what is called as a settings file is;
* `Disk.Written.sameSources`: a report that is no source file leaves the source files as they were;
* `run_again`: the second run does what the first one did and changes nothing.
-/

namespace ClassGauge

open ClassGauge.Path Syntax

namespace Disk

variable {d d' : Disk} {here place p q root : Place} {above name path project text : String}
  {ns ms : List String}

/-! ## The search for settings -/

/-- A name below a path leads to what lies under the name where the names of the path lead. -/
theorem resolve_join_eq_ok_iff (hname : FileName name)
    (habove : d.follow (d.start above) (names above) = .ok here) :
    d.resolve (join above name) = .ok q ↔ pathFault? (join above name) = none ∧
      q = here ++ [name] ∧ d.occupant (here ++ [name]) ≠ .nothing := by
  have hstart : d.start (join above name) = d.start above := by
    rw [start, start, isAbsolute_join above hname]
  have hfollow : d.follow (d.start above) (names above ++ [name]) = d.follow here [name] := by
    rw [follow_append, habove]
    rfl
  have hstep : d.follow here [name] = .ok q ↔ d.step here name = .ok q := by
    rw [follow]
    cases d.step here name <;> simp [follow]
  rw [resolve_eq_ok_iff, hstart, follow_segments_join _ _ _ hname, hfollow, hstep,
    step_eq_ok_iff hname, occupant, Ne, Entry.occupantAt_eq_nothing_iff,
    Option.isSome_iff_ne_none]

/-- Names that lead somewhere lead somewhere as far as one follows them. -/
theorem follow_of_prefix (h : ms <+: ns) (hns : d.follow here ns = .ok q) :
    ∃ middle, d.follow here ms = .ok middle := by
  obtain ⟨rest, rfl⟩ := h
  rw [follow_append] at hns
  cases hms : d.follow here ms with
  | error fault =>
    rw [hms] at hns
    cases hns
  | ok middle => exact ⟨middle, rfl⟩

/-- The names of every path in which the settings of a project are searched lead somewhere if the path
of the project does. -/
theorem follow_of_mem_ancestors {start : String} (hproject : d.resolve project = .ok root)
    (hstart : d.settingsStart? project = some start) (habove : above ∈ ancestors start) :
    ∃ here, d.follow (d.start above) (names above) = .ok here := by
  have hbeginning : Above project start ∧ names start <+: names project := by
    rw [settingsStart?] at hstart
    split at hstart
    · obtain ⟨habove, hnames⟩ := above_of_parent? hstart
      exact ⟨habove, hnames ▸ List.dropLast_prefix _⟩
    · cases hstart
      exact ⟨Above.refl _, List.prefix_rfl⟩
  obtain ⟨ns, hns, hstep, rfl⟩ := mem_of_forall₂ (forall₂_ancestors start) habove
  rw [start_of_above (hbeginning.1.trans hstep)]
  exact follow_of_prefix ((Place.mem_upward.mp hns).trans hbeginning.2) (follow_names_eq_ok hproject)

section Search

variable (hkeeps : Keeps d d') (hproject : d.resolve project = .ok root)
  (hsame : ∀ name ∈ settingsFileNames, ∀ p, p.getLast? = some name → d'.occupant p = d.occupant p)

include hkeeps hproject hsame

/-- A candidate for the settings file leads to the same place in both disks or in none. -/
theorem resolve_candidate_iff {start : String} (hstart : d.settingsStart? project = some start)
    (habove : above ∈ ancestors start) (hname : name ∈ settingsFileNames) :
    d'.resolve (join above name) = .ok q ↔ d.resolve (join above name) = .ok q := by
  obtain ⟨here, hhere⟩ := follow_of_mem_ancestors hproject hstart habove
  have hhere' : d'.follow (d'.start above) (names above) = .ok here := by
    rw [hkeeps.start_eq]
    exact hkeeps.follow hhere
  obtain ⟨hfile, _⟩ := fileName_of_mem_settingsFileNames hname
  rw [resolve_join_eq_ok_iff hfile hhere, resolve_join_eq_ok_iff hfile hhere',
    hsame name hname (here ++ [name]) (by simp)]

/-- If nothing changes that is called as a settings file is, the same settings file is found. -/
theorem findSettingsFile?_congr : d'.findSettingsFile? project = d.findSettingsFile? project := by
  have hstart : d'.settingsStart? project = d.settingsStart? project := by
    rw [settingsStart?, settingsStart?, hkeeps.isFile_eq hproject]
  rw [findSettingsFile?, findSettingsFile?, hstart]
  cases hsettings : d.settingsStart? project with
  | none => rfl
  | some start =>
    -- Each candidate is there in both or in none, so the search ends at the same one.
    have hcandidates : ∀ path ∈ (ancestors start).flatMap fun directory =>
        settingsFileNames.map (join directory), d'.pathExists path = d.pathExists path := by
      intro path hpath
      obtain ⟨above, habove, hpath⟩ := List.mem_flatMap.mp hpath
      obtain ⟨name, hname, rfl⟩ := List.mem_map.mp hpath
      rw [Bool.eq_iff_iff, pathExists_iff, pathExists_iff]
      exact exists_congr fun q =>
        resolve_candidate_iff hkeeps hproject hsame hsettings habove hname
    rw [Option.bind_some, Option.bind_some]
    exact List.find?_congr hcandidates

/-- The settings file of a project lies where it lay and holds what it held. -/
theorem readSettings_candidate {file : String} (hfile : d.findSettingsFile? project = some file) :
    d'.readSettings file = d.readSettings file := by
  rw [findSettingsFile?] at hfile
  obtain ⟨start, hstart, hfind⟩ := Option.bind_eq_some_iff.mp hfile
  obtain ⟨above, habove, hmem⟩ := List.mem_flatMap.mp (List.mem_of_find?_eq_some hfind)
  obtain ⟨name, hname, rfl⟩ := List.mem_map.mp hmem
  obtain ⟨q, hq⟩ := pathExists_iff.mp (List.find?_some hfind)
  have hq' := (resolve_candidate_iff hkeeps hproject hsame hstart habove hname).mpr hq
  obtain ⟨here, hhere⟩ := follow_of_mem_ancestors hproject hstart habove
  obtain ⟨hfilename, _⟩ := fileName_of_mem_settingsFileNames hname
  obtain ⟨_, rfl, _⟩ := (resolve_join_eq_ok_iff hfilename hhere).mp hq
  -- The candidate lies under one of the names, and there the disks hold the same.
  have hread : d'.readText (join above name) = d.readText (join above name) := by
    apply readText_congr (hq'.trans hq.symm)
    intro place hplace
    obtain rfl : here ++ [name] = place := Except.ok.inj (hq.symm.trans hplace)
    exact hsame name hname _ (by simp)
  rw [readSettings, readSettings, hread]

/-- If nothing changes that is called as a settings file is, the project has the same settings. -/
theorem projectSettings_congr : d'.projectSettings project = d.projectSettings project := by
  rw [projectSettings, projectSettings, findSettingsFile?_congr hkeeps hproject hsame]
  cases hfind : d.findSettingsFile? project with
  | none => rfl
  | some file => exact readSettings_candidate hkeeps hproject hsame hfind

end Search

/-! ## What a report leaves as it was -/

namespace Written

variable (h : Written path text place d d')

include h

/-- Other files are as they were. -/
theorem occupant_of_file {c : Content} (hp : d.occupant p = .file c) (hne : p ≠ place) :
    d'.occupant p = d.occupant p := by
  rcases h.others p hne with hsame | ⟨hnothing, _⟩
  · exact hsame
  · rw [hnothing] at hp
    cases hp

/-- What has a name that the path of the report has not is as it was. -/
theorem occupant_of_name (hname : name ∉ names path) (hp : p.getLast? = some name) :
    d'.occupant p = d.occupant p := by
  by_contra hchanged
  obtain ⟨last, hlast, hp'⟩ := h.named p hchanged
  obtain rfl : name = last := Option.some.inj (hp.symm.trans hp')
  exact hname hlast

/-- A report that is no source file leaves the source files of a project as they were. -/
theorem sameSources (hd : d.root.Proper) (selection : Selection)
    (hproject : d.resolve project = .ok root) (hsource : Dialect.ofPath? path = none) :
    SameSources selection project d d' := by
  -- The place of the report has the extension of its path, so no source file lies there.
  have hne : ∀ p, IsSource p → p ≠ place := by
    rintro p hp rfl
    rw [IsSource, Dialect.ofPath?, h.extension, ← Dialect.ofPath?, hsource] at hp
    cases hp
  refine ⟨h.keeps, (h.keeps.resolve hproject).trans hproject.symm, ?_, ?_⟩
  · intro p hp
    rcases h.others p (hne p hp) with hsame | ⟨hnothing, hdir, _⟩
    · rw [hsame]
    · simp [hnothing, hdir]
  · intro p hp hpsource
    obtain ⟨c, hc⟩ := exists_content?_of_mem_discovered hd hp
    exact h.occupant_of_file (content?_eq_some_iff.mp hc) (hne p hpsource)

/-- A file that is not the report is read as before. -/
theorem readText_eq {file source : String} (hfile : d.readText file = .ok source)
    (hne : d'.resolve file ≠ d'.resolve path) : d'.readText file = d.readText file := by
  have hread := hfile
  rw [readText] at hread
  split at hread
  · cases hread
  · next q hq =>
    have hq' := h.keeps.resolve hq
    apply readText_congr (hq'.trans hq.symm)
    intro p hp
    obtain rfl : q = p := Except.ok.inj (hq.symm.trans hp)
    split at hread
    · next source' hsource =>
      -- What was read is a file, and not the one that was written.
      have hoccupant : d.occupant q = .file (.text source') :=
        Entry.occupantAt_eq_file_iff.mpr hsource
      refine h.occupant_of_file hoccupant ?_
      rintro rfl
      exact hne (hq'.trans h.leads.symm)
    · cases hread
    · cases hread
    · cases hread

end Written

end Disk

namespace CommandLine

open Disk

variable {d : Disk} {parse : Parser} {o : Options} {selection : Selection} {arguments : List String}

/-- A run that succeeds has settings and a report. -/
theorem exists_report_of_status (h : (runWith d parse o).status = 0) :
    ∃ selection report, selectionOf d o = .ok selection ∧
      (d.analyzeProject parse o.project selection).report = .ok report := by
  cases hselection : selectionOf d o with
  | error error =>
    have hrefused : (runWith d parse o).Refused d := refused_runWith_of_settings hselection
    rw [hrefused.status] at h
    cases h
  | ok selection =>
    cases hreport : (d.analyzeProject parse o.project selection).report with
    | error error =>
      have hrefused := refused_runWith_of_report hselection hreport
      rw [hrefused.status] at h
      cases h
    | ok report => exact ⟨selection, report, rfl, hreport⟩

/-- A report that is delivered to a file has been written if the run succeeds. -/
theorem deliver_eq_of_status {log : String} {report : Report} (hfile : o.has .stdout = false)
    (h : (deliver d o selection log report).status = 0) :
    writeReport d (selection.outputFor (reportRoot d o.project)) (Record.writeAll report.records) =
      ((deliver d o selection log report).disk, none) := by
  simp only [deliver, hfile, if_neg Bool.false_ne_true] at h ⊢
  split at h
  · cases h
  · next hwrite =>
    simp only [hwrite]

/-- What a run delivers to a file is the same on a disk with the same project and the report. -/
theorem deliver_again {d' : Disk} {log : String} {report : Report} (hfile : o.has .stdout = false)
    (hroot : reportRoot d' o.project = reportRoot d o.project)
    (h : writeReport d (selection.outputFor (reportRoot d o.project))
      (Record.writeAll report.records) = (d', none))
    (h' : writeReport d' (selection.outputFor (reportRoot d o.project))
      (Record.writeAll report.records) = (d', none)) :
    deliver d' o selection log report = deliver d o selection log report := by
  simp only [deliver, hfile, if_neg Bool.false_ne_true, hroot, h, h']

/-- Settings that are read from a disk are read again after a report has been written that neither is
the file that is named nor has a name of a settings file. -/
theorem settingsOf_written {d' : Disk} {path text : String} {place root : Place} {s : Settings}
    (h : Written path text place d d') (hproject : d.resolve o.project = .ok root)
    (hsettings : settingsOf d o = .ok s) (hnames : ∀ name ∈ settingsFileNames, name ∉ names path)
    (hconfig : ∀ file, o.config = some file → d'.resolve file ≠ d'.resolve path) :
    settingsOf d' o = settingsOf d o := by
  rw [settingsOf] at hsettings
  rw [settingsOf, settingsOf]
  cases hfile : o.config with
  -- A settings file that is searched for has a name that the report cannot have.
  | none =>
    exact projectSettings_congr h.keeps hproject fun name hname _ hp =>
      h.occupant_of_name (hnames name hname) hp
  | some file =>
    rw [hfile] at hsettings
    show d'.readSettings file = d.readSettings file
    replace hsettings : d.readSettings file = .ok s := hsettings
    cases hread : d.readText file with
    -- A named file that could not be read would have ended the first run.
    | error fault =>
      rw [readSettings, hread] at hsettings
      cases hsettings
    | ok source => rw [readSettings, readSettings, h.readText_eq hread (hconfig file hfile)]

/-- Running again changes nothing. If a run succeeds in writing its report, if the report is not
called as a source file is, if no part of its path is called as a settings file is, and if it is not
the settings file that the command line names, then the same run on the disk as it is then succeeds
as well, prints the same and leaves the disk as it is. -/
theorem run_again (hd : d.root.Proper) (h : Options.parse arguments = .ok (.run o))
    (hfile : o.has .stdout = false) (hstatus : (run d parse arguments).status = 0) :
    ∃ selection report place, selectionOf d o = .ok selection ∧
      (d.analyzeProject parse o.project selection).report = .ok report ∧
      let e := run d parse arguments
      let path := selection.outputFor (reportRoot d o.project)
      Written path (Record.writeAll report.records) place d e.disk ∧
      (Dialect.ofPath? path = none → (∀ name ∈ settingsFileNames, name ∉ names path) →
        (∀ file, o.config = some file → e.disk.resolve file ≠ e.disk.resolve path) →
        run e.disk parse arguments = e) := by
  have hrun : ∀ d, run d parse arguments = runWith d parse o := by
    intro d
    rw [run, h]
  simp only [hrun] at hstatus ⊢
  obtain ⟨selection, report, hselection, hreport⟩ := exists_report_of_status hstatus
  have hdeliver := runWith_of_report hselection hreport
  rw [hdeliver] at hstatus ⊢
  have hwrite := deliver_eq_of_status hfile hstatus
  obtain ⟨place, hwritten, hagain⟩ := written_of_writeReport hwrite
  refine ⟨selection, report, place, hselection, hreport, hwritten, ?_⟩
  intro hsource hnames hconfig
  -- The second run has the settings, the analysis and the root of the first, and writes the same.
  obtain ⟨root, _, hproject, _⟩ := exists_root_of_report hreport
  obtain ⟨s, hs⟩ : ∃ s, settingsOf d o = .ok s := by
    rw [selectionOf_eq] at hselection
    cases hs : settingsOf d o with
    | error error =>
      rw [hs] at hselection
      cases hselection
    | ok s => exact ⟨s, rfl⟩
  generalize (deliver d o selection (logOf d parse o selection report) report).disk = after at *
  have hsettings := settingsOf_written hwritten hproject hs hnames hconfig
  have hselection' : selectionOf after o = .ok selection := by
    rw [← hselection, selectionOf_eq, selectionOf_eq, hsettings]
    simp only [overridden, hwritten.workingDirectory]
  have hanalysis : after.analyzeProject parse o.project selection =
      d.analyzeProject parse o.project selection :=
    (hwritten.sameSources hd selection hproject hsource).analyzeProject_eq hd (hwritten.proper hd)
      parse
  have hroot : reportRoot after o.project = reportRoot d o.project := by
    rw [reportRoot, reportRoot, hwritten.keeps.isFile_eq hproject]
  rw [runWith_of_report hselection' (hanalysis ▸ hreport), logOf, logOf, hanalysis]
  exact deliver_again hfile hroot hwrite hagain

/-- A report is written into a directory of the project, and written there again. -/
theorem run_again_emptyProject :
    let arguments := ["--output=src/out/report.json"]
    let e := run emptyProject (fun _ _ => none) arguments
    emptyProject.root.Proper ∧ e.status = 0 ∧
    e.disk.content? ["w", "src", "out", "report.json"] = some (.text "[]\n") ∧
    run e.disk (fun _ _ => none) arguments = e := by
  intro arguments e
  have hone : ∀ {name : String} {x : Entry}, x.Proper → (Entry.directory [(name, x)]).Proper := by
    intro name x hx
    exact .directory (List.nodup_singleton name) (by simpa using hx)
  -- The directories of the disk hold one entry at most.
  have hproper : emptyProject.root.Proper := hone (hone (.directory List.nodup_nil (by simp)))
  have hparse : Options.parse arguments =
      .ok (.run { Options.none with output := some "src/out/report.json" }) := rfl
  have hstatus : e.status = 0 := by decide +kernel
  obtain ⟨selection, report, place, hselection, hreport, hwritten, hagain⟩ :=
    run_again hproper hparse rfl hstatus
  obtain rfl : _ = selection := Except.ok.inj hselection
  have hcontent : e.disk.content? ["w", "src", "out", "report.json"] = some (.text "[]\n") := by
    decide +kernel
  exact ⟨hproper, hstatus, hcontent, hagain rfl (by decide) (by simp [Options.none])⟩

end CommandLine

end ClassGauge
