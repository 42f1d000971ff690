import ClassGauge.Project.Basic
import ClassGauge.Proofs.Discovery
import ClassGauge.Proofs.FewerFiles

/-! # What becomes of the files of a project

Every file that is discovered is either analysed or skipped, and the tree of a file, if it has one,
decides which. Whether malformed files are skipped or not makes no difference to the others: the
records of their classes are there in either case and in the same order.

* `Disk.discovered`, `Disk.sourceAt?`: the files of a project, and what can be read at a place;
* `Disk.isAnalysed`, `Disk.analysedFiles`, `Disk.skippedAt`: the two ways in which a file can go;
* `report_analyzeProject`: the report of a run, said with these;
* `analyzeProject_files`: one run, and two runs that differ in whether malformed files are skipped.
-/

namespace ClassGauge

open Syntax

namespace Disk

/-! ## The files of a project -/

/-- The places of the files that are discovered in the project to which a path leads. -/
def discovered (d : Disk) (selection : Selection) (path : String) : List Place :=
  match d.resolve path with
  | .error _ => []
  | .ok root =>
    match d.root.at? root with
    | none => []
    | some e => discover selection root e

/-- The source file at a place: there has to be a text there, and the parser has to give a tree. -/
def sourceAt? (d : Disk) (parse : Parser) (place : Place) : Option SourceFile :=
  match d.content? place with
  | some (.text source) =>
    (parse ((Dialect.ofPath? place.toPath).getD .typeScript) source).map fun (root, malformed) =>
      { path := place.toPath, source, malformed, root }
  | _ => none

/-- Whether the file at a place is analysed: there is a source file, and if it is malformed it is
not skipped for that. -/
def isAnalysed (d : Disk) (parse : Parser) (skipMalformed : Bool) (place : Place) : Bool :=
  (d.sourceAt? parse place).any fun f => !(f.malformed && skipMalformed)

/-- The source files at those places whose files are analysed. -/
def analysedFiles (d : Disk) (parse : Parser) (skipMalformed : Bool) (places : List Place) :
    List SourceFile :=
  (places.filter (d.isAnalysed parse skipMalformed)).filterMap (d.sourceAt? parse)

/-- The entry for the file at a place in a list of skipped files. -/
def skippedAt (d : Disk) (parse : Parser) (place : Place) : SkippedFile where
  path := place.toPath
  reason :=
    match d.content? place with
    | some (.binary _) => DiskFault.notText.message
    | _ =>
      if (d.sourceAt? parse place).isSome then "syntax errors"
      else "Parser produced no tree for " ++ place.toPath

variable {d : Disk} {parse : Parser} {skip : Bool} {place : Place} {selection : Selection}
  {path : String}

theorem discovered_eq {root : Place} {e : Entry} (hroot : d.resolve path = .ok root)
    (he : d.root.at? root = some e) : d.discovered selection path = discover selection root e := by
  simp only [discovered, hroot, he]

/-- In a proper tree there is a file wherever one is discovered. -/
theorem exists_content?_of_mem_discovered (hd : d.root.Proper)
    (h : place ∈ d.discovered selection path) : ∃ c, d.content? place = some c := by
  suffices hfile : ∃ c, d.root.at? place = some (.file c) by
    obtain ⟨c, hc⟩ := hfile
    exact ⟨c, by rw [content?, hc]⟩
  rw [discovered] at h
  split at h
  · cases h
  · next root hroot =>
    split at h
    · cases h
    · next e he =>
      -- A single file is discovered as it is, and in a directory only files are.
      cases e with
      | file c =>
        rw [List.mem_singleton.mp h]
        exact ⟨c, he⟩
      | directory es =>
        obtain ⟨_, _, hfile, _⟩ := (mem_discover_directory hd he selection).mp h
        exact hfile

/-! ## The two ways in which a file can go -/

variable {f : SourceFile}

theorem path_of_sourceAt? (hf : d.sourceAt? parse place = some f) : f.path = place.toPath := by
  rw [sourceAt?] at hf
  split at hf
  · obtain ⟨_, _, rfl⟩ := Option.map_eq_some_iff.mp hf
    rfl
  · cases hf

/-- A source file can be skipped for one reason only. -/
theorem skippedAt_of_sourceAt? (hf : d.sourceAt? parse place = some f) :
    d.skippedAt parse place = ⟨f.path, "syntax errors"⟩ := by
  rw [path_of_sourceAt? hf, skippedAt, hf]
  rw [sourceAt?] at hf
  split
  · next hc =>
    rw [hc] at hf
    cases hf
  · rfl

/-- Loading the file at a place gives the source file there, or says why there is none. -/
theorem loadFile_cases {c : Content} (hc : d.content? place = some c) :
    (∃ f, d.sourceAt? parse place = some f ∧ loadFile parse place c = .parsed f) ∨
      d.sourceAt? parse place = none ∧ loadFile parse place c =
        .unreadable (d.skippedAt parse place).path (d.skippedAt parse place).reason := by
  have hsource := sourceAt?.eq_def d parse place
  rw [hc] at hsource
  -- A file is left out for its bytes, or because the parser gives nothing for its text.
  cases c with
  | binary bytes =>
    right
    refine ⟨hsource, ?_⟩
    rw [skippedAt, hc, loadFile]
  | text source =>
    simp only [loadFile]
    cases hparse : parse ((Dialect.ofPath? place.toPath).getD .typeScript) source with
    | none =>
      right
      simp only [hparse, Option.map_none] at hsource
      refine ⟨hsource, ?_⟩
      simp [skippedAt, hc, hsource]
    | some parsed =>
      left
      simp only [hparse, Option.map_some] at hsource
      exact ⟨_, hsource, rfl⟩

/-- A file that is loaded is kept exactly if it is analysed. -/
theorem kept?_loadFile {c : Content} (hc : d.content? place = some c) :
    (loadFile parse place c).kept? skip =
      if d.isAnalysed parse skip place then d.sourceAt? parse place else none := by
  rw [isAnalysed]
  rcases loadFile_cases hc with ⟨f, hf, hload⟩ | ⟨hnone, hload⟩
  · rw [hload, hf, Loaded.kept?, Option.any_some]
    cases f.malformed && skip <;> rfl
  · rw [hload, hnone]
    rfl

/-- A file that is loaded is skipped exactly if it is not analysed. -/
theorem skipped?_loadFile {c : Content} (hc : d.content? place = some c) :
    (loadFile parse place c).skipped? skip =
      if !d.isAnalysed parse skip place then some (d.skippedAt parse place) else none := by
  rw [isAnalysed]
  rcases loadFile_cases hc with ⟨f, hf, hload⟩ | ⟨hnone, hload⟩
  · rw [hload, hf, Loaded.skipped?, Option.any_some, skippedAt_of_sourceAt? hf]
    cases f.malformed && skip <;> rfl
  · rw [hload, hnone]
    rfl

section Places

variable {places : List Place} (hplaces : ∀ place ∈ places, ∃ c, d.content? place = some c)

include hplaces

theorem filterMap_kept? :
    (places.filterMap fun place => (d.content? place).map (loadFile parse place)).filterMap
      (Loaded.kept? skip) = d.analysedFiles parse skip places := by
  rw [analysedFiles, List.filterMap_filterMap, List.filterMap_filter]
  refine List.filterMap_congr fun place hplace => ?_
  obtain ⟨c, hc⟩ := hplaces place hplace
  rw [hc]
  exact kept?_loadFile hc

theorem filterMap_skipped? :
    (places.filterMap fun place => (d.content? place).map (loadFile parse place)).filterMap
      (Loaded.skipped? skip) =
        (places.filter (!d.isAnalysed parse skip ·)).map (d.skippedAt parse) := by
  rw [← List.filterMap_eq_map, List.filterMap_filterMap, List.filterMap_filter]
  refine List.filterMap_congr fun place hplace => ?_
  obtain ⟨c, hc⟩ := hplaces place hplace
  rw [hc]
  exact skipped?_loadFile hc

end Places

/-- The files that are analysed are those at the places chosen, in the same order. -/
theorem map_path_analysedFiles (d : Disk) (parse : Parser) (skip : Bool) (places : List Place) :
    (d.analysedFiles parse skip places).map SourceFile.path =
      (places.filter (d.isAnalysed parse skip)).map Place.toPath := by
  rw [analysedFiles, List.map_filterMap, ← List.filterMap_eq_map]
  refine List.filterMap_congr fun place hplace => ?_
  have hanalysed : d.isAnalysed parse skip place = true := (List.mem_filter.mp hplace).2
  rw [isAnalysed, Option.any_eq_true] at hanalysed
  obtain ⟨f, hf, _⟩ := hanalysed
  rw [hf, Option.map_some, path_of_sourceAt? hf]
  rfl

/-! ## One run -/

/-- There is a report if and only if the files that are kept can be analysed. -/
theorem report_reportOn_eq_ok_iff {loaded : List Loaded} {report : Report} :
    (reportOn skip loaded).report = .ok report ↔
      (analyze (loaded.filterMap (Loaded.kept? skip))).records = .ok report.records ∧
        report.totalFiles = (loaded.filterMap (Loaded.kept? skip)).length ∧
        report.skipped = loaded.filterMap (Loaded.skipped? skip) := by
  obtain ⟨records, totalFiles, skipped⟩ := report
  rw [reportOn]
  cases (analyze (loaded.filterMap (Loaded.kept? skip))).records with
  | error e => simp
  | ok rs => simp [eq_comm]

/-- A run that succeeds reports on the files that are loaded from a place to which the path leads. -/
theorem exists_root_of_report {report : Report}
    (h : (d.analyzeProject parse path selection).report = .ok report) :
    ∃ root e, d.resolve path = .ok root ∧ d.root.at? root = some e ∧
      (reportOn selection.skipMalformed (d.loadFiles parse selection root e)).report =
        .ok report := by
  rw [analyzeProject] at h
  split at h
  · cases h
  · next root hroot =>
    split at h
    · cases h
    · next e he =>
      split at h
      · cases h
      · exact ⟨root, e, hroot, he, h⟩

/-- What a run that succeeds reports. -/
theorem report_analyzeProject (hd : d.root.Proper) {report : Report}
    (h : (d.analyzeProject parse path selection).report = .ok report) :
    (analyze (d.analysedFiles parse selection.skipMalformed (d.discovered selection path))).records =
        .ok report.records ∧
      report.totalFiles =
        (d.analysedFiles parse selection.skipMalformed (d.discovered selection path)).length ∧
      report.skipped = ((d.discovered selection path).filter
        (!d.isAnalysed parse selection.skipMalformed ·)).map (d.skippedAt parse) := by
  have hcontent : ∀ place ∈ d.discovered selection path, ∃ c, d.content? place = some c :=
    fun place => exists_content?_of_mem_discovered hd
  obtain ⟨root, e, hroot, he, hrun⟩ := exists_root_of_report h
  rw [loadFiles, ← discovered_eq hroot he] at hrun
  rwa [report_reportOn_eq_ok_iff, filterMap_kept? hcontent, filterMap_skipped? hcontent] at hrun

/-! ## Two runs -/

/-- Whether malformed files are skipped has no part in which files are discovered. -/
theorem discovered_skipMalformed (d : Disk) (selection : Selection) (skip : Bool) (path : String) :
    d.discovered { selection with skipMalformed := skip } path = d.discovered selection path :=
  rfl

theorem isAnalysed_false (d : Disk) (parse : Parser) (place : Place) :
    d.isAnalysed parse false place = (d.sourceAt? parse place).isSome := by
  simp only [isAnalysed, Bool.and_false, Bool.not_false]
  cases d.sourceAt? parse place <;> rfl

/-- If malformed files are not skipped, all source files are analysed. -/
theorem analysedFiles_false (places : List Place) :
    d.analysedFiles parse false places = places.filterMap (d.sourceAt? parse) := by
  rw [analysedFiles, List.filterMap_filter]
  refine List.filterMap_congr fun place _ => ?_
  rw [isAnalysed_false]
  cases d.sourceAt? parse place <;> rfl

/-- If malformed files are skipped, those of the source files that are not malformed are
analysed. -/
theorem analysedFiles_true (places : List Place) :
    d.analysedFiles parse true places =
      (d.analysedFiles parse false places).filter (!·.malformed) := by
  rw [analysedFiles_false, List.filter_filterMap, analysedFiles, List.filterMap_filter]
  refine List.filterMap_congr fun place _ => ?_
  rw [isAnalysed]
  cases d.sourceAt? parse place with
  | none => rfl
  | some f => cases hf : f.malformed <;> simp [Option.filter_some, hf]

/-- What is analysed if malformed files are skipped is analysed in any case. -/
theorem isAnalysed_false_of_true (h : d.isAnalysed parse true place = true) :
    d.isAnalysed parse false place = true := by
  rw [isAnalysed, Option.any_eq_true] at h
  obtain ⟨f, hf, _⟩ := h
  rw [isAnalysed_false, hf, Option.isSome_some]

/-- The files that are skipped only if malformed files are. -/
theorem map_skippedAt_malformed (places : List Place) :
    (places.filter fun place =>
        d.isAnalysed parse false place && !d.isAnalysed parse true place).map (d.skippedAt parse) =
      ((d.analysedFiles parse false places).filter (·.malformed)).map
        fun f => ⟨f.path, "syntax errors"⟩ := by
  rw [analysedFiles_false, List.filter_filterMap, List.map_filterMap, ← List.filterMap_eq_map,
    List.filterMap_filter]
  refine List.filterMap_congr fun place _ => ?_
  rw [isAnalysed_false, isAnalysed]
  cases hf : d.sourceAt? parse place with
  | none => rfl
  | some f => cases hm : f.malformed <;> simp [Option.filter_some, hm, skippedAt_of_sourceAt? hf]

/-- What is skipped in any case is skipped if malformed files are, in the same order. -/
theorem filter_not_isAnalysed_sublist (places : List Place) :
    (places.filter (!d.isAnalysed parse false ·)).Sublist
      (places.filter (!d.isAnalysed parse true ·)) := by
  apply List.monotone_filter_right
  intro place h
  rw [Bool.not_eq_true'] at h ⊢
  by_contra htrue
  rw [Bool.not_eq_false] at htrue
  rw [isAnalysed_false_of_true htrue] at h
  cases h

/-- The files that are skipped if malformed files are: those that are skipped in any case, and the
malformed ones. -/
theorem map_skippedAt_perm (places : List Place) :
    ((places.filter (!d.isAnalysed parse true ·)).map (d.skippedAt parse)).Perm
      ((places.filter (!d.isAnalysed parse false ·)).map (d.skippedAt parse) ++
        ((d.analysedFiles parse false places).filter (·.malformed)).map
          fun f => ⟨f.path, "syntax errors"⟩) := by
  rw [← map_skippedAt_malformed, ← List.map_append]
  refine List.Perm.map _ ?_
  have hparts := List.filter_append_perm (!d.isAnalysed parse false ·)
    (places.filter (!d.isAnalysed parse true ·))
  -- What is left out even without skipping is left out with it.
  have hskipped : ∀ place, (!d.isAnalysed parse false place && !d.isAnalysed parse true place) =
      !d.isAnalysed parse false place := by
    intro place
    cases htrue : d.isAnalysed parse true place with
    | false => simp
    | true => simp [isAnalysed_false_of_true htrue]
  simp only [List.filter_filter, hskipped, Bool.not_not] at hparts
  exact hparts.symm

end Disk

open Disk Registry

/-- What becomes of the files of a project on a proper disk. In a run that succeeds every file that
is discovered is analysed or skipped and never both, either list has the order of discovery, and
the records are those of the files analysed; the numbers of both add up to the number of files
discovered. Of two runs that succeed, one that skips malformed files and one that does not, the
second analyses exactly the malformed files besides, which are the files that only the first skips.
Every class that the first records the second records as well, in the same order; its record is the
same but for its depth and its number of subclasses, and this number is never smaller. -/
theorem analyzeProject_files {d : Disk} (hd : d.root.Proper) (parse : Parser) (path : String)
    (selection : Selection) :
    (∀ report, (d.analyzeProject parse path selection).report = .ok report →
      let places := d.discovered selection path
      let files := d.analysedFiles parse selection.skipMalformed places
      (analyze files).records = .ok report.records ∧
      files.map SourceFile.path =
        (places.filter (d.isAnalysed parse selection.skipMalformed)).map Place.toPath ∧
      report.skipped = (places.filter (!d.isAnalysed parse selection.skipMalformed ·)).map
        (d.skippedAt parse) ∧
      report.totalFiles = files.length ∧
      report.totalFiles + report.skipped.length = places.length) ∧
    ∀ first second,
      (d.analyzeProject parse path { selection with skipMalformed := true }).report = .ok first →
      (d.analyzeProject parse path { selection with skipMalformed := false }).report =
        .ok second →
      let places := d.discovered selection path
      let files := d.analysedFiles parse false places
      d.analysedFiles parse true places = files.filter (!·.malformed) ∧
      second.skipped.Sublist first.skipped ∧
      first.skipped.Perm (second.skipped ++
        (files.filter (·.malformed)).map fun f => ⟨f.path, "syntax errors"⟩) ∧
      (recordsOf (!·.malformed) files second.records).Sublist second.records ∧
      List.Forall₂ Record.Kept first.records
        (recordsOf (!·.malformed) files second.records) := by
  constructor
  · -- Each discovered file is analysed or skipped, so both numbers together are that of all.
    intro report h places files
    obtain ⟨hrecords, htotal, hskipped⟩ := report_analyzeProject hd h
    have hpaths := map_path_analysedFiles d parse selection.skipMalformed places
    refine ⟨hrecords, hpaths, hskipped, htotal, ?_⟩
    have hcount := congrArg List.length hpaths
    rw [List.length_map, List.length_map] at hcount
    rw [htotal, hskipped, List.length_map, hcount]
    exact (List.length_eq_length_filter_add _).symm
  · intro first second hfirst hsecond places files
    obtain ⟨hrecords₁, _, hskipped₁⟩ := report_analyzeProject hd hfirst
    obtain ⟨hrecords₂, _, hskipped₂⟩ := report_analyzeProject hd hsecond
    -- Both runs discover the same files, and the first analyses those of the second that are well
    -- formed.
    rw [discovered_skipMalformed] at hrecords₁ hskipped₁ hrecords₂ hskipped₂
    rw [analysedFiles_true] at hrecords₁
    rw [hskipped₁, hskipped₂]
    refine ⟨analysedFiles_true places, ?_, map_skippedAt_perm places, recordsOf_sublist hrecords₂,
      kept_of_filter hrecords₁ hrecords₂⟩
    exact (filter_not_isAnalysed_sublist places).map _

/-- The tree of `class B { @ }`, in which an error stands for the stray character. -/
def strayTree : Tree :=
  let node (kind : String) (role : Option Role) (text : String) (cs : List Tree) : Tree :=
    .node ⟨kind, true, role, 1, text⟩ cs
  let token (text : String) : Tree := .node ⟨text, false, none, 1, text⟩ []
  let body := node "class_body" (some .body) "\x7b @ \x7d"
    [token "\x7b", node "ERROR" none "@" [token "@"], token "\x7d"]
  node "program" none "class B \x7b @ \x7d"
    [node "class_declaration" none "class B \x7b @ \x7d"
      [token "class", node "type_identifier" (some .name) "B" [], body]]

/-- A parser for three texts. -/
def parseSome : Parser := fun _ source =>
  if source = "class B \x7b @ \x7d" then some (strayTree, true)
  else if source = "class A extends B {}" then some ((emptyClasses "" [("A", some "B")]).root, false)
  else if source = "class C extends A {}" then some ((emptyClasses "" [("C", some "A")]).root, false)
  else none

/-- A disk with a project of four files: the malformed one declares a base that the file in front of
it needs, and another is no text. -/
def malformedBetween : Disk :=
  ⟨.directory [("app", .directory [
    ("a.ts", .file (.text "class A extends B {}")),
    ("b.ts", .file (.text "class B \x7b @ \x7d")),
    ("c.ts", .file (.text "class C extends A {}")),
    ("d.ts", .file (.binary [0xff]))])], []⟩

theorem discovered_malformedBetween :
    malformedBetween.discovered everyFile "/app" =
      [["app", "a.ts"], ["app", "b.ts"], ["app", "c.ts"], ["app", "d.ts"]] := by
  let entries : List (String × List Place) :=
    [("a.ts", [["a.ts"]]), ("b.ts", [["b.ts"]]), ("c.ts", [["c.ts"]]), ("d.ts", [["d.ts"]])]
  have hsorted : (entries.mergeSort fun a b => a.1 ≤ b.1) = entries :=
    List.mergeSort_of_pairwise (by decide)
  calc malformedBetween.discovered everyFile "/app"
    _ = (((entries.mergeSort fun a b => a.1 ≤ b.1).flatMap (·.2)).filter
          (isWanted everyFile ["app"])).map (["app"] ++ ·) := rfl
    _ = _ := by rw [hsorted]; rfl

/-- If the malformed file is analysed as well, its class has a record between the two others, which
lie one level deeper than without it. -/
theorem analyzeProject_files_malformedBetween :
    malformedBetween.root.Proper ∧
    ∃ first second,
      (malformedBetween.analyzeProject parseSome "/app"
        { everyFile with skipMalformed := true }).report = .ok first ∧
      (malformedBetween.analyzeProject parseSome "/app"
        { everyFile with skipMalformed := false }).report = .ok second ∧
      first.skipped.map SkippedFile.path = ["/app/b.ts", "/app/d.ts"] ∧
      second.skipped.map SkippedFile.path = ["/app/d.ts"] ∧
      first.records.map Record.dit = [0, 1] ∧ second.records.map Record.dit = [1, 0, 2] ∧
      first.totalFiles + first.skipped.length = 4 ∧
      ∃ kept, kept.Sublist second.records ∧ List.Forall₂ Record.Kept first.records kept := by
  have hproper : malformedBetween.root.Proper := by
    refine .directory (by decide) ?_
    intro x hx
    rw [List.mem_singleton.mp hx]
    refine .directory (by decide) ?_
    simp [Entry.Proper.file]
  let places : List Place :=
    [["app", "a.ts"], ["app", "b.ts"], ["app", "c.ts"], ["app", "d.ts"]]
  have hplaces : malformedBetween.discovered everyFile "/app" = places := discovered_malformedBetween
  have hloaded : ∀ skip, malformedBetween.analyzeProject parseSome "/app"
      { everyFile with skipMalformed := skip } = reportOn skip (places.filterMap fun place =>
        (malformedBetween.content? place).map (loadFile parseSome place)) := by
    intro skip
    rw [← hplaces]
    rfl
  -- The depths of the classes: the malformed file declares a base of the first one.
  have hends₁ : List.Forall₂ (build (malformedBetween.analysedFiles parseSome true places)).EndsAt
      (build (malformedBetween.analysedFiles parseSome true places)).toList [0, 1] :=
    .cons ⟨_, rfl, rfl⟩ (.cons ⟨_, rfl, rfl⟩ .nil)
  have hends₂ : List.Forall₂ (build (malformedBetween.analysedFiles parseSome false places)).EndsAt
      (build (malformedBetween.analysedFiles parseSome false places)).toList [1, 0, 2] :=
    .cons ⟨_, rfl, rfl⟩ (.cons ⟨_, rfl, rfl⟩ (.cons ⟨_, rfl, rfl⟩ .nil))
  have hfirst : (malformedBetween.analyzeProject parseSome "/app"
      { everyFile with skipMalformed := true }).report = .ok ⟨_, _, _⟩ :=
    (congrArg Outcome.report (hloaded true)).trans
      (report_reportOn_eq_ok_iff.mpr ⟨records_of_endsAt hends₁, rfl, rfl⟩)
  have hsecond : (malformedBetween.analyzeProject parseSome "/app"
      { everyFile with skipMalformed := false }).report = .ok ⟨_, _, _⟩ :=
    (congrArg Outcome.report (hloaded false)).trans
      (report_reportOn_eq_ok_iff.mpr ⟨records_of_endsAt hends₂, rfl, rfl⟩)
  obtain ⟨hone, htwo⟩ := analyzeProject_files hproper parseSome "/app" everyFile
  obtain ⟨_, _, _, hsublist, hkept⟩ := htwo _ _ hfirst hsecond
  have hcount := (hone _ hfirst).2.2.2.2.trans (congrArg List.length hplaces)
  exact ⟨hproper, _, _, hfirst, hsecond, rfl, rfl, rfl, rfl, hcount, _, hsublist, hkept⟩

end ClassGauge
