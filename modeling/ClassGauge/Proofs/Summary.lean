import ClassGauge.Report.Summary
import ClassGauge.Proofs.Ranking
import Mathlib.Data.List.Forall2
import Mathlib.Data.List.Induction

/-! # What a summary shows

A summary is put together from sections, some of which are left out. Each section is described by
what it shows, not by how it is printed: which records it names and in which order, with which values,
and how a path is cut.

* `ShowsPath`, `ShowsRecord`: a path that is cut to a width, and the line of a record in a ranking;
* `IsLastDeepest`: the record that the line on inheritance names;
* `SkippedSection`, `AveragesSection`, `InheritanceSection`, `RankingSection`: what the sections show;
* `summary_sections`: the text of a summary and its sections.
-/

namespace ClassGauge

variable {r : Report} {record : Record} {lines : List String}

/-! ## Paths and records -/

/-- `shown` stands for a path in no more than `width` characters: the path itself, or the last
characters of a longer one behind three dots. -/
def ShowsPath (width : Nat) (path shown : String) : Prop :=
  shown.length ≤ width ∧
    (shown = path ∨
      width < path.length ∧ ∃ tail, tail <:+ path.toList ∧ shown = "..." ++ String.ofList tail)

theorem showsPath_shortenPath {width : Nat} (hwidth : 3 ≤ width) (path : String) :
    ShowsPath width path (shortenPath width path) := by
  rw [shortenPath]
  split
  · next hle => exact ⟨hle, Or.inl rfl⟩
  · next hlt =>
    refine ⟨?_, Or.inr ⟨Nat.lt_of_not_le hlt, _, List.drop_suffix _ _, rfl⟩⟩
    have htail : (String.ofList (path.toList.drop (path.length - width + 3))).length + 3 ≤ width := by
      rw [String.length_ofList, List.length_drop, String.length_toList]
      omega
    rw [String.length_append, Nat.add_comm]
    exact htail

example : shortenPath 15 "this_is_a_very_long_path" = "...ry_long_path" := by
  decide

def blanks (k : Nat) : String := String.ofList (List.replicate k ' ')

/-- A line shows a number, the name of a class and the path of its file. -/
def ShowsRecord (n : Nat) (record : Record) (line : String) : Prop :=
  ∃ left right path, ShowsPath 50 record.filePath path ∧
    line = blanks left ++ toString n ++ "  " ++ record.className ++ blanks right ++ " " ++ path

theorem blanks_add (j k : Nat) : blanks (j + k) = blanks j ++ blanks k := by
  rw [blanks, List.replicate_add, String.ofList_append]
  rfl

theorem showsRecord_rankingLine (n : Nat) (record : Record) :
    ShowsRecord n record (Report.rankingLine n record) := by
  refine ⟨2 + (4 - (toString n).length), 30 - record.className.length, _,
    showsPath_shortenPath (by decide) record.filePath, ?_⟩
  rw [blanks_add]
  simp [Report.rankingLine, padLeft, padRight, blanks, String.append_assoc]

/-! ## Sections -/

def textOf (lines : List String) : String := String.join (lines.map (· ++ "\n"))

def openingLines (r : Report) : List String :=
  ["Class Metrics Summary", String.ofList (List.replicate 44 '━'), "",
    "Files: " ++ toString r.totalFiles ++ " | Classes: " ++ toString r.classCount ++
      " | Skipped: " ++ toString r.skipped.length]

/-- Every skipped file in its order with the reason, under a title if there is one at all. -/
def SkippedSection (r : Report) (lines : List String) : Prop :=
  ∃ entries, List.Forall₂ (fun s line => ∃ path, ShowsPath 60 s.path path ∧
      line = "  ⚠️  " ++ path ++ " (" ++ s.reason ++ ")") r.skipped entries ∧
    lines = if r.skipped = [] then [] else "" :: "Skipped Files:" :: entries

/-- The mean of four metrics. -/
def AveragesSection (r : Report) (lines : List String) : Prop :=
  ∃ entries, List.Forall₂ (fun (label, metric) line => ∃ mean, r.average metric = some mean ∧
      line = label ++ mean.toFixed 2)
      [("  WMC   ", Record.wmc), ("  CBO   ", Record.cbo), ("  LCOM  ", Record.lcom),
        ("  RFC   ", Record.rfc)] entries ∧
    lines = "" :: "Averages:" :: entries

/-- `record` is the last of the records with the greatest depth of inheritance. -/
def IsLastDeepest (records : List Record) (record : Record) : Prop :=
  ∃ before after, records = before ++ record :: after ∧ (∀ x ∈ before, x.dit ≤ record.dit) ∧
    ∀ x ∈ after, x.dit < record.dit

/-- The line on inheritance is there if some class has an ancestor, and names the last of the deepest
classes. -/
def InheritanceSection (r : Report) (lines : List String) : Prop :=
  (lines ≠ [] ↔ ∃ x ∈ r.records, 0 < x.dit) ∧
  (lines ≠ [] → ∃ record, IsLastDeepest r.records record ∧
    lines = ["", "Deepest Inheritance: " ++ record.className ++ " (DIT " ++ toString record.dit ++ ")"])

/-- A ranking is there if some record has a value, and shows the records at the positions of a ranking
of no more than five, one entry for each. -/
def RankingSection (r : Report) (title : String) (value : Record → Nat)
    (Shows : Record → List String → Prop) (lines : List String) : Prop :=
  (lines ≠ [] ↔ ∃ x ∈ r.records, 0 < value x) ∧
  (lines ≠ [] → ∃ picks entries, IsRanking r.records value 5 picks ∧
    List.Forall₂ (fun i entry => Shows (r.records.get i) entry) picks entries ∧
    lines = "" :: (title ++ ":") :: entries.flatten)

/-- The entry of a record in a ranking by a metric: a line with its value. -/
def ShowsValue (value : Record → Nat) (record : Record) (entry : List String) : Prop :=
  ∃ line, ShowsRecord (value record) record line ∧ entry = [line]

/-- The entry of a record in the ranking by risk: a line with the number of its risks, and a line in
which all of them are joined. -/
def ShowsRisks (record : Record) (entry : List String) : Prop :=
  ∃ line findings, findings = (Assessment.ofRecord record).risks ∧
    ShowsRecord findings.length record line ∧
    entry = [line, "        Points of attention: " ++
      ", ".intercalate (findings.map Finding.description)]

/-! ## What is printed -/

theorem skippedSection_skippedLines (r : Report) : SkippedSection r r.skippedLines := by
  refine ⟨r.skipped.map fun s => "  ⚠️  " ++ shortenPath 60 s.path ++ " (" ++ s.reason ++ ")", ?_, ?_⟩
  · rw [List.forall₂_map_right_iff, List.forall₂_same]
    exact fun s _ => ⟨_, showsPath_shortenPath (by decide) s.path, rfl⟩
  · rw [Report.skippedLines]
    cases r.skipped <;> rfl

theorem exists_average (h : r.records ≠ []) (metric : Record → Nat) :
    ∃ mean, r.average metric = some mean := by
  refine ⟨_, if_neg ?_⟩
  simpa using h

theorem averagesSection_averageLines (h : r.records ≠ []) : AveragesSection r r.averageLines := by
  obtain ⟨weight, hweight⟩ := exists_average h Record.wmc
  obtain ⟨coupling, hcoupling⟩ := exists_average h Record.cbo
  obtain ⟨cohesion, hcohesion⟩ := exists_average h Record.lcom
  obtain ⟨response, hresponse⟩ := exists_average h Record.rfc
  refine ⟨["  WMC   " ++ weight.toFixed 2, "  CBO   " ++ coupling.toFixed 2,
    "  LCOM  " ++ cohesion.toFixed 2, "  RFC   " ++ response.toFixed 2], ?_, ?_⟩
  · exact .cons ⟨_, hweight, rfl⟩ (.cons ⟨_, hcoupling, rfl⟩
      (.cons ⟨_, hcohesion, rfl⟩ (.cons ⟨_, hresponse, rfl⟩ .nil)))
  · simp [Report.averageLines, Report.averagedMetrics, Metric.value, hweight, hcoupling, hcohesion,
      hresponse, padRight]
    decide

/-- The search for the deepest class keeps the last one that is no less deep than those before. -/
theorem deepest?_cases (r : Report) :
    r.records = [] ∧ r.deepest? = none ∨
      ∃ record, IsLastDeepest r.records record ∧ r.deepest? = some record := by
  rw [Report.deepest?]
  -- From the end, since the last record takes the place of the best before it or leaves it.
  induction r.records using List.reverseRecOn with
  | nil => exact Or.inl ⟨rfl, rfl⟩
  | append_singleton xs x ih =>
    right
    rw [List.foldl_append]
    rcases ih with ⟨rfl, hnone⟩ | ⟨best, ⟨before, after, rfl, hbefore, hafter⟩, hbest⟩
    · exact ⟨x, ⟨[], [], rfl, by simp, by simp⟩, rfl⟩
    · rw [hbest, List.foldl_cons, List.foldl_nil]
      by_cases hle : best.dit ≤ x.dit
      · refine ⟨x, ⟨before ++ best :: after, [], rfl, ?_, by simp⟩, if_pos hle⟩
        intro y hy
        rcases List.mem_append.mp hy with hy | hy
        · exact (hbefore y hy).trans hle
        · rcases List.mem_cons.mp hy with rfl | hy
          · exact hle
          · exact (hafter y hy).le.trans hle
      · refine ⟨best, ⟨before, after ++ [x], by simp, hbefore, ?_⟩, if_neg hle⟩
        intro y hy
        rcases List.mem_append.mp hy with hy | hy
        · exact hafter y hy
        · rw [List.mem_singleton.mp hy]
          exact Nat.lt_of_not_le hle

theorem IsLastDeepest.dit_le {records : List Record} (h : IsLastDeepest records record) :
    ∀ x ∈ records, x.dit ≤ record.dit := by
  obtain ⟨before, after, rfl, hbefore, hafter⟩ := h
  intro x hx
  rcases List.mem_append.mp hx with hx | hx
  · exact hbefore x hx
  · rcases List.mem_cons.mp hx with rfl | hx
    · exact Nat.le_refl _
    · exact (hafter x hx).le

theorem inheritanceSection_inheritanceLines (r : Report) : InheritanceSection r r.inheritanceLines := by
  rcases deepest?_cases r with ⟨hempty, hnone⟩ | ⟨record, hlast, hsome⟩
  · simp [InheritanceSection, Report.inheritanceLines, hnone, hempty]
  · simp only [InheritanceSection, Report.inheritanceLines, hsome]
    split
    · next hpos =>
      refine ⟨⟨fun _ => ?_, by simp⟩, fun _ => ⟨record, hlast, rfl⟩⟩
      obtain ⟨before, after, hrecords, _⟩ := hlast
      exact ⟨record, by simp [hrecords], hpos⟩
    · next hzero =>
      refine ⟨⟨by simp, ?_⟩, by simp⟩
      rintro ⟨x, hx, hpos⟩
      exact absurd (hpos.trans_le (hlast.dit_le x hx)) hzero

/-- There is something to rank if some record has a value. -/
theorem topBy_ne_nil_iff (r : Report) (value : Record → Nat) :
    r.topBy value Report.rankingLimit ≠ [] ↔ ∃ x ∈ r.records, 0 < value x := by
  rw [topBy_eq_map_rankedPositions, ← List.length_pos_iff, List.length_map, List.length_take,
    length_rankedPositions]
  simp [Report.rankingLimit, List.countP_pos_iff]

/-- A ranking that prints an entry for each of the records at the top, if there are any. -/
theorem rankingSection_topBy (r : Report) (title : String) (value : Record → Nat)
    {Shows : Record → List String → Prop} {entry : Record → List String}
    (hentry : ∀ x, 0 < value x → Shows x (entry x)) :
    RankingSection r title value Shows
      (if (r.topBy value Report.rankingLimit).isEmpty then []
        else ["", title ++ ":"] ++ (r.topBy value Report.rankingLimit).flatMap entry) := by
  have hsome := topBy_ne_nil_iff r value
  have hranking := isRanking_take r.records value Report.rankingLimit
  rw [topBy_eq_map_rankedPositions] at hsome ⊢
  generalize (rankedPositions r.records value).take Report.rankingLimit = picks at hsome hranking ⊢
  -- A ranking without entries has no title either.
  split
  · next hempty =>
    have hnil : picks = [] := by simpa using hempty
    exact ⟨by simpa [hnil] using hsome, by simp⟩
  · next hpicks =>
    refine ⟨⟨fun _ => hsome.mp (by simpa using hpicks), by simp⟩, fun _ => ?_⟩
    refine ⟨picks, picks.map fun i => entry (r.records.get i), hranking, ?_, ?_⟩
    · rw [List.forall₂_map_right_iff, List.forall₂_same]
      exact fun i hi => hentry _ (hranking.positive i hi)
    · simp [List.flatMap_def, Function.comp_def]

theorem rankingSection_rankingLines (r : Report) (title : String) (metric : Metric) :
    RankingSection r title metric.value (ShowsValue metric.value) (r.rankingLines title metric) := by
  rw [Report.rankingLines, List.map_eq_flatMap]
  exact rankingSection_topBy r title metric.value fun x _ => ⟨_, showsRecord_rankingLine _ x, rfl⟩

theorem showsRisks_of_pos (h : 0 < Report.riskOf record) :
    ShowsRisks record [Report.rankingLine (Report.riskOf record) record,
      "        " ++ (Assessment.ofRecord record).riskComment] := by
  refine ⟨_, _, rfl, showsRecord_rankingLine _ record, ?_⟩
  have hrisks : (Assessment.ofRecord record).risks.isEmpty = false := by
    simpa using List.length_pos_iff.mp h
  rw [Assessment.riskComment, hrisks, Assessment.joinFindings]
  simp [← String.append_assoc, Report.riskOf, Assessment.risk]

theorem rankingSection_riskLines (r : Report) :
    RankingSection r "Highest Risk" Report.riskOf ShowsRisks r.riskLines :=
  rankingSection_topBy r "Highest Risk" Report.riskOf fun _ => showsRisks_of_pos

/-! ## The text -/

theorem textOf_append (ls ms : List String) : textOf (ls ++ ms) = textOf ls ++ textOf ms := by
  simp [textOf, String.join_append]

theorem textOf_cons (l : String) (ls : List String) : textOf (l :: ls) = l ++ "\n" ++ textOf ls := by
  simp [textOf, String.join_cons]

theorem summary_of_empty (h : r.records = []) :
    r.summary = textOf (openingLines r ++ r.skippedLines ++ ["", "No classes found."]) := by
  simp [Report.summary, Report.summaryLines, textOf, openingLines, h]

theorem summary_of_ne_nil (h : r.records ≠ []) :
    r.summary = textOf (openingLines r ++ r.skippedLines ++ r.averageLines ++ r.inheritanceLines ++
      r.rankingLines "Most Complex (WMC)" .wmc ++ r.rankingLines "Most Coupled (CBO)" .cbo ++
      r.rankingLines "Least Cohesive (LCOM)" .lcom ++ r.riskLines) := by
  simp [Report.summary, Report.summaryLines, textOf, openingLines, h, Report.rankedMetrics,
    List.append_assoc]

/-- What comes behind the skipped files tells whether there are any classes. -/
theorem summary_eq_iff (r : Report) :
    r.summary = textOf (openingLines r ++ r.skippedLines ++ ["", "No classes found."]) ↔
      r.records = [] := by
  refine ⟨fun h => ?_, summary_of_empty⟩
  by_contra hne
  obtain ⟨entries, _, haverages⟩ := averagesSection_averageLines hne
  rw [summary_of_ne_nil hne, haverages] at h
  simp only [List.append_assoc, textOf_append] at h
  rw [String.append_right_inj, String.append_right_inj] at h
  -- The second character is the first of "Averages:" on one side and of "No" on the other.
  have hsecond := congrArg (fun t => t.toList[1]?) h
  simp [textOf_cons] at hsecond

/-- The summary of a report section by section. It lists every skipped file in order. It ends behind
these with the remark that there are no classes exactly if there are none. Otherwise there follow the
averages, the line on inheritance if some class has an ancestor, with the last of the deepest classes,
and a ranking by weight, coupling, cohesion and risk each if some record has a value by it: with one
entry for each record at the top, up to five, in descending order of values and with equal ones in their
order. An entry has the value of its record, which in the ranking by risk is the number of findings that
its second line joins. Paths are cut to 60 characters in the list of skipped files, and to 50 in
rankings. -/
theorem summary_sections (r : Report) :
    ∃ skipped, SkippedSection r skipped ∧
      (r.summary = textOf (openingLines r ++ skipped ++ ["", "No classes found."]) ↔ r.records = []) ∧
      (r.records ≠ [] → ∃ averages inheritance weight coupling cohesion risk,
        r.summary = textOf (openingLines r ++ skipped ++ averages ++ inheritance ++ weight ++ coupling ++
          cohesion ++ risk) ∧
        AveragesSection r averages ∧
        InheritanceSection r inheritance ∧
        RankingSection r "Most Complex (WMC)" Record.wmc (ShowsValue Record.wmc) weight ∧
        RankingSection r "Most Coupled (CBO)" Record.cbo (ShowsValue Record.cbo) coupling ∧
        RankingSection r "Least Cohesive (LCOM)" Record.lcom (ShowsValue Record.lcom) cohesion ∧
        RankingSection r "Highest Risk" Report.riskOf ShowsRisks risk) := by
  refine ⟨r.skippedLines, skippedSection_skippedLines r, summary_eq_iff r, fun h => ?_⟩
  exact ⟨_, _, _, _, _, _, summary_of_ne_nil h, averagesSection_averageLines h,
    inheritanceSection_inheritanceLines r, rankingSection_rankingLines r _ .wmc,
    rankingSection_rankingLines r _ .cbo, rankingSection_rankingLines r _ .lcom,
    rankingSection_riskLines r⟩

/-- Two classes, of which the second has ancestors and the first a risk, and a skipped file. -/
def twoHandlers : Report where
  records :=
    [Record.ofValues "Service" "src/service.ts" fun m => if m = .wmc then 12 else 0,
      Record.ofValues "Handler" "src/handler.ts" fun m => if m = .dit then 2 else 0]
  totalFiles := 2
  skipped := [⟨"src/broken.ts", "syntax errors"⟩]

/-- The line on inheritance is there, and so are the rankings by weight and by risk, but not that by
cohesion. -/
theorem summary_sections_twoHandlers :
    twoHandlers.records ≠ [] ∧
      twoHandlers.inheritanceLines = ["", "Deepest Inheritance: Handler (DIT 2)"] ∧
      ∃ skipped averages inheritance weight coupling cohesion risk,
        twoHandlers.summary = textOf (openingLines twoHandlers ++ skipped ++ averages ++ inheritance ++
          weight ++ coupling ++ cohesion ++ risk) ∧
        SkippedSection twoHandlers skipped ∧ inheritance ≠ [] ∧ weight ≠ [] ∧ cohesion = [] ∧
        risk ≠ [] := by
  have hrecords : twoHandlers.records ≠ [] := by decide
  obtain ⟨skipped, hskipped, _, hsections⟩ := summary_sections twoHandlers
  obtain ⟨averages, inheritance, weight, coupling, cohesion, risk, htext, _, hinheritance, hweight, _,
    hcohesion, hrisk⟩ := hsections hrecords
  refine ⟨hrecords, by decide, skipped, averages, inheritance, weight, coupling, cohesion, risk, htext,
    hskipped, hinheritance.1.mpr (by decide), hweight.1.mpr (by decide), ?_, hrisk.1.mpr (by decide)⟩
  -- No class has a value, so that this ranking is left out.
  by_contra hne
  exact absurd (hcohesion.1.mp hne) (by decide)

end ClassGauge
