import ClassGauge.Report.Assessment
import ClassGauge.Report.Ranking

/-! # Summaries

A short digest of a report in plain text, line by line: totals, skipped files, averages, the
deepest inheritance, and rankings by single metrics and by risk.
-/

namespace ClassGauge

/-- `text` with blanks behind it up to `width` characters. -/
def padRight (width : Nat) (text : String) : String :=
  text ++ String.ofList (List.replicate (width - text.length) ' ')

/-- `text` with blanks in front of it up to `width` characters. -/
def padLeft (width : Nat) (text : String) : String :=
  String.ofList (List.replicate (width - text.length) ' ') ++ text

/-- A path cut to `width` characters: of a longer one the end is kept behind three dots. -/
def shortenPath (width : Nat) (path : String) : String :=
  if path.length ≤ width then path
  else "..." ++ String.ofList (path.toList.drop (path.length - width + 3))

namespace Report

def rankingLimit : Nat := 5

def averagedMetrics : List (String × Metric) :=
  [("WMC", .wmc), ("CBO", .cbo), ("LCOM", .lcom), ("RFC", .rfc)]

/-- The metrics with rankings, under their titles. -/
def rankedMetrics : List (String × Metric) :=
  [("Most Complex (WMC)", .wmc), ("Most Coupled (CBO)", .cbo), ("Least Cohesive (LCOM)", .lcom)]

/-- The last of the records with the greatest depth of inheritance. -/
def deepest? (r : Report) : Option Record :=
  r.records.foldl (fun best record =>
    match best with
    | none => some record
    | some b => if b.dit ≤ record.dit then some record else some b) none

def riskOf (record : Record) : Nat :=
  (Assessment.ofRecord record).risk

def rankingLine (value : Nat) (record : Record) : String :=
  "  " ++ padLeft 4 (toString value) ++ "  " ++ padRight 30 record.className ++ " " ++
    shortenPath 50 record.filePath

def skippedLines (r : Report) : List String :=
  if r.skipped.isEmpty then []
  else
    ["", "Skipped Files:"] ++
      r.skipped.map fun s => "  ⚠️  " ++ shortenPath 60 s.path ++ " (" ++ s.reason ++ ")"

def averageLines (r : Report) : List String :=
  ["", "Averages:"] ++
    averagedMetrics.filterMap fun (title, metric) =>
      (r.average metric.value).map fun x => "  " ++ padRight 5 title ++ " " ++ x.toFixed 2

/-- The line on the deepest inheritance, if any class has an ancestor. -/
def inheritanceLines (r : Report) : List String :=
  match r.deepest? with
  | some record =>
    if record.dit > 0 then
      ["", "Deepest Inheritance: " ++ record.className ++ " (DIT " ++ toString record.dit ++ ")"]
    else []
  | none => []

/-- The ranking by one metric. -/
def rankingLines (r : Report) (title : String) (metric : Metric) : List String :=
  let top := r.topBy metric.value rankingLimit
  if top.isEmpty then []
  else ["", title ++ ":"] ++ top.map fun record => rankingLine (metric.value record) record

/-- The ranking by risk, with a remark on each class. -/
def riskLines (r : Report) : List String :=
  let top := r.topBy riskOf rankingLimit
  if top.isEmpty then []
  else
    ["", "Highest Risk:"] ++
      top.flatMap fun record =>
        [rankingLine (riskOf record) record,
          "        " ++ (Assessment.ofRecord record).riskComment]

def summaryLines (r : Report) : List String :=
  ["Class Metrics Summary", String.ofList (List.replicate 44 '━'), "",
    "Files: " ++ toString r.totalFiles ++ " | Classes: " ++ toString r.classCount ++
      " | Skipped: " ++ toString r.skipped.length] ++
  r.skippedLines ++
  if r.records.isEmpty then ["", "No classes found."]
  else
    r.averageLines ++ r.inheritanceLines ++
      (rankedMetrics.flatMap fun (title, metric) => r.rankingLines title metric) ++ r.riskLines

def summary (r : Report) : String :=
  String.join (r.summaryLines.map (· ++ "\n"))

end Report

end ClassGauge
