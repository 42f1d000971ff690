import ClassGauge.CommandLine.Options
import ClassGauge.Project.Basic
import ClassGauge.Project.SettingsFile
import ClassGauge.Report.Json
import ClassGauge.Report.Summary

/-! # Runs of the program

A run takes a command line and a disk to what is printed and to the disk as it is afterwards. The
steps are: read the settings, apply the options to them, analyse the project, and print or write the
records. The first step that fails ends the run with status 1; only the last one changes the disk.
-/

namespace ClassGauge.CommandLine

def versionLine : String := "class-metrics 0.1.0"

def helpText : String :=
  "OO and complexity metrics for TypeScript classes\n\n" ++
  "Usage: class-metrics [OPTIONS] [PATH]\n\n" ++
  "Arguments:\n" ++
  "  [PATH]  Project root (or a single source file) to analyze [default: .]\n\n" ++
  "Options:\n" ++
  "  -o, --output <OUTPUT>  Output file for the JSON records " ++
    "(default: class_metrics.json in the project root)\n" ++
  "      --include <GLOB>   Glob selecting files to analyze, relative to PATH " ++
    "(repeatable, replaces config)\n" ++
  "      --exclude <GLOB>   Glob for files to leave out (repeatable, replaces config)\n" ++
  "  -s, --summary          Print a summary to stderr\n" ++
  "      --stdout           Write JSON to stdout instead of a file\n" ++
  "  -c, --config <CONFIG>  Config file path (default: search for .classmetrics.toml)\n" ++
  "  -v, --verbose          Verbose output\n" ++
  "      --timing           Show timing information\n" ++
  "  -j, --jobs <N>         Number of threads for parallel parsing (default: all CPU cores)\n" ++
  "      --keep-malformed   Analyze files with syntax errors instead of skipping them\n" ++
  "  -h, --help             Print help\n" ++
  "  -V, --version          Print version\n"

/-- What is printed for a command line that is in error. -/
def usageText (e : UsageError) : String :=
  "error: " ++ e.message ++ "\n\nUsage: class-metrics [OPTIONS] [PATH]\n\n" ++
    "For more information, try '--help'.\n"

/-- What a run prints and leaves behind. -/
structure Effect where
  status : Nat
  stdout : String
  stderr : String
  disk : Disk

/-- Why a run fails. -/
inductive RunError where
  | settings (e : SettingsError)
  | project (e : ProjectError)
  deriving DecidableEq, Repr

def RunError.message : RunError → String
  | .settings e => e.message
  | .project e => e.message

/-- A warning as a line of the log; further lines of its text are indented. -/
def logLine (w : Warning) : String :=
  "[WARN class_metrics::analyzer] " ++
    String.ofList (w.message.toList.flatMap fun c =>
      if c = '\n' then ['\n', ' ', ' ', ' ', ' '] else [c]) ++ "\n"

/-- The compiled settings of a run: those of the settings file with the options of the command line
in their place. -/
def selectionOf (d : Disk) (o : Options) : Except SettingsError Selection := do
  let selection ← d.loadSelection o.project o.config
  let selection ← if o.included.isEmpty then .ok selection
    else selection.change (.included o.included)
  let selection ← if o.excluded.isEmpty then .ok selection
    else selection.change (.excluded o.excluded)
  let selection ← if o.has .keepMalformed then selection.change (.skipMalformed false)
    else .ok selection
  match o.output with
  | some path => selection.change (.outputPath (Path.join d.workingDirectory.toPath path))
  | none => .ok selection

/-- The directory to which a report path in the settings is relative. -/
def reportRoot (d : Disk) (project : String) : String :=
  if d.isFile project then (Path.parent? project).getD "" else project

/-- Writes a report to a path and makes the directories that are missing above it. Answers with the
disk as it is then, and with what went wrong. -/
def writeReport (d : Disk) (path text : String) : Disk × Option DiskFault :=
  let (d, fault?) := match Path.parent? path with
    | some parent => if parent.isEmpty then (d, none) else d.makeDirectories parent
    | none => (d, none)
  match fault? with
  | some fault => (d, some fault)
  | none =>
    match d.writeText path text with
    | .ok d => (d, none)
    | .error fault => (d, some fault)

def errorLine (e : RunError) : String :=
  "Error: " ++ e.message ++ "\n"

def startLine (o : Options) : String :=
  "Analyzing project at '" ++ o.project ++ "'...\n"

def completionLine (r : Report) : String :=
  "Analysis complete: " ++ toString r.totalFiles ++ " files, " ++ toString r.classCount ++
    " classes\n"

def summaryText (o : Options) (r : Report) : String :=
  if o.has .summary then "\n" ++ r.summary else ""

/-- Prints or writes a report, behind `log` on standard error. -/
def deliver (d : Disk) (o : Options) (selection : Selection) (log : String) (r : Report) :
    Effect :=
  let text := Record.writeAll r.records
  if o.has .stdout then ⟨0, text, log ++ summaryText o r, d⟩
  else
    let path := selection.outputFor (reportRoot d o.project)
    match writeReport d path text with
    | (d, some fault) => ⟨1, "", log ++ errorLine (.project (.disk fault)), d⟩
    | (d, none) => ⟨0, "", log ++ "Metrics written to: " ++ path ++ "\n" ++ summaryText o r, d⟩

/-- Runs the program with options. -/
def runWith (d : Disk) (parse : Parser) (o : Options) : Effect :=
  match selectionOf d o with
  | .error e => ⟨1, "", errorLine (.settings e), d⟩
  | .ok selection =>
    let outcome := d.analyzeProject parse o.project selection
    let log := startLine o ++ String.join (outcome.warnings.map logLine)
    match outcome.report with
    | .error e => ⟨1, "", log ++ errorLine (.project e), d⟩
    | .ok report => deliver d o selection (log ++ completionLine report) report

/-- Runs the program on its arguments. -/
def run (d : Disk) (parse : Parser) (arguments : List String) : Effect :=
  match Options.parse arguments with
  | .error e => ⟨2, "", usageText e, d⟩
  | .ok .help => ⟨0, helpText, "", d⟩
  | .ok .version => ⟨0, versionLine ++ "\n", "", d⟩
  | .ok (.run o) => runWith d parse o

end ClassGauge.CommandLine
