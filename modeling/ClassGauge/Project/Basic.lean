import ClassGauge.Analysis
import ClassGauge.Project.Discovery
import ClassGauge.Report.Ranking

/-! # Projects

The analysis of a project on a disk: its source files are found, read and parsed, those that cannot
be are skipped, and the classes of all others are measured together.
-/

namespace ClassGauge

open Syntax

/-- A parser: the root of the tree of a source text, and whether it had to recover from errors. It
may give no tree at all. -/
abbrev Parser : Type := Dialect → String → Option (Tree × Bool)

/-- Why there is no report. -/
inductive ProjectError where
  /-- The path of the project leads nowhere. -/
  | noSuchPath (path : String)
  /-- The project is a single file, but no source file. -/
  | notSource (path : String)
  /-- The report cannot be written. -/
  | disk (fault : DiskFault)
  | cycle (e : CyclicInheritance)
  deriving DecidableEq, Repr

def ProjectError.message : ProjectError → String
  | .noSuchPath path => "Invalid path: " ++ path
  | .notSource path => "Invalid path: " ++ path ++ " is not a TypeScript source file"
  | .disk fault => "Failed to read file: " ++ fault.message
  | .cycle e => e.message

/-- What becomes of one source file. -/
inductive Loaded where
  | parsed (file : SourceFile)
  | unreadable (path reason : String)

/-- Reads and parses the file at a place, which holds `content`. -/
def loadFile (parse : Parser) (place : Place) (content : Content) : Loaded :=
  let path := place.toPath
  match content with
  | .binary _ => .unreadable path DiskFault.notText.message
  | .text source =>
    match parse ((Dialect.ofPath? path).getD .typeScript) source with
    | some (root, malformed) => .parsed { path, source, malformed, root }
    | none => .unreadable path ("Parser produced no tree for " ++ path)

namespace Loaded

/-- The file, if it is to be analysed. -/
def kept? (skipMalformed : Bool) : Loaded → Option SourceFile
  | .parsed f => if f.malformed && skipMalformed then none else some f
  | .unreadable _ _ => none

/-- The entry in the list of skipped files, if the file is skipped. -/
def skipped? (skipMalformed : Bool) : Loaded → Option SkippedFile
  | .parsed f => if f.malformed && skipMalformed then some ⟨f.path, "syntax errors"⟩ else none
  | .unreadable path reason => some ⟨path, reason⟩

/-- The warning that a file gives rise to. -/
def warning? (skipMalformed : Bool) : Loaded → Option Warning
  | .parsed f =>
    if f.malformed then
      some (if skipMalformed then .skippedMalformed f.path else .keptMalformed f.path)
    else none
  | .unreadable path reason => some (.unreadable path reason)

end Loaded

/-- What the analysis of a project comes to: its warnings, which are given even if it fails, and its
report. -/
structure Outcome where
  warnings : List Warning
  report : Except ProjectError Report

def reportOn (skipMalformed : Bool) (loaded : List Loaded) : Outcome :=
  let files := loaded.filterMap (Loaded.kept? skipMalformed)
  let analysis := analyze files
  { warnings := loaded.filterMap (Loaded.warning? skipMalformed) ++ analysis.warnings
    report :=
      match analysis.records with
      | .ok records =>
        .ok ⟨records, files.length, loaded.filterMap (Loaded.skipped? skipMalformed)⟩
      | .error e => .error (.cycle e) }

namespace Disk

/-- Loads the source files of the project at `root`, which is `e`. -/
def loadFiles (d : Disk) (parse : Parser) (selection : Selection) (root : Place) (e : Entry) :
    List Loaded :=
  (discover selection root e).filterMap fun place =>
    (d.content? place).map (loadFile parse place)

/-- Analyses the project to which a path leads: a directory with source files or a single one. -/
def analyzeProject (d : Disk) (parse : Parser) (path : String) (selection : Selection) :
    Outcome :=
  match d.resolve path with
  | .error _ => ⟨[], .error (.noSuchPath path)⟩
  | .ok root =>
    match d.root.at? root with
    | none => ⟨[], .error (.noSuchPath path)⟩
    | some e =>
      if !e.isDirectory && (Dialect.ofPath? root.toPath).isNone then
        ⟨[], .error (.notSource root.toPath)⟩
      else reportOn selection.skipMalformed (d.loadFiles parse selection root e)

end Disk

end ClassGauge
