import ClassGauge.Disk.Path
import ClassGauge.Glob.Match
import ClassGauge.Toml.Document

/-! # Settings

What a run analyses and where its report goes. Settings are read from a TOML document
(`Settings.ofToml?`), in which everything may be left out, and their patterns are compiled before
use (`Selection.ofSettings`).
-/

namespace ClassGauge

/-- The settings as they are written. -/
structure Settings where
  /-- Patterns of the files to analyse, relative to the project. -/
  included : List String
  /-- Patterns of files to leave out all the same. -/
  excluded : List String
  /-- Whether malformed files are left out. -/
  skipMalformed : Bool
  /-- Where the report goes, relative to the project. -/
  outputPath : String
  deriving DecidableEq, Repr

/-- Why there are no settings. -/
inductive SettingsError where
  /-- The file cannot be read, for the given reason. -/
  | unreadable (reason : String)
  /-- The file is no TOML document, or a value in it is of the wrong kind. -/
  | malformed
  /-- A pattern cannot be compiled. -/
  | badPattern (pattern : String) (error : Glob.SyntaxError)
  deriving DecidableEq, Repr

def SettingsError.message : SettingsError → String
  | .unreadable reason => "Failed to read config file: " ++ reason
  | .malformed => "Failed to parse config file: not a document of settings"
  | .badPattern pattern error => "Invalid glob pattern: " ++ pattern ++ ": " ++ error.message

namespace Settings

/-- The settings that hold where nothing else is written. -/
def default : Settings where
  included := ["src/**/*.ts", "src/**/*.tsx"]
  excluded := []
  skipMalformed := true
  outputPath := "class_metrics.json"

/-! ## Reading settings -/

/-- The fields of a value that stands for a group of settings: a table has them by name, an array in
the order of `names`, and a date has none. -/
def fields? (names : List String) : Toml.Value → Option (String → Option Toml.Value)
  | .table entries => some fun name => entries.lookup name
  | .array items => some fun name => (names.zip items).lookup name
  | .datetime _ => some fun _ => none
  | _ => none

def text? : Toml.Value → Option String
  | .string s => some s
  | _ => none

def texts? : Toml.Value → Option (List String)
  | .array items => items.mapM text?
  | _ => none

def bool? : Toml.Value → Option Bool
  | .boolean b => some b
  | _ => none

/-- The field `name` as `read` sees it, or `default` if it is missing. -/
def field {α : Type} (read : Toml.Value → Option α) (default : α)
    (fields : String → Option Toml.Value) (name : String) : Option α :=
  match fields name with
  | some v => read v
  | none => some default

/-- The settings in the table of a document, `none` if a value is of the wrong kind. Keys without a
meaning are passed over. -/
def ofEntries? (entries : List (String × Toml.Value)) : Option Settings := do
  let groups (name : String) : Option Toml.Value := entries.lookup name
  let nothing (_ : String) : Option Toml.Value := none
  let analysis ← field (fields? ["include", "exclude", "skip_malformed"]) nothing groups "analysis"
  let output ← field (fields? ["path"]) nothing groups "output"
  return {
    included := ← field texts? default.included analysis "include"
    excluded := ← field texts? default.excluded analysis "exclude"
    skipMalformed := ← field bool? default.skipMalformed analysis "skip_malformed"
    outputPath := ← field text? default.outputPath output "path" }

def ofToml? (text : String) : Option Settings :=
  (Toml.read? text).bind ofEntries?

end Settings

/-! ## Compiled settings -/

/-- Settings whose patterns are compiled. -/
structure Selection where
  included : List (List Glob.Token)
  excluded : List (List Glob.Token)
  /-- Whether malformed files are left out. -/
  skipMalformed : Bool
  /-- Where the report goes, relative to the project. -/
  outputPath : String
  deriving DecidableEq, Repr

namespace Selection

/-- Compiles patterns one by one; the error is that of the first that is none. -/
def compilePatterns : List String → Except SettingsError (List (List Glob.Token))
  | [] => .ok []
  | p :: ps =>
    match Glob.compile p with
    | .error e => .error (.badPattern p e)
    | .ok tokens => (compilePatterns ps).map (tokens :: ·)

/-- Compiles settings. -/
def ofSettings (s : Settings) : Except SettingsError Selection := do
  let included ← compilePatterns s.included
  let excluded ← compilePatterns s.excluded
  return { included, excluded, skipMalformed := s.skipMalformed, outputPath := s.outputPath }

/-- The compiled default settings. -/
def default : Selection where
  included := Settings.default.included.filterMap fun p => (Glob.compile p).toOption
  excluded := []
  skipMalformed := Settings.default.skipMalformed
  outputPath := Settings.default.outputPath

/-- A change to compiled settings. -/
inductive Change where
  /-- Replaces the patterns of the files to analyse. -/
  | included (patterns : List String)
  /-- Replaces the patterns of the files to leave out. -/
  | excluded (patterns : List String)
  /-- Says whether malformed files are left out. -/
  | skipMalformed (skip : Bool)
  /-- Says where the report goes. -/
  | outputPath (path : String)
  deriving DecidableEq, Repr

/-- The settings after a change, or why the change cannot be made. -/
def change (s : Selection) : Change → Except SettingsError Selection
  | .included patterns => (compilePatterns patterns).map fun ps => { s with included := ps }
  | .excluded patterns => (compilePatterns patterns).map fun ps => { s with excluded := ps }
  | .skipMalformed skip => .ok { s with skipMalformed := skip }
  | .outputPath path => .ok { s with outputPath := path }

/-- The settings after a change, or as they were if it cannot be made. -/
def changeOrKeep (s : Selection) (c : Change) : Selection :=
  match s.change c with
  | .ok s' => s'
  | .error _ => s

/-- Whether the file at a path relative to the project is selected: some pattern includes it and none
excludes it. -/
def selects (s : Selection) (path : String) : Bool :=
  s.included.any (Glob.isMatch · path) && !s.excluded.any (Glob.isMatch · path)

/-- Where the report of a project at `root` goes. -/
def outputFor (s : Selection) (root : String) : String :=
  Path.join root s.outputPath

end Selection

end ClassGauge
