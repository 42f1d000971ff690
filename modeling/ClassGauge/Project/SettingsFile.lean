import ClassGauge.Disk.Basic
import ClassGauge.Settings

/-! # Settings files

Settings are read from a named file, or from the first settings file found on the way from the
project up. The way up is that of the path text: from `a/b` to `a` to the working directory, and no
further.
-/

namespace ClassGauge

/-- The names of settings files, in the order in which they are looked for in a directory. -/
def settingsFileNames : List String :=
  [".classmetrics.toml", "classmetrics.toml"]

/-- A path and the paths above it, `fuel` bounding their number. -/
def Path.ancestorsFrom : (fuel : Nat) → String → List String
  | 0, path => [path]
  | fuel + 1, path =>
    path :: match Path.parent? path with
      | some parent => Path.ancestorsFrom fuel parent
      | none => []

/-- A path and the paths above it, up to the root or to the start of a relative path. -/
def Path.ancestors (path : String) : List String :=
  Path.ancestorsFrom ((Path.components path).length + 1) path

namespace Disk

/-- The directory in which the search for a project's settings begins: the project itself, or the
directory of a project that is a single file. -/
def settingsStart? (d : Disk) (project : String) : Option String :=
  if d.isFile project then Path.parent? project else some project

/-- The settings file of a project: the first that exists, the nearest directory first. -/
def findSettingsFile? (d : Disk) (project : String) : Option String :=
  (d.settingsStart? project).bind fun start =>
    ((Path.ancestors start).flatMap fun directory =>
      settingsFileNames.map (Path.join directory)).find? d.pathExists

def readSettings (d : Disk) (path : String) : Except SettingsError Settings :=
  match d.readText path with
  | .error fault => .error (.unreadable fault.message)
  | .ok text =>
    match Settings.ofToml? text with
    | some settings => .ok settings
    | none => .error .malformed

/-- The settings of a project: those of its settings file, or the default settings if it has
none. -/
def projectSettings (d : Disk) (project : String) : Except SettingsError Settings :=
  match d.findSettingsFile? project with
  | some path => d.readSettings path
  | none => .ok Settings.default

/-- The compiled settings of a project, or with `named` those of a named file. -/
def loadSelection (d : Disk) (project : String) (named : Option String) :
    Except SettingsError Selection := do
  let settings ← match named with
    | some path => d.readSettings path
    | none => d.projectSettings project
  Selection.ofSettings settings

end Disk

end ClassGauge
