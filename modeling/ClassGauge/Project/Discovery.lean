import ClassGauge.Disk.Basic
import ClassGauge.Settings
import ClassGauge.Syntax.SourceFile

/-! # Discovery

The source files of a project, in the order in which a walk through its directories meets them.
-/

namespace ClassGauge

open Syntax

/-- Whether a directory of this name is left out: hidden ones and installed packages are. -/
def isIgnoredDirectory (name : String) : Bool :=
  name = "node_modules" || name.toList.head? = some '.'

/-- Whether the file at `relative` below the project at `root` is to be analysed: it is a source file
and it is selected. -/
def isWanted (selection : Selection) (root relative : Place) : Bool :=
  (Dialect.ofPath? (root ++ relative).toPath).isSome && selection.selects ("/".intercalate relative)

/-- The places of the source files of the project at `root`, which is `e`. A project that is a single
file is taken whatever is selected. -/
def discover (selection : Selection) (root : Place) (e : Entry) : List Place :=
  match e with
  | .file _ => [root]
  | .directory _ =>
    ((e.filePlaces isIgnoredDirectory).filter (isWanted selection root)).map (root ++ ·)

end ClassGauge
