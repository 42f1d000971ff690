import ClassGauge.Disk.Path
import ClassGauge.Syntax.ClassDecl

/-! # Source files

A parsed file: its path, its text, the root of its tree, and whether the parser had to recover from
syntax errors. `SourceFile.classes` are the classes that it declares at its top level.
-/

namespace ClassGauge.Syntax

/-- The flavours of the language that a grammar exists for. -/
inductive Dialect where
  | typeScript
  | tsx
  deriving DecidableEq, Repr

namespace Dialect

/-- The dialect that goes with a file extension. -/
def ofExtension? : String → Option Dialect
  | "ts" | "mts" | "cts" => some .typeScript
  | "tsx" => some .tsx
  | _ => none

/-- The dialect of a source file, `none` for any other file. -/
def ofPath? (path : String) : Option Dialect :=
  (Path.extension? path).bind ofExtension?

end Dialect

/-- A parsed source file. -/
structure SourceFile where
  path : String
  source : String
  /-- Whether the parser had to recover from syntax errors. -/
  malformed : Bool
  root : Tree

namespace SourceFile

/-- The number of lines: one more than there are line feeds. -/
def lineCount (f : SourceFile) : Nat :=
  f.source.toList.count '\n' + 1

def rootNode (f : SourceFile) : Node :=
  ⟨none, f.root⟩

/-- The classes declared at the top level, in order. -/
def classes (f : SourceFile) : List ClassDecl :=
  f.rootNode.children.filterMap ClassDecl.ofStatement?

end SourceFile

end ClassGauge.Syntax
