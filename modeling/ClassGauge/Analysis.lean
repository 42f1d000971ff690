import ClassGauge.Record

/-! # Analysis of parsed files

All classes of the files go into one registry, then every class is measured against it. The records
stand in file order, and for one file in the order of declaration. The analysis fails only if some
line of ancestors comes back to itself.
-/

namespace ClassGauge

open Syntax

/-- What an analysis warns of. -/
inductive Warning where
  /-- A malformed file was left out. -/
  | skippedMalformed (path : String)
  /-- A malformed file was analysed all the same. -/
  | keptMalformed (path : String)
  /-- A file could not be read. -/
  | unreadable (path reason : String)
  /-- A class name has several declarations, at the given paths and lines. -/
  | duplicateName (name : String) (places : List (String × Nat))
  deriving DecidableEq, Repr

def Warning.message : Warning → String
  | .skippedMalformed path => "Skipping " ++ path ++ ": file contains syntax errors"
  | .keptMalformed path => path ++ " contains syntax errors; metrics may be incomplete"
  | .unreadable path reason => "Skipping " ++ path ++ ": " ++ reason
  | .duplicateName name places =>
    "Class name '" ++ name ++ "' is declared more than once (" ++
      ", ".intercalate (places.map fun (path, line) => path ++ ":" ++ toString line) ++
      "); base lookups use the first declaration"

namespace Registry

/-- The records of all classes, or the error of the first class whose ancestors form a cycle. -/
def measureAll (r : Registry) : Except CyclicInheritance (List Record) := do
  let records ← r.toList.mapM (Record.measure r)
  return records.map (Record.withSubclasses r)

/-- One warning for each name that is declared more than once. -/
def duplicateWarnings (r : Registry) : List Warning :=
  r.duplicateNames.map fun name =>
    .duplicateName name ((r.declarationsOf name).map fun u => (u.file.path, u.line))

end Registry

/-- What an analysis of files comes to: its warnings, which are given even if it fails, and its
records. -/
structure Analysis where
  warnings : List Warning
  records : Except CyclicInheritance (List Record)

/-- Analyses the classes of some files. -/
def analyze (files : List SourceFile) : Analysis :=
  let r := Registry.build files
  { warnings := r.duplicateWarnings, records := r.measureAll }

end ClassGauge
