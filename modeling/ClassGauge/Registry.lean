import ClassGauge.Syntax.SourceFile

/-! # The registry of classes

All classes of a run in the order in which they are declared. Names are simple names and may be
declared more than once; a look-up answers with the first declaration.

The registry keeps two tables beside the classes, both brought up to date by `Registry.register`:
the first declaration of each name, and for each base how many classes name it.
-/

namespace ClassGauge

open Syntax

/-- The name under which an anonymous class is known. -/
def unnamedClass : String := "Unnamed"

/-- A registered class: its own declarations, never inherited ones. -/
structure ClassUnit where
  /-- The position in the registry. -/
  id : Nat
  name : String
  /-- The base as it is written behind `extends`. -/
  base : Option String
  /-- The file that declares the class. -/
  file : SourceFile
  /-- The whole declaration. -/
  node : Node
  /-- The declared properties. -/
  fields : List FieldDecl
  /-- The methods, in order. -/
  methods : List Node
  /-- The constructor parameters that are properties too. -/
  promoted : List FieldDecl

namespace ClassUnit

/-- The unit of a class declaration at position `id`. -/
def ofDecl (id : Nat) (file : SourceFile) (c : ClassDecl) : ClassUnit where
  id := id
  name := c.name?.getD unnamedClass
  base := c.base?
  file := file
  node := c.statement
  fields := c.properties
  methods := c.methods
  promoted := c.promotedParameters

def fieldNames (u : ClassUnit) : List String :=
  u.fields.map FieldDecl.name

def line (u : ClassUnit) : Nat :=
  u.node.tree.line

end ClassUnit

/-- Adds one to the count of `key`. -/
def increment (key : String) : List (String × Nat) → List (String × Nat)
  | [] => [(key, 1)]
  | (k, n) :: counts => if k = key then (k, n + 1) :: counts else (k, n) :: increment key counts

/-- All classes of a run, with the tables that answer look-ups. -/
structure Registry where
  /-- The classes, each at the position that is its `id`. -/
  units : Array ClassUnit
  /-- The position of the first class of each name. -/
  firstByName : List (String × Nat)
  /-- How many classes name each base. -/
  subclassCounts : List (String × Nat)

namespace Registry

def empty : Registry := ⟨#[], [], []⟩

/-- Adds one class behind all others. -/
def register (r : Registry) (file : SourceFile) (c : ClassDecl) : Registry :=
  let unit := ClassUnit.ofDecl r.units.size file c
  { units := r.units.push unit
    firstByName :=
      if (r.firstByName.lookup unit.name).isSome then r.firstByName
      else (unit.name, unit.id) :: r.firstByName
    subclassCounts :=
      match unit.base with
      | some base => increment base r.subclassCounts
      | none => r.subclassCounts }

def registerFile (r : Registry) (file : SourceFile) : Registry :=
  file.classes.foldl (·.register file ·) r

/-- The registry of some files: file by file, and in each in the order of declaration. -/
def build (files : List SourceFile) : Registry :=
  files.foldl registerFile empty

def size (r : Registry) : Nat :=
  r.units.size

def isEmpty (r : Registry) : Bool :=
  r.units.isEmpty

/-- The classes in order. -/
def toList (r : Registry) : List ClassUnit :=
  r.units.toList

/-- The first class declared under `name`. -/
def resolve? (r : Registry) (name : String) : Option ClassUnit :=
  (r.firstByName.lookup name).bind (r.units[·]?)

/-- The class that the base of `u` resolves to. -/
def parent? (r : Registry) (u : ClassUnit) : Option ClassUnit :=
  u.base.bind r.resolve?

/-- A look-up answers with a class of the registry. -/
theorem mem_of_resolve? {r : Registry} {name : String} {u : ClassUnit}
    (h : r.resolve? name = some u) : u ∈ r.toList := by
  obtain ⟨i, _, hi⟩ := Option.bind_eq_some_iff.mp h
  exact Array.mem_toList_iff.mpr (Array.mem_of_getElem? hi)

theorem mem_of_parent? {r : Registry} {u p : ClassUnit} (h : r.parent? u = some p) :
    p ∈ r.toList := by
  obtain ⟨_, _, hb⟩ := Option.bind_eq_some_iff.mp h
  exact mem_of_resolve? hb

/-- The number of classes whose base is written as `name`. -/
def subclassCount (r : Registry) (name : String) : Nat :=
  (r.subclassCounts.lookup name).getD 0

/-- All classes declared under `name`, in order. -/
def declarationsOf (r : Registry) (name : String) : List ClassUnit :=
  r.toList.filter (·.name = name)

/-- The names declared more than once, in ascending order. -/
def duplicateNames (r : Registry) : List String :=
  let names := r.toList.map ClassUnit.name
  (names.eraseDups.filter fun n => names.count n > 1).mergeSort

end Registry

end ClassGauge
