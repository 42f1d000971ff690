import ClassGauge.Syntax.Category
import ClassGauge.Text

/-! # Class declarations

A class declaration stands at the top level of a file, bare or inside `export` and `declare`
statements. This module finds it (`ClassDecl.ofStatement?`) and reads off it what it declares: its
name and base, its methods, its properties and the constructor parameters that are properties too.
Only the class's own members are looked at, never what is nested in them.
-/

namespace ClassGauge.Syntax

/-! ## Finding the class of a statement -/

def Tree.declaresClass (t : Tree) : Bool :=
  t.kind = "class_declaration" || t.kind = "abstract_class_declaration"

mutual

/-- The class that a statement declares: itself; the declaration of an export or else the class
expression that it exports as a value; the first class found below an ambient declaration. -/
def findClass : Tree → Option Tree
  | .node l cs =>
    if (Tree.node l cs).declaresClass then some (.node l cs)
    else if l.kind = "export_statement" then
      (findDeclared cs).or (((Tree.node l cs).child? .value).filter (·.kind = "class"))
    else if l.kind = "ambient_declaration" then findFirstClass cs
    else none

/-- The class of the first of some siblings that is its parent's declaration. -/
def findDeclared : List Tree → Option Tree
  | [] => none
  | t :: ts => if t.role = some .declaration then findClass t else findDeclared ts

/-- The first class that one of some siblings declares. -/
def findFirstClass : List Tree → Option Tree
  | [] => none
  | t :: ts => (findClass t).or (findFirstClass ts)

end

/-- A class declaration. -/
structure ClassDecl where
  /-- The whole statement, with `export`, `declare` and the decorators in front of them. -/
  statement : Node
  /-- The class itself. -/
  declaration : Tree

/-- The class that a statement declares, if it declares one. -/
def ClassDecl.ofStatement? (statement : Node) : Option ClassDecl :=
  (findClass statement.tree).map (⟨statement, ·⟩)

/-! ## Members -/

/-- The visibility of a member. -/
inductive Access where
  | publicAccess
  | protectedAccess
  | privateAccess
  deriving DecidableEq, Repr

namespace Access

def keyword : Access → String
  | .publicAccess => "public"
  | .protectedAccess => "protected"
  | .privateAccess => "private"

/-- The visibility that a keyword stands for, with white space around it or without. -/
def ofKeyword? (text : String) : Option Access :=
  match trim text with
  | "public" => some .publicAccess
  | "protected" => some .protectedAccess
  | "private" => some .privateAccess
  | _ => none

theorem ofKeyword?_eq_some_iff {text : String} {a : Access} :
    ofKeyword? text = some a ↔ trim text = a.keyword := by
  rw [ofKeyword?]
  cases a <;> split <;> simp_all [keyword]

theorem ofKeyword?_keyword (a : Access) : ofKeyword? a.keyword = some a :=
  ofKeyword?_eq_some_iff.mpr (by cases a <;> decide)

end Access

/-- A declared field. -/
structure FieldDecl where
  /-- Its name as written, empty if it has none. -/
  name : String
  /-- Its visibility, if one is written or implied. -/
  access : Option Access
  deriving DecidableEq, Repr

namespace Tree

/-- The text of the child that names a node. -/
def nameText? (t : Tree) : Option String :=
  (t.child? .name).map text

def isConstructor (t : Tree) : Bool :=
  t.nameText? = some "constructor"

def isAccessor (t : Tree) : Bool :=
  t.children.any fun c => c.isToken && (c.kind = "get" || c.kind = "set")

/-- The visibility written on a member or a parameter. -/
def access? (t : Tree) : Option Access :=
  (t.children.find? (·.kind = "accessibility_modifier")).bind (Access.ofKeyword? ·.text)

/-- Whether a parameter declares a property as well: it carries a visibility, `readonly` or
`override`. -/
def isParameterProperty (t : Tree) : Bool :=
  t.children.any fun c =>
    c.kind = "accessibility_modifier" || c.kind = "override_modifier" || c.kind = "readonly"

end Tree

/-- The members among `ms` that are methods, in order. Constructors and accessors are none. A
signature without a body is one only if it is the first of its name and nothing in the class
implements that name; `implemented` are the names that are implemented and `seen` those of the
signatures taken so far. -/
def selectMethods (implemented : List String) : List String → List Tree → List Tree
  | _, [] => []
  | seen, m :: ms =>
    match m.kind with
    | "method_definition" =>
      if m.isConstructor || m.isAccessor then selectMethods implemented seen ms
      else m :: selectMethods implemented seen ms
    | "abstract_method_signature" =>
      if m.isAccessor then selectMethods implemented seen ms
      else m :: selectMethods implemented seen ms
    | "method_signature" =>
      match m.nameText? with
      | some name =>
        if m.isAccessor || name = "constructor" || implemented.contains name || seen.contains name
        then selectMethods implemented seen ms
        else m :: selectMethods implemented (name :: seen) ms
      | none => selectMethods implemented seen ms
    | _ => selectMethods implemented seen ms

namespace ClassDecl

/-- The name of the class, `none` if it is anonymous. -/
def name? (c : ClassDecl) : Option String :=
  c.declaration.nameText?

/-- The text of the first `extends` expression, without type arguments. -/
def base? (c : ClassDecl) : Option String :=
  let heritages := c.declaration.children.filter (·.kind = "class_heritage")
  let clause? := (heritages.flatMap Tree.children).find? (·.kind = "extends_clause")
  (clause?.bind (·.child? .value)).map Tree.text

def body? (c : ClassDecl) : Option Tree :=
  c.declaration.child? .body

/-- The members of the class: everything directly below its body. -/
def members (c : ClassDecl) : List Tree :=
  (c.body?.map Tree.children).getD []

def implementedNames (c : ClassDecl) : List String :=
  (c.members.filter (·.kind = "method_definition")).filterMap Tree.nameText?

/-- The methods of the class, in order. -/
def methods (c : ClassDecl) : List Node :=
  (selectMethods c.implementedNames [] c.members).map (⟨c.body?.map Tree.kind, ·⟩)

/-- The properties of the class, in order. -/
def properties (c : ClassDecl) : List FieldDecl :=
  (c.members.filter (·.kind = "public_field_definition")).map fun m =>
    ⟨m.nameText?.getD "", m.access?⟩

/-- The constructor parameters that are properties too, in order; without a written visibility
they are public. -/
def promotedParameters (c : ClassDecl) : List FieldDecl :=
  let constructors :=
    c.members.filter fun m => m.kind = "method_definition" && m.isConstructor
  let parameters := (constructors.filterMap (·.child? .parameters)).flatMap Tree.children
  let promoted := parameters.filter fun p =>
    (p.kind = "required_parameter" || p.kind = "optional_parameter") && p.isParameterProperty
  promoted.map fun p =>
    ⟨((p.child? .pattern).map Tree.text).getD "", some (p.access?.getD .publicAccess)⟩

end ClassDecl

end ClassGauge.Syntax
