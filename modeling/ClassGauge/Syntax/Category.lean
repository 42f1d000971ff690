import ClassGauge.Syntax.Tree

/-! # Categories of syntax

The categories in which the metrics count. A node has at most one: named nodes are told apart by
their kind, tokens by their text, and in three places the parent decides as well.

* `Node.category`: the category of a node;
* `Node.count`: how many nodes below a node have a given category.
-/

namespace ClassGauge.Syntax

/-- What the metrics count. -/
inductive Category where
  | identifier
  | call
  | returnStatement
  | ifStatement
  /-- A loop with the three clauses. -/
  | forLoop
  /-- A loop over the elements or keys of a value. -/
  | forEachLoop
  | whileLoop
  /-- A case of a switch; the default branch is none. -/
  | switchCase
  | catchClause
  | ternary
  | tryStatement
  /-- Parentheses around an expression. -/
  | parenthesized
  | stringLiteral
  | numberLiteral
  /-- A plain equals sign. -/
  | assignment
  /-- Equality and inequality, loose and strict. -/
  | comparison
  /-- Plus, minus, star and slash. -/
  | mathOperator
  /-- Logical and, logical or. -/
  | logicalOperator
  /-- Statements between braces. -/
  | block
  | classBody
  deriving DecidableEq, Repr

namespace Category

def all : List Category :=
  [.identifier, .call, .returnStatement, .ifStatement, .forLoop, .forEachLoop, .whileLoop,
    .switchCase, .catchClause, .ternary, .tryStatement, .parenthesized, .stringLiteral,
    .numberLiteral, .assignment, .comparison, .mathOperator, .logicalOperator, .block, .classBody]

theorem mem_all (c : Category) : c ∈ all := by
  cases c <;> decide

/-- Statements that put their condition between parentheses of their own. -/
def headerParents : List String :=
  ["if_statement", "while_statement", "do_statement", "switch_statement", "with_statement"]

/-- Nodes in which a slash is a delimiter and no division. -/
def slashDelimiterParents : List String :=
  ["regex", "jsx_closing_element", "jsx_self_closing_element"]

/-- Members whose name can be the word `constructor` without being a reference. -/
def constructorParents : List String :=
  ["method_definition", "method_signature"]

def ofToken (parent : Option String) : String → Option Category
  | "=" => some .assignment
  | "==" | "===" | "!=" | "!==" => some .comparison
  | "&&" | "||" => some .logicalOperator
  | "+" | "-" | "*" => some .mathOperator
  | "/" => if parent.any slashDelimiterParents.contains then none else some .mathOperator
  | _ => none

/-- The category of a named node, its use as the name of a constructor apart. -/
def ofNamed (parent : Option String) : String → Option Category
  | "identifier" | "property_identifier" | "type_identifier" | "shorthand_property_identifier"
  | "shorthand_property_identifier_pattern" | "statement_identifier" | "undefined" =>
    some .identifier
  | "call_expression" => some .call
  | "return_statement" => some .returnStatement
  | "if_statement" => some .ifStatement
  | "for_statement" => some .forLoop
  | "for_in_statement" => some .forEachLoop
  | "while_statement" => some .whileLoop
  | "switch_case" => some .switchCase
  | "catch_clause" => some .catchClause
  | "ternary_expression" => some .ternary
  | "try_statement" => some .tryStatement
  | "parenthesized_expression" =>
    if parent.any headerParents.contains then none else some .parenthesized
  | "string" => some .stringLiteral
  | "number" => some .numberLiteral
  | "statement_block" => some .block
  | "class_body" => some .classBody
  | _ => none

end Category

namespace Node

/-- Whether the node is the name of a constructor: a keyword there, not a reference. -/
def isConstructorName (n : Node) : Bool :=
  n.tree.kind = "property_identifier" && n.tree.text = "constructor" &&
    n.parent.any Category.constructorParents.contains

/-- The category of a node, if it has one. -/
def category (n : Node) : Option Category :=
  if n.tree.isToken then Category.ofToken n.parent n.tree.kind
  else if n.isConstructorName then none
  else Category.ofNamed n.parent n.tree.kind

/-- The number of nodes strictly below `n` in category `c`. -/
def count (n : Node) (c : Category) : Nat :=
  n.descendants.countP (·.category = some c)

/-- The texts of the identifiers strictly below `n`, in source order. -/
def identifiers (n : Node) : List String :=
  (n.descendants.filter (·.category = some .identifier)).map (·.tree.text)

/-- The function that a call names directly, as in `helper(x)`. A call of a member of something,
as in `log.info(x)`, names none. -/
def callTarget? (n : Node) : Option String :=
  if n.tree.kind = "call_expression" then
    match n.tree.child? .function with
    | some callee => if callee.kind = "identifier" then some callee.text else none
    | none => none
  else none

end Node

end ClassGauge.Syntax
