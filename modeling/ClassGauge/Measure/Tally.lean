import ClassGauge.Syntax.Category

/-! # Token tallies

Nine counters over everything below a node, filled in one walk.
-/

namespace ClassGauge

open Syntax

/-- How often some sorts of syntax occur. -/
structure Tally where
  returns : Nat
  /-- Loops of every form. -/
  loops : Nat
  comparisons : Nat
  tryCatches : Nat
  parenthesized : Nat
  stringLiterals : Nat
  numbers : Nat
  assignments : Nat
  mathOperations : Nat
  deriving DecidableEq, Repr

namespace Tally

def zero : Tally := ⟨0, 0, 0, 0, 0, 0, 0, 0, 0⟩

def record (t : Tally) : Category → Tally
  | .returnStatement => { t with returns := t.returns + 1 }
  | .forLoop | .forEachLoop | .whileLoop => { t with loops := t.loops + 1 }
  | .comparison => { t with comparisons := t.comparisons + 1 }
  | .tryStatement => { t with tryCatches := t.tryCatches + 1 }
  | .parenthesized => { t with parenthesized := t.parenthesized + 1 }
  | .stringLiteral => { t with stringLiterals := t.stringLiterals + 1 }
  | .numberLiteral => { t with numbers := t.numbers + 1 }
  | .assignment => { t with assignments := t.assignments + 1 }
  | .mathOperator => { t with mathOperations := t.mathOperations + 1 }
  | _ => t

def ofNode (n : Node) : Tally :=
  (n.descendants.filterMap Node.category).foldl record zero

end Tally

end ClassGauge
