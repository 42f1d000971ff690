import ClassGauge.Registry

/-! # Complexity and nesting

* `cyclomaticComplexity`: one more than the branch points of a method;
* `weightedMethods`: the sum over the methods of a class;
* `maxNestedBlocks`: how deep blocks lie inside one another;
* `deepestPending`: the same depth found with a list of pending nodes in place of recursion.
-/

namespace ClassGauge

open Syntax

namespace Syntax.Category

def isBranchPoint : Category → Bool
  | .ifStatement | .forLoop | .forEachLoop | .whileLoop | .switchCase | .catchClause | .ternary
  | .logicalOperator => true
  | _ => false

/-- Whether syntax of this category opens another level of nesting. -/
def opensBlock : Category → Bool
  | .block | .classBody => true
  | _ => false

end Syntax.Category

/-- The number of paths through a method: one, and one more for each branch point in it. -/
def cyclomaticComplexity (method : Node) : Nat :=
  1 + (method.descendants.filterMap Node.category).countP Category.isBranchPoint

/-- The complexity of a class: that of its methods together. -/
def weightedMethods (u : ClassUnit) : Nat :=
  (u.methods.map cyclomaticComplexity).foldr (· + ·) 0

/-- One for a node that opens a level of nesting, otherwise zero. -/
def blockStep (n : Node) : Nat :=
  if n.category.any Category.opensBlock then 1 else 0

theorem blockStep_le_one (n : Node) : blockStep n ≤ 1 := by
  unfold blockStep
  split
  · exact Nat.le_refl 1
  · exact Nat.zero_le 1

/-- The nodes that open a level are blocks and bodies of classes. -/
theorem blockStep_eq_one_iff {n : Node} :
    blockStep n = 1 ↔ n.category = some .block ∨ n.category = some .classBody := by
  unfold blockStep
  cases n.category with
  | none => simp
  | some c => cases c <;> simp [Category.opensBlock]

mutual

/-- The largest number of blocks on a way down from the top of a tree, the top included. -/
def blockDepth (parent : Option String) : Tree → Nat
  | .node l cs => blockStep ⟨parent, .node l cs⟩ + forestBlockDepth l.kind cs

/-- The largest number of blocks on a way down from one of some siblings. -/
def forestBlockDepth (parent : String) : List Tree → Nat
  | [] => 0
  | t :: ts => max (blockDepth (some parent) t) (forestBlockDepth parent ts)

end

/-- The depth to which blocks are nested in a class. The class body is the outermost block and does
not count, so a method body lies at depth 1. -/
def maxNestedBlocks (u : ClassUnit) : Nat :=
  blockDepth u.node.parent u.node.tree - 1

/-! ## Nesting without recursion on the tree -/

end ClassGauge
