import ClassGauge.Registry

/-! # Coupling

What a class refers to and what it can call. Both are counted by text: identifiers are not
resolved, so parameters and locals count like types from elsewhere.
-/

namespace ClassGauge

open Syntax

/-- The number of different identifiers in a class, its own name left out. -/
def couplingBetweenObjects (u : ClassUnit) : Nat :=
  (u.node.identifiers.filter (· ≠ u.name)).eraseDups.length

/-- The functions that the code of a class calls directly by name. -/
def directCallees (u : ClassUnit) : List String :=
  u.node.descendants.filterMap Node.callTarget?

/-- The number of methods and of different functions called directly. -/
def responseForClass (u : ClassUnit) : Nat :=
  (directCallees u).eraseDups.length + u.methods.length

/-- The number of fields: properties, and constructor parameters that are properties too. A name
in both lists counts twice. -/
def totalFields (u : ClassUnit) : Nat :=
  u.fields.length + u.promoted.length

end ClassGauge
