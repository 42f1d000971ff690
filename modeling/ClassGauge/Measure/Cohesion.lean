import ClassGauge.Registry

/-! # Cohesion

Two methods of a class belong together if both mention a property of the class by name. The lack of
cohesion is the number of pairs of methods that share no property, less the number of pairs that
share one, and never below zero. Mentions are recognised by name alone, so a parameter that is
named like a property counts as one.
-/

namespace ClassGauge

open Syntax

/-- The names of properties, out of `fields`, that a method mentions. -/
def fieldsMentioned (fields : List String) (method : Node) : List String :=
  (method.identifiers.filter fields.contains).eraseDups

/-- Whether two lists have a member in common. -/
def overlap (xs ys : List String) : Bool :=
  xs.any ys.contains

/-- The pairs of members of a list, each taken once, the earlier member first. -/
def pairs {α : Type} : List α → List (α × α)
  | [] => []
  | x :: xs => xs.map (x, ·) ++ pairs xs

/-- The number of pairs of lists that have a member in common. -/
def sharingPairs (mentions : List (List String)) : Nat :=
  (pairs mentions).countP fun (xs, ys) => overlap xs ys

/-- The number of pairs of lists that have no member in common. -/
def disjointPairs (mentions : List (List String)) : Nat :=
  (pairs mentions).countP fun (xs, ys) => !overlap xs ys

/-- The properties that each method of a class mentions. -/
def mentions (u : ClassUnit) : List (List String) :=
  u.methods.map (fieldsMentioned u.fieldNames)

/-- The lack of cohesion in the methods of a class. -/
def lackOfCohesion (u : ClassUnit) : Nat :=
  disjointPairs (mentions u) - sharingPairs (mentions u)

end ClassGauge
