import ClassGauge.Registry

/-! # Depth of inheritance

The ancestors of a class are found by resolving bases by name, again and again. A base that does
not resolve ends the line. Since names need not be unique, a line can come back to a class that it
has already met; then there is no depth, and the error shows the line up to that class.
-/

namespace ClassGauge

/-- The line of ancestors came back to a class that it had met before. -/
structure CyclicInheritance where
  /-- The names of the classes from the start of the line to the one met again. -/
  chain : List String
  deriving DecidableEq, Repr

def CyclicInheritance.message (e : CyclicInheritance) : String :=
  "Cyclic inheritance detected: " ++ " -> ".intercalate e.chain

/-- The number of classes whose positions are not among `visited`. -/
def unvisited (r : Registry) (visited : List Nat) : Nat :=
  r.toList.countP fun u => !visited.contains u.id

/-- A class met for the first time is one class less to meet. -/
theorem unvisited_cons_lt {r : Registry} {visited : List Nat} {p : ClassUnit} (hp : p ∈ r.toList)
    (hnew : visited.contains p.id = false) :
    unvisited r (p.id :: visited) < unvisited r visited := by
  have hle : ∀ us : List ClassUnit, us.countP (fun u => !(p.id :: visited).contains u.id) ≤
      us.countP (fun u => !visited.contains u.id) := by
    intro us
    apply List.countP_mono_left
    intro u _ hu
    simp only [List.contains_cons, Bool.not_or, Bool.and_eq_true] at hu
    exact hu.2
  obtain ⟨before, after, hsplit⟩ := List.append_of_mem hp
  have hbefore := hle before
  have hafter := hle after
  have hself : (p.id :: visited).contains p.id = true := by simp
  rw [unvisited, unvisited, hsplit]
  simp only [List.countP_append, List.countP_cons, hself, hnew]
  simp only [Bool.not_true, Bool.not_false, Bool.false_eq_true, if_true, if_false]
  omega

/-- Counts the ancestors above `u`, which lies `depth` levels above the start of its line.
`visited` are the positions met so far and `chain` the names. -/
def climb (r : Registry) (visited : List Nat) (chain : List String) (u : ClassUnit) (depth : Nat) :
    Except CyclicInheritance Nat :=
  match hp : r.parent? u with
  | none => .ok depth
  | some p =>
    if hmet : visited.contains p.id then .error ⟨chain ++ [p.name]⟩
    else climb r (p.id :: visited) (chain ++ [p.name]) p (depth + 1)
termination_by unvisited r visited
decreasing_by exact unvisited_cons_lt (Registry.mem_of_parent? hp) (by simpa using hmet)

section Steps

variable {r : Registry} {u p : ClassUnit} {visited : List Nat} {chain : List String} {depth : Nat}

/-- A walk goes on at a parent that has not been met. -/
theorem climb_of_notMem (hp : r.parent? u = some p) (hnew : p.id ∉ visited) :
    climb r visited chain u depth =
      climb r (p.id :: visited) (chain ++ [p.name]) p (depth + 1) := by
  rw [climb]
  split
  · next hnone =>
    rw [hp] at hnone
    cases hnone
  · next q hq =>
    rw [hp] at hq
    cases hq
    exact dif_neg (by simpa using hnew)

/-- A walk fails at a parent that has been met. -/
theorem climb_of_mem (hp : r.parent? u = some p) (hmet : p.id ∈ visited) :
    climb r visited chain u depth = .error ⟨chain ++ [p.name]⟩ := by
  rw [climb]
  split
  · next hnone =>
    rw [hp] at hnone
    cases hnone
  · next q hq =>
    rw [hp] at hq
    cases hq
    exact dif_pos (by simpa using hmet)

end Steps

/-- The number of ancestors of a class. -/
def depthOfInheritance (r : Registry) (u : ClassUnit) : Except CyclicInheritance Nat :=
  climb r [u.id] [u.name] u 0

end ClassGauge
