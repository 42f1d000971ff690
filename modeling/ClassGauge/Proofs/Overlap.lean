import ClassGauge.Measure.Complexity
import ClassGauge.Proofs.Registry
import ClassGauge.Proofs.Syntax.Position

/-! # Classes and methods do not overlap

Each class of a file is measured by a walk through its statement, and each method by a walk of its
own. The classes stand side by side in the file, and the methods side by side in the body of their
class, so no two of these walks have a node in common.

* `flatMap_walk_statements_sublist`, `flatMap_walk_methods_sublist`: the walks through the classes
  of a file, and through the methods of a class, are parts of one walk through all of it;
* `branchPoints`, `weightedMethods_le`: what the methods of a class can weigh together;
* `nodes_counted_once`: sums over classes and over methods count no node twice.
-/

namespace ClassGauge

open Syntax

/-! ## The classes of a file -/

/-- The statements of the classes are some of the statements of the file, in their order. -/
theorem statements_sublist (f : SourceFile) :
    (f.classes.map ClassDecl.statement).Sublist f.rootNode.children := by
  rw [SourceFile.classes]
  induction f.rootNode.children with
  | nil => exact List.Sublist.refl _
  | cons s ss ih =>
    cases hs : ClassDecl.ofStatement? s with
    | none =>
      rw [List.filterMap_cons_none hs]
      exact ih.cons s
    | some c =>
      have hstatement : c.statement = s := by
        obtain ⟨d, _, rfl⟩ := Option.map_eq_some_iff.mp hs
        rfl
      rw [List.filterMap_cons_some hs, List.map_cons, hstatement]
      exact ih.cons_cons s

/-- Walks through the classes, laid end to end, are part of the walk through the file. -/
theorem flatMap_walk_statements_sublist (f : SourceFile) :
    ((f.classes.map ClassDecl.statement).flatMap Node.walk).Sublist f.rootNode.descendants :=
  Node.flatMap_walk_sublist (statements_sublist f)

/-! ## The methods of a class -/

section Methods

variable {c : ClassDecl} (hc : findClass c.statement.tree = some c.declaration)

include hc

/-- Walks through the methods, laid end to end, are part of the walk through the class. -/
theorem flatMap_walk_methods_sublist :
    (c.methods.flatMap Node.walk).Sublist c.statement.descendants := by
  cases hbody : c.body? with
  | none =>
    rw [ClassDecl.methods_eq_nil hbody]
    exact List.nil_sublist _
  | some body =>
    obtain ⟨p, i, n, hn, rfl⟩ := ClassDecl.exists_bodyAt hc hbody
    have hmethods : c.methods.Sublist n.children :=
      ClassDecl.methods_sublist_children hbody n.parent
    exact (Node.flatMap_walk_sublist hmethods).trans (Node.descendants_sublist_of_at? hn.at_eq)

/-- The methods stand at positions below the statement that are apart. -/
theorem exists_positions_methods :
    ∃ ps : List Position, List.Forall₂ (fun p m => c.statement.at? p = some m) ps c.methods ∧
      (∀ p ∈ ps, p ≠ []) ∧ ps.Pairwise Apart := by
  cases hbody : c.body? with
  | none =>
    rw [ClassDecl.methods_eq_nil hbody]
    exact ⟨[], .nil, by simp, .nil⟩
  | some body =>
    obtain ⟨p, i, n, hn, rfl⟩ := ClassDecl.exists_bodyAt hc hbody
    have hmethods : c.methods.Sublist n.children :=
      ClassDecl.methods_sublist_children hbody n.parent
    obtain ⟨ps, hps, hne, hapart⟩ := Node.exists_positions_of_sublist hmethods
    -- The same positions, seen from the statement and no longer from the body.
    refine ⟨ps.map ((p ++ [i]) ++ ·), ?_, ?_, ?_⟩
    · rw [List.forall₂_map_left_iff]
      refine hps.imp ?_
      intro q m hm
      rw [Node.at?_append, hn.at_eq]
      exact hm
    · intro q hq
      obtain ⟨r, hr, rfl⟩ := List.mem_map.mp hq
      exact List.append_ne_nil_of_right_ne_nil (p ++ [i]) (hne r hr)
    · rw [List.pairwise_map]
      refine hapart.imp ?_
      intro q r h
      exact Apart.append_left h (p ++ [i])

end Methods

/-! ## Branch points -/

def branchPoints (n : Node) : Nat :=
  n.descendants.countP fun m => m.category.any Category.isBranchPoint

theorem cyclomaticComplexity_eq_branchPoints (m : Node) :
    cyclomaticComplexity m = 1 + branchPoints m := by
  rw [cyclomaticComplexity, branchPoints, List.countP_filterMap]
  congr 2
  funext n
  cases n.category with
  | none => rfl
  | some c => rfl

theorem sum_map_cyclomaticComplexity (ms : List Node) :
    (ms.map cyclomaticComplexity).sum = ms.length + (ms.map branchPoints).sum := by
  induction ms with
  | nil => rfl
  | cons m ms ih =>
    rw [List.map_cons, List.map_cons, List.sum_cons, List.sum_cons, ih, cyclomaticComplexity_eq_branchPoints,
      List.length_cons]
    omega

theorem weightedMethods_eq_sum (u : ClassUnit) :
    weightedMethods u = (u.methods.map cyclomaticComplexity).sum := rfl

/-- Methods weigh one each, and one more for every branch point of the class at most. -/
theorem weightedMethods_le {u : ClassUnit}
    (h : (u.methods.flatMap Node.walk).Sublist u.node.descendants) :
    weightedMethods u ≤ u.methods.length + branchPoints u.node := by
  have hbranch : (u.methods.map branchPoints).sum ≤ branchPoints u.node :=
    Node.sum_countP_le h _
  rw [weightedMethods_eq_sum, sum_map_cyclomaticComplexity]
  omega

/-! ## Sums over classes and methods -/

/-- No node is counted twice. The classes of a file together have at most as many nodes of a
category below them as the file has. In a class the methods stand at positions below the statement
of which none is another or lies below another; together they have at most as many nodes of a
category below them as the class has, and so the class weighs at most its number of methods and its
number of branch points together. -/
theorem nodes_counted_once (f : SourceFile) :
    (∀ cat, (f.classes.map fun c => c.statement.count cat).sum ≤ f.rootNode.count cat) ∧
    ∀ c ∈ f.classes,
      (∃ ps : List Position, List.Forall₂ (fun p m => c.statement.at? p = some m) ps c.methods ∧
        (∀ p ∈ ps, p ≠ []) ∧ ps.Nodup ∧ ps.Pairwise Apart) ∧
      (∀ cat, (c.methods.map fun m => m.count cat).sum ≤ c.statement.count cat) ∧
      ∀ i, weightedMethods (ClassUnit.ofDecl i f c) ≤
        (ClassUnit.ofDecl i f c).methods.length + branchPoints c.statement := by
  constructor
  · intro cat
    -- The statements of the classes stand side by side below the root.
    have h := Node.sum_countP_le (flatMap_walk_statements_sublist f) (·.category = some cat)
    rw [List.map_map] at h
    exact h
  · intro c hc
    have hclass := findClass_of_mem_classes hc
    have hwalk := flatMap_walk_methods_sublist hclass
    -- So do the methods in the body of one class.
    obtain ⟨ps, hps, hne, hapart⟩ := exists_positions_methods hclass
    refine ⟨⟨ps, hps, hne, hapart.imp Apart.ne, hapart⟩, ?_, ?_⟩
    · intro cat
      exact Node.sum_countP_le hwalk _
    · intro i
      exact weightedMethods_le hwalk

/-- A file with an exported class of two methods that are the same in every respect but their
position, each with a branch point in it, and one more branch point behind the class. -/
def twins : SourceFile :=
  let node (kind : String) (role : Option Role) (cs : List Tree) : Tree :=
    .node ⟨kind, true, role, 1, kind⟩ cs
  let branch := node "if_statement" none []
  let method := node "method_definition" none
    [node "property_identifier" (some .name) [], node "statement_block" (some .body) [branch]]
  let declaration := node "class_declaration" (some .declaration)
    [node "type_identifier" (some .name) [], node "class_body" (some .body) [method, method]]
  { path := "twins.ts", source := "", malformed := false
    root := node "program" none [node "export_statement" none [declaration], branch] }

/-- The two methods stand at different positions, and each branch point counts once: the methods
weigh as much as they can. -/
theorem nodes_counted_once_twins :
    ∃ c m, twins.classes = [c] ∧ c.methods = [m, m] ∧
      (∃ p q, c.statement.at? p = some m ∧ c.statement.at? q = some m ∧ Apart p q) ∧
      m.count .ifStatement + m.count .ifStatement ≤ c.statement.count .ifStatement ∧
      weightedMethods (ClassUnit.ofDecl 0 twins c) = 4 ∧
      weightedMethods (ClassUnit.ofDecl 0 twins c) ≤ 2 + branchPoints c.statement := by
  have hall := (nodes_counted_once twins).2 _ List.mem_cons_self
  obtain ⟨⟨ps, hps, _, _, hapart⟩, hcount, hweight⟩ := hall
  refine ⟨_, _, rfl, rfl, ?_, hcount .ifStatement, rfl, hweight 0⟩
  cases hps with
  | cons hp hrest =>
    cases hrest with
    | cons hq _ =>
      exact ⟨_, _, hp, hq, (List.pairwise_cons.mp hapart).1 _ List.mem_cons_self⟩

end ClassGauge
