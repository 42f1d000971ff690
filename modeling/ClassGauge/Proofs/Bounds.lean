import Mathlib.Algebra.Order.BigOperators.Group.List
import Mathlib.Algebra.Order.Group.Nat
import ClassGauge.Proofs.Analysis
import ClassGauge.Proofs.Cohesion
import ClassGauge.Proofs.Forest
import ClassGauge.Proofs.Overlap
import ClassGauge.Proofs.Syntax.Methods

/-! # How large a metric can be

Whatever is counted for a class is counted by nodes below its statement, and no node is counted twice
for one number: a method pays with its own node for the one that it weighs without branch points,
and methods, properties, parameters and calls are nodes of different kinds. So no number is larger
than that of the nodes, pairs of methods apart, of which there are only so many.

* `Tree.subtrees`, `length_le_countP`: what stands below a tree, and how much of some kinds there is;
* `members_sublist`, `parameters_sublist`: where members and the parameters of members stand;
* `Tally.sum_ofNode_le`, `blockDepth_le`: counters and depths against the nodes of a walk;
* `ClassUnit.counters`: all numbers that are counted below the statement of a class;
* `measures_le_nodes`: the bounds of all metrics.
-/

namespace ClassGauge

open Syntax Registry

/-! ## Trees below a tree -/

namespace Syntax.Tree

/-- Every tree strictly below a tree, in pre-order. -/
def subtrees (t : Tree) : List Tree :=
  t.descendants.map Node.tree

/-- Whether the top of a tree is of one of some kinds. -/
def hasKind (kinds : List String) (t : Tree) : Bool :=
  kinds.contains t.kind

variable {s t : Tree}

theorem subtrees_eq_flatMap (t : Tree) :
    t.subtrees = t.children.flatMap fun s => s :: s.subtrees := by
  have hwalk : t.descendants = _ := Node.descendants_eq_flatMap_walk ⟨none, t⟩
  rw [subtrees, hwalk, List.map_flatMap, Node.children, List.flatMap_map]
  rfl

theorem sublist_flatMap_subtrees (ts : List Tree) :
    ts.Sublist (ts.flatMap fun s => s :: s.subtrees) := by
  induction ts with
  | nil => exact List.Sublist.refl _
  | cons s ss ih => exact (ih.trans (List.sublist_append_right _ _)).cons_cons s

theorem children_sublist_subtrees (t : Tree) : t.children.Sublist t.subtrees := by
  rw [subtrees_eq_flatMap]
  exact sublist_flatMap_subtrees t.children

theorem subtrees_sublist_of_mem (h : s ∈ t.children) : s.subtrees.Sublist t.subtrees := by
  have hwalk := Node.walk_sublist_of_mem_children (Node.mem_children_of_mem none h)
  exact (List.sublist_cons_self _ _).trans (hwalk.map Node.tree)

end Syntax.Tree

/-- What is picked from a list by a test is no more than there is of its sort. -/
theorem length_le_countP {α : Type} {p : α → Bool} {xs ys : List α} (h : xs.Sublist ys)
    (hp : ∀ x ∈ xs, p x = true) : xs.length ≤ ys.countP p := by
  calc xs.length
    _ = xs.countP p := (List.countP_eq_length.mpr hp).symm
    _ ≤ ys.countP p := h.countP_le

/-- Trees of different kinds are different trees. -/
theorem countP_hasKind_append {kinds kinds' : List String} (h : ∀ k ∈ kinds, k ∉ kinds')
    (ts : List Tree) : ts.countP (Tree.hasKind (kinds ++ kinds')) =
      ts.countP (Tree.hasKind kinds) + ts.countP (Tree.hasKind kinds') := by
  rw [← countP_or_of_disjoint]
  · apply List.countP_congr
    intro t _
    simp [Tree.hasKind]
  · intro t _ ht
    have hkind : t.kind ∈ kinds := by simpa [Tree.hasKind] using ht
    simpa [Tree.hasKind] using h t.kind hkind

/-! ## Members and parameters -/

section Members

variable {c : ClassDecl} (hc : findClass c.statement.tree = some c.declaration)

def methodKinds : List String :=
  ["method_definition", "abstract_method_signature", "method_signature"]

def propertyKinds : List String := ["public_field_definition"]

def parameterKinds : List String := ["required_parameter", "optional_parameter"]

/-- The parameters of the members `ms`, without those of members that have none. -/
def parametersOf (ms : List Tree) : List Tree :=
  (ms.filterMap (·.child? .parameters)).flatMap Tree.children

theorem parametersOf_sublist (ms : List Tree) :
    (parametersOf ms).Sublist (ms.flatMap Tree.subtrees) := by
  induction ms with
  | nil => exact List.Sublist.refl _
  | cons m ms ih =>
    rw [parametersOf, List.filterMap_cons, List.flatMap_cons]
    cases hp : m.child? .parameters with
    | none =>
      exact ih.trans (List.sublist_append_right _ _)
    | some p =>
      have hpm : p.children.Sublist m.subtrees :=
        p.children_sublist_subtrees.trans
          (Tree.subtrees_sublist_of_mem (mem_children_of_child? hp))
      exact hpm.append ih

include hc

/-- The members of a class, and all that stands below them, stand below its statement. -/
theorem flatMap_members_sublist :
    (c.members.flatMap fun m => m :: m.subtrees).Sublist c.statement.tree.subtrees := by
  cases h : c.body? with
  | none =>
    rw [ClassDecl.members, h]
    exact List.nil_sublist _
  | some body =>
    rcases ClassDecl.exists_bodyAt hc h with ⟨p, i, n, hn, rfl⟩
    have hbody := (Node.descendants_sublist_of_at? hn.at_eq).map Node.tree
    rw [ClassDecl.members, h]
    exact n.tree.subtrees_eq_flatMap ▸ hbody

theorem members_sublist : c.members.Sublist c.statement.tree.subtrees :=
  (Tree.sublist_flatMap_subtrees _).trans (flatMap_members_sublist hc)

theorem parameters_sublist {ms : List Tree} (hms : ms.Sublist c.members) :
    (parametersOf ms).Sublist c.statement.tree.subtrees := by
  have hbelow : (c.members.flatMap Tree.subtrees).Sublist
      (c.members.flatMap fun m => m :: m.subtrees) :=
    List.Sublist.flatMap_right _ fun m _ => List.sublist_cons_self m _
  exact (parametersOf_sublist ms).trans
    ((hms.flatMap Tree.subtrees).trans (hbelow.trans (flatMap_members_sublist hc)))

/-- There are no more methods than nodes of these three kinds. -/
theorem length_methods_le : c.methods.length ≤
    c.statement.tree.subtrees.countP (Tree.hasKind methodKinds) := by
  rw [ClassDecl.methods, List.length_map]
  apply length_le_countP ((selectMethods_sublist _ _ _).trans (members_sublist hc))
  intro m hm
  rcases isMethod_of_mem_selectMethods hm with h | h | ⟨_, h, _⟩
  · simp [Tree.hasKind, methodKinds, h.1]
  · simp [Tree.hasKind, methodKinds, h.1]
  · simp [Tree.hasKind, methodKinds, h.kind_eq]

theorem length_properties_le : c.properties.length ≤
    c.statement.tree.subtrees.countP (Tree.hasKind propertyKinds) := by
  rw [ClassDecl.properties, List.length_map]
  apply length_le_countP (List.filter_sublist.trans (members_sublist hc))
  intro m hm
  simpa [Tree.hasKind, propertyKinds] using (List.mem_filter.mp hm).2

theorem length_promotedParameters_le : c.promotedParameters.length ≤
    c.statement.tree.subtrees.countP (Tree.hasKind parameterKinds) := by
  rw [ClassDecl.promotedParameters, List.length_map]
  apply length_le_countP (List.filter_sublist.trans (parameters_sublist hc List.filter_sublist))
  intro m hm
  have hkind := (List.mem_filter.mp hm).2
  simp only [Bool.and_eq_true, Bool.or_eq_true, decide_eq_true_eq] at hkind
  simpa [Tree.hasKind, parameterKinds] using hkind.1

end Members

/-! ## Calls, identifiers and counters -/

/-- Different functions are called by different calls. -/
theorem length_directCallees_le (u : ClassUnit) : (directCallees u).eraseDups.length ≤
    u.node.tree.subtrees.countP (Tree.hasKind ["call_expression"]) := by
  refine (length_eraseDups_le _).trans ?_
  rw [directCallees, List.length_filterMap_eq_countP, Tree.subtrees, List.countP_map]
  apply List.countP_mono_left
  intro n _ hn
  unfold Node.callTarget? at hn
  split at hn
  · next hkind => simp [Tree.hasKind, hkind]
  · cases hn

theorem couplingBetweenObjects_le (u : ClassUnit) :
    couplingBetweenObjects u ≤ u.node.descendants.length := by
  refine (length_eraseDups_le _).trans ((List.length_filter_le _ _).trans ?_)
  rw [Node.identifiers, List.length_map]
  exact List.length_filter_le _ _

namespace Tally

def sum (t : Tally) : Nat :=
  t.returns + t.loops + t.comparisons + t.tryCatches + t.parenthesized + t.stringLiterals +
    t.numbers + t.assignments + t.mathOperations

/-- A node counts for one counter at most. -/
theorem sum_record_le (t : Tally) (c : Category) : (t.record c).sum ≤ t.sum + 1 := by
  cases c <;> simp only [record, sum] <;> omega

theorem sum_foldl_record_le (t : Tally) (cs : List Category) :
    (cs.foldl record t).sum ≤ t.sum + cs.length := by
  induction cs generalizing t with
  | nil => exact Nat.le_refl _
  | cons c cs ih =>
    have hstep := sum_record_le t c
    have hrest := ih (t.record c)
    rw [List.foldl_cons, List.length_cons]
    omega

theorem sum_ofNode_le (n : Node) : (ofNode n).sum ≤ n.descendants.length := by
  have hwalk := sum_foldl_record_le zero (n.descendants.filterMap Node.category)
  have hlength := List.length_filterMap_le Node.category n.descendants
  rw [show zero.sum = 0 from rfl] at hwalk
  rw [ofNode]
  omega

end Tally

/-! ## Weight and depth -/

theorem cyclomaticComplexity_le (m : Node) : cyclomaticComplexity m ≤ m.walk.length := by
  have hbranch : branchPoints m ≤ m.descendants.length := List.countP_le_length
  rw [cyclomaticComplexity_eq_branchPoints, Node.walk, List.length_cons]
  omega

/-- Methods weigh together no more than their walks, laid end to end, have nodes. -/
theorem sum_cyclomaticComplexity_le (ms : List Node) :
    (ms.map cyclomaticComplexity).sum ≤ (ms.flatMap Node.walk).length := by
  induction ms with
  | nil => exact Nat.le_refl _
  | cons m ms ih =>
    rw [List.map_cons, List.sum_cons, List.flatMap_cons, List.length_append]
    exact Nat.add_le_add (cyclomaticComplexity_le m) ih

mutual

/-- A way down passes each node once at most. -/
theorem blockDepth_le (parent : Option String) (t : Tree) :
    blockDepth parent t ≤ t.descendants.length + 1 :=
  match t with
  | .node l cs => by
    have hstep := blockStep_le_one ⟨parent, .node l cs⟩
    have hbelow := forestBlockDepth_le l.kind cs
    rw [blockDepth, Tree.descendants]
    omega

theorem forestBlockDepth_le (parent : String) (ts : List Tree) :
    forestBlockDepth parent ts ≤ (forestNodes parent ts).length :=
  match ts with
  | [] => Nat.le_refl 0
  | t :: ts => by
    have htop := blockDepth_le (some parent) t
    have hrest := forestBlockDepth_le parent ts
    rw [forestBlockDepth, forestNodes_cons, List.length_cons, List.length_append]
    omega

end

/-! ## Lines, words and classes -/

theorem lineCount_le (f : SourceFile) : f.lineCount ≤ f.source.length + 1 := by
  rw [SourceFile.lineCount, ← String.length_toList]
  exact Nat.succ_le_succ List.count_le_length

/-- A word has at least one character. -/
theorem length_scanWords_le (run : List Char) (found : List String) (cs : List Char) :
    (scanWords run found cs).length ≤ found.length + run.length + cs.length := by
  have hclose : ∀ (run : List Char) (found : List String),
      (closeRun run found).length ≤ found.length + run.length := by
    intro run found
    cases run with
    | nil => exact Nat.le_refl _
    | cons c run =>
      show found.length + 1 ≤ found.length + (run.length + 1)
      omega
  -- A character prolongs the open run or closes it, and neither adds more than one to the whole.
  induction cs generalizing run found with
  | nil => exact hclose run found
  | cons c cs ih =>
    unfold scanWords
    split
    · have hrest := ih (c :: run) found
      rw [List.length_cons] at hrest ⊢
      omega
    · have hrest := ih [] (closeRun run found)
      have hrun := hclose run found
      rw [List.length_nil] at hrest
      rw [List.length_cons]
      omega

theorem uniqueWords_le (text : String) : uniqueWords text ≤ text.length := by
  have hscan := length_scanWords_le [] [] text.toList
  rw [String.length_toList] at hscan
  exact (length_eraseDups_le _).trans (by simpa [words] using hscan)

/-- Every class of a file is a node of its tree. -/
theorem size_build_le (files : List SourceFile) :
    (build files).size ≤ (files.map fun f => f.rootNode.descendants.length).sum := by
  -- Each class of a file is found in a statement, and statements are nodes below the root.
  have hfile : ∀ f : SourceFile, f.classes.length ≤ f.rootNode.descendants.length := by
    intro f
    have hstatements := (statements_sublist f).length_le
    have hnodes := f.root.children_sublist_subtrees.length_le
    rw [List.length_map] at hstatements
    rw [Tree.subtrees, List.length_map] at hnodes
    have hchildren : f.rootNode.children.length = f.root.children.length := by
      rw [Node.children, List.length_map]
      rfl
    exact hstatements.trans (hchildren ▸ hnodes)
  rw [← length_toList, toList_build, List.length_mapIdx, declarations]
  induction files with
  | nil => exact Nat.le_refl _
  | cons f fs ih =>
    rw [List.flatMap_cons, List.length_append, List.length_map, List.map_cons, List.sum_cons]
    exact Nat.add_le_add (hfile f) ih

/-! ## All metrics of a class -/

/-- All numbers that are counted or summed up below the statement of a class for its record. -/
def ClassUnit.counters (u : ClassUnit) : List Nat :=
  let tally := Tally.ofNode u.node
  u.methods.map cyclomaticComplexity ++
    [weightedMethods u, couplingBetweenObjects u, (directCallees u).eraseDups.length,
      responseForClass u, u.methods.length, u.fields.length, u.promoted.length, totalFields u,
      sharingPairs (mentions u), disjointPairs (mentions u), lackOfCohesion u,
      blockDepth u.node.parent u.node.tree, maxNestedBlocks u, tally.returns, tally.loops,
      tally.comparisons, tally.tryCatches, tally.parenthesized, tally.stringLiterals,
      tally.numbers, tally.assignments, tally.mathOperations]

section Class

variable {c : ClassDecl} (hc : findClass c.statement.tree = some c.declaration) (i : Nat)
  (f : SourceFile)

include hc

/-- The weight of a class is paid for by the nodes of its methods. -/
theorem weightedMethods_le_nodes :
    weightedMethods (ClassUnit.ofDecl i f c) ≤ c.statement.descendants.length :=
  (sum_cyclomaticComplexity_le c.methods).trans (flatMap_walk_methods_sublist hc).length_le

/-- A method is no call. -/
theorem responseForClass_le :
    responseForClass (ClassUnit.ofDecl i f c) ≤ c.statement.descendants.length := by
  have hcalls := length_directCallees_le (ClassUnit.ofDecl i f c)
  have hmethods := length_methods_le hc
  have hkinds : ∀ ts : List Tree, ts.countP (Tree.hasKind (["call_expression"] ++ methodKinds)) =
      ts.countP (Tree.hasKind ["call_expression"]) + ts.countP (Tree.hasKind methodKinds) :=
    countP_hasKind_append (by decide)
  calc responseForClass (ClassUnit.ofDecl i f c)
    _ ≤ _ := Nat.add_le_add hcalls hmethods
    _ = _ := (hkinds _).symm
    _ ≤ c.statement.tree.subtrees.length := List.countP_le_length
    _ = c.statement.descendants.length := List.length_map _

/-- Methods, properties and parameters are of different kinds. -/
theorem methods_add_totalFields_le :
    (ClassUnit.ofDecl i f c).methods.length + totalFields (ClassUnit.ofDecl i f c) ≤
      c.statement.descendants.length := by
  have hmethods := length_methods_le hc
  have hproperties := length_properties_le hc
  have hpromoted := length_promotedParameters_le hc
  -- Methods, properties and parameters are of different kinds, so that no node counts twice.
  have hkinds : ∀ ts : List Tree,
      ts.countP (Tree.hasKind (methodKinds ++ (propertyKinds ++ parameterKinds))) =
        ts.countP (Tree.hasKind methodKinds) +
          (ts.countP (Tree.hasKind propertyKinds) + ts.countP (Tree.hasKind parameterKinds)) := by
    intro ts
    rw [countP_hasKind_append (by decide), countP_hasKind_append (by decide)]
  calc (ClassUnit.ofDecl i f c).methods.length + totalFields (ClassUnit.ofDecl i f c)
    _ ≤ _ := Nat.add_le_add hmethods (Nat.add_le_add hproperties hpromoted)
    _ = _ := (hkinds _).symm
    _ ≤ c.statement.tree.subtrees.length := List.countP_le_length
    _ = c.statement.descendants.length := List.length_map _

end Class

/-- Neither sort of pairs is more than all pairs. -/
theorem pairs_le (u : ClassUnit) :
    lackOfCohesion u ≤ u.methods.length * (u.methods.length - 1) / 2 ∧
      sharingPairs (mentions u) ≤ u.methods.length * (u.methods.length - 1) / 2 ∧
      disjointPairs (mentions u) ≤ u.methods.length * (u.methods.length - 1) / 2 := by
  have hpairs := disjointPairs_add_sharingPairs u
  rw [Nat.choose_two_right] at hpairs
  unfold lackOfCohesion
  omega

/-- What is counted below the statement of a class is no more than the nodes there. -/
structure ClassUnit.WithinNodes (u : ClassUnit) : Prop where
  weight : weightedMethods u ≤ u.node.descendants.length
  response : responseForClass u ≤ u.node.descendants.length
  coupling : couplingBetweenObjects u ≤ u.node.descendants.length
  members : u.methods.length + totalFields u ≤ u.node.descendants.length
  tally : (Tally.ofNode u.node).sum ≤ u.node.descendants.length
  depth : blockDepth u.node.parent u.node.tree ≤ u.node.walk.length

theorem withinNodes_of_mem_build {files : List SourceFile} {u : ClassUnit}
    (hu : u ∈ (build files).toList) : u.WithinNodes := by
  obtain ⟨i, f, c, _, hmem, rfl⟩ := exists_decl_of_mem_build hu
  have hc := findClass_of_mem_classes hmem
  exact ⟨weightedMethods_le_nodes hc i f, responseForClass_le hc i f, couplingBetweenObjects_le _,
    methods_add_totalFields_le hc i f, Tally.sum_ofNode_le _, blockDepth_le _ _⟩

/-- Every number that is counted for a class is at most the number of nodes of its statement, or at
most the number of pairs of its methods. -/
theorem ClassUnit.WithinNodes.counters_le {u : ClassUnit} (h : u.WithinNodes) :
    ∀ n ∈ u.counters, n ≤ u.node.walk.length ∨
      n ≤ u.methods.length * (u.methods.length - 1) / 2 := by
  rcases h with ⟨hweight, hresponse, hcoupling, hmembers, htally, hdepth⟩
  have hpairs := pairs_le u
  have hwalk : u.node.walk.length = u.node.descendants.length + 1 := List.length_cons
  rw [ClassUnit.counters, List.forall_mem_append]
  constructor
  · intro n hn
    have hle : n ≤ weightedMethods u := List.le_sum_of_mem hn
    exact Or.inl (by omega)
  · generalize u.methods.length * (u.methods.length - 1) / 2 = pairs at *
    simp only [responseForClass, totalFields, Tally.sum, maxNestedBlocks] at *
    simp only [List.forall_mem_cons, List.not_mem_nil, false_imp_iff, implies_true, and_true]
    omega

theorem counters_lt {u : ClassUnit} (h : u.WithinNodes) (hnodes : u.node.walk.length < 2 ^ 32) :
    ∀ n ∈ u.counters, n < 2 ^ 64 := by
  have hmethods : u.methods.length < 2 ^ 32 := by
    have hmembers := h.members
    have hwalk : u.node.walk.length = u.node.descendants.length + 1 := List.length_cons
    omega
  have hpairs : u.methods.length * (u.methods.length - 1) < 2 ^ 32 * 2 ^ 32 :=
    Nat.mul_lt_mul'' hmethods (by omega)
  intro n hn
  rcases h.counters_le n hn with hle | hle
  · omega
  · omega

/-- The bounds of all metrics of a class of any files. What is counted below its statement is no more
than the nodes there: its weight, its response, its coupling, methods and fields together, the nine
counters of its tally together, and its nesting. The lack of cohesion and the two numbers of pairs that
it weighs are no more than all pairs of methods. So if there are fewer than `2 ^ 32` nodes, every
number that is counted or summed up on the way fits into 64 bits. The other four metrics are no more
than the nodes of all files and than the characters of a text. -/
theorem measures_le_nodes (files : List SourceFile) (u : ClassUnit)
    (hu : u ∈ (build files).toList) :
    weightedMethods u ≤ u.node.descendants.length ∧
      responseForClass u ≤ u.node.descendants.length ∧
      couplingBetweenObjects u ≤ u.node.descendants.length ∧
      u.methods.length + totalFields u ≤ u.node.descendants.length ∧
      (Tally.ofNode u.node).sum ≤ u.node.descendants.length ∧
      maxNestedBlocks u ≤ u.node.descendants.length ∧
      lackOfCohesion u ≤ u.methods.length * (u.methods.length - 1) / 2 ∧
      sharingPairs (mentions u) ≤ u.methods.length * (u.methods.length - 1) / 2 ∧
      disjointPairs (mentions u) ≤ u.methods.length * (u.methods.length - 1) / 2 ∧
      (u.node.walk.length < 2 ^ 32 → ∀ n ∈ u.counters, n < 2 ^ 64) ∧
      (∀ d, depthOfInheritance (build files) u = .ok d →
        ((build files).recordOf u d).dit ≤ (files.map fun f => f.rootNode.descendants.length).sum ∧
        ((build files).recordOf u d).nosi ≤ (files.map fun f => f.rootNode.descendants.length).sum ∧
        ((build files).recordOf u d).loc ≤ u.file.source.length + 1 ∧
        ((build files).recordOf u d).uniqueWordsQty ≤ u.node.tree.text.length) := by
  have hbounds := withinNodes_of_mem_build hu
  rcases pairs_le u with ⟨hlcom, hsharing, hdisjoint⟩
  refine ⟨hbounds.weight, hbounds.response, hbounds.coupling, hbounds.members, hbounds.tally, ?_, hlcom,
    hsharing, hdisjoint, counters_lt hbounds, ?_⟩
  · -- One block is taken off, which makes up for the top of the statement.
    have hwalk : u.node.walk.length = u.node.descendants.length + 1 := List.length_cons
    have hdepth := hbounds.depth
    unfold maxNestedBlocks
    omega
  · intro d hd
    -- The numbers that look beyond the class are bounded by the number of all classes.
    have hr := consistent_build files
    have hsize := size_build_le files
    have hlt : d < (build files).size := ((depthOfInheritance_eq_ok_iff hr hu).mp hd).lt_size hr hu
    refine ⟨(Nat.le_of_lt hlt).trans hsize, ?_, lineCount_le u.file, uniqueWords_le _⟩
    exact List.countP_le_length.trans hsize

/-- Two of the three pairs of methods of a class share nothing, and 36 nodes are below its
statement. -/
theorem measures_le_nodes_threeReaders :
    threeReaders ∈ (build [threeReaders.file]).toList ∧
      threeReaders.node.descendants.length = 36 ∧
      weightedMethods threeReaders = 3 ∧ 3 ≤ threeReaders.node.descendants.length ∧
      disjointPairs (mentions threeReaders) = 2 ∧
      2 ≤ threeReaders.methods.length * (threeReaders.methods.length - 1) / 2 ∧
      ∀ n ∈ threeReaders.counters, n < 2 ^ 64 := by
  have hmem : threeReaders ∈ (build [threeReaders.file]).toList := List.mem_singleton.mpr rfl
  rcases measures_le_nodes [threeReaders.file] threeReaders hmem with
    ⟨hweight, _, _, _, _, _, _, _, hdisjoint, hcounters, _⟩
  exact ⟨hmem, rfl, rfl, hweight, rfl, hdisjoint, hcounters (by decide)⟩

end ClassGauge
