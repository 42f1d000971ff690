import ClassGauge.Measure.Tally
import ClassGauge.Proofs.Overlap

/-! # What the counters count

A tally fills nine counters in one walk, and branch points are counted with one test for eight
categories. Each of these numbers can be had from walks that look for one category at a time. The
last of the nine counters is meant for arithmetic, but it looks at the signs alone and hardly at
where they stand.

* `foldl_record`: what a walk adds to each counter;
* `tally_of_counts`: tallies, complexity and weight by counts of single categories;
* `category_eq_mathOperator_iff`: which nodes count as arithmetic;
* `mathOperations_of_signs`: the counter of arithmetic, by what its signs are.
-/

namespace ClassGauge

open Syntax

/-! ## One walk for all counters -/

namespace Tally

/-- What one node adds to each counter. -/
theorem record_eq (t : Tally) (c : Category) :
    t.record c =
      { returns := t.returns + [c].count .returnStatement
        loops := t.loops +
          ([c].count .forLoop + [c].count .forEachLoop + [c].count .whileLoop)
        comparisons := t.comparisons + [c].count .comparison
        tryCatches := t.tryCatches + [c].count .tryStatement
        parenthesized := t.parenthesized + [c].count .parenthesized
        stringLiterals := t.stringLiterals + [c].count .stringLiteral
        numbers := t.numbers + [c].count .numberLiteral
        assignments := t.assignments + [c].count .assignment
        mathOperations := t.mathOperations + [c].count .mathOperator } := by
  cases c <;> rfl

/-- What a walk adds to each counter, whatever was counted before. -/
theorem foldl_record (t : Tally) (cs : List Category) :
    cs.foldl record t =
      { returns := t.returns + cs.count .returnStatement
        loops := t.loops + (cs.count .forLoop + cs.count .forEachLoop + cs.count .whileLoop)
        comparisons := t.comparisons + cs.count .comparison
        tryCatches := t.tryCatches + cs.count .tryStatement
        parenthesized := t.parenthesized + cs.count .parenthesized
        stringLiterals := t.stringLiterals + cs.count .stringLiteral
        numbers := t.numbers + cs.count .numberLiteral
        assignments := t.assignments + cs.count .assignment
        mathOperations := t.mathOperations + cs.count .mathOperator } := by
  induction cs generalizing t with
  | nil => rfl
  | cons c cs ih =>
    -- The first node adds its share to what was counted before, the walk behind it adds the rest.
    have hcount : ∀ x, (c :: cs).count x = [c].count x + cs.count x := by
      intro x
      rw [← List.count_append, List.singleton_append]
    rw [List.foldl_cons, ih, record_eq]
    simp only [hcount, mk.injEq]
    omega

end Tally

/-- A category occurs below a node as often as it is counted there. -/
theorem count_filterMap_category (n : Node) (c : Category) :
    (n.descendants.filterMap Node.category).count c = n.count c := by
  rw [List.count, List.countP_filterMap, Node.count]
  congr 1
  funext m
  cases m.category with
  | none => rfl
  | some d =>
    show (d == c) = decide (some d = some c)
    rw [Bool.eq_iff_iff, beq_iff_eq, decide_eq_true_eq, Option.some.injEq]

theorem Tally.ofNode_eq_counts (n : Node) : Tally.ofNode n =
    { returns := n.count .returnStatement
      loops := n.count .forLoop + n.count .forEachLoop + n.count .whileLoop
      comparisons := n.count .comparison
      tryCatches := n.count .tryStatement
      parenthesized := n.count .parenthesized
      stringLiterals := n.count .stringLiteral
      numbers := n.count .numberLiteral
      assignments := n.count .assignment
      mathOperations := n.count .mathOperator } := by
  rw [Tally.ofNode, Tally.foldl_record]
  simp only [count_filterMap_category, Tally.zero, Nat.zero_add]

/-! ## Branch points -/

/-- The number of branch points below a node, each category counted by itself. -/
def branchCounts (n : Node) : Nat :=
  n.count .ifStatement + n.count .forLoop + n.count .forEachLoop + n.count .whileLoop +
    n.count .switchCase + n.count .catchClause + n.count .ternary + n.count .logicalOperator

theorem countP_isBranchPoint (cs : List Category) :
    cs.countP Category.isBranchPoint =
      cs.count .ifStatement + cs.count .forLoop + cs.count .forEachLoop + cs.count .whileLoop +
        cs.count .switchCase + cs.count .catchClause + cs.count .ternary +
        cs.count .logicalOperator := by
  induction cs with
  | nil => rfl
  | cons c cs ih =>
    -- A node adds one to one of the eight counts, if it is a branch point, and otherwise to none.
    rw [List.countP_cons, ih]
    simp only [List.count_cons]
    cases c <;> simp [Category.isBranchPoint] <;> omega

theorem cyclomaticComplexity_eq_branchCounts (n : Node) :
    cyclomaticComplexity n = 1 + branchCounts n := by
  rw [cyclomaticComplexity, countP_isBranchPoint]
  simp only [count_filterMap_category, branchCounts]

theorem branchPoints_eq_branchCounts (n : Node) : branchPoints n = branchCounts n := by
  have hboth := cyclomaticComplexity_eq_branchPoints n
  rw [cyclomaticComplexity_eq_branchCounts] at hboth
  omega

/-- Walks that look for one category each give the same numbers as the walks that look for all at
once: the nine counters of a tally, the complexity of a method, and the weight of a class, which is
the number of its methods and the counts of all of them together. -/
theorem tally_of_counts :
    (∀ n : Node, Tally.ofNode n =
      { returns := n.count .returnStatement
        loops := n.count .forLoop + n.count .forEachLoop + n.count .whileLoop
        comparisons := n.count .comparison
        tryCatches := n.count .tryStatement
        parenthesized := n.count .parenthesized
        stringLiterals := n.count .stringLiteral
        numbers := n.count .numberLiteral
        assignments := n.count .assignment
        mathOperations := n.count .mathOperator }) ∧
    (∀ n : Node, cyclomaticComplexity n = 1 + branchCounts n) ∧
    ∀ u : ClassUnit,
      weightedMethods u = u.methods.length + (u.methods.map branchCounts).sum := by
  refine ⟨Tally.ofNode_eq_counts, cyclomaticComplexity_eq_branchCounts, ?_⟩
  intro u
  have hcounts : branchPoints = branchCounts := funext branchPoints_eq_branchCounts
  rw [weightedMethods_eq_sum, sum_map_cyclomaticComplexity, hcounts]

/-! ## Signs -/

/-- The signs of the four basic operations. -/
def signs : List String := ["+", "-", "*", "/"]

/-- Expressions of which a sign is the operator. -/
def operatorParents : List String := ["binary_expression", "unary_expression"]

namespace Syntax.Node

def isSign (n : Node) : Bool :=
  n.tree.isToken && signs.contains n.tree.kind

def isOperator (n : Node) : Bool :=
  n.isSign && n.parent.any operatorParents.contains

/-- Whether a node is a slash that belongs to a regular expression or to markup. -/
def isDelimiter (n : Node) : Bool :=
  n.tree.isToken && n.tree.kind = "/" && n.parent.any Category.slashDelimiterParents.contains

/-- Whether a node is a sign of neither sort. Such are the stars of generators and of `yield*`, and
the signs in front of `readonly` in a mapped type. -/
def isStraySign (n : Node) : Bool :=
  n.isSign && !n.isOperator && !n.isDelimiter

end Syntax.Node

def tokenCategories : List Category :=
  [.assignment, .comparison, .logicalOperator, .mathOperator]

/-- A named node never counts for what tokens count for. -/
theorem ofNamed_ne_of_mem_tokenCategories {c : Category} (hc : c ∈ tokenCategories)
    (parent : Option String) (kind : String) : Category.ofNamed parent kind ≠ some c := by
  have hnamed : ∀ d ∈ Category.ofNamed parent kind, d ∉ tokenCategories := by
    unfold Category.ofNamed
    split <;> simp [tokenCategories]
  exact fun h => hnamed c h hc

theorem ofToken_eq_mathOperator_iff (parent : Option String) (kind : String) :
    Category.ofToken parent kind = some .mathOperator ↔ kind ∈ signs ∧
      ¬ (kind = "/" ∧ parent.any Category.slashDelimiterParents.contains = true) := by
  unfold Category.ofToken
  split <;> simp_all [signs]

/-- Every sign counts as arithmetic unless it is a slash that delimits something. -/
theorem category_eq_mathOperator_iff {n : Node} :
    n.category = some .mathOperator ↔ n.isSign = true ∧ n.isDelimiter = false := by
  unfold Node.category
  cases htoken : n.tree.isToken with
  | true => simp [ofToken_eq_mathOperator_iff, Node.isSign, Node.isDelimiter, htoken]
  | false =>
    have hnamed := ofNamed_ne_of_mem_tokenCategories (c := .mathOperator) (by decide) n.parent
      n.tree.kind
    cases n.isConstructorName with
    | true => simp [Node.isSign, htoken]
    | false => simp [hnamed, Node.isSign, htoken]

/-- An operator is a sign, and no delimiter: expressions and delimited things are of different
kinds. -/
theorem not_delimiter_of_operator {n : Node} (h : n.isOperator = true) :
    n.isSign = true ∧ n.isDelimiter = false := by
  rw [Node.isOperator, Bool.and_eq_true] at h
  refine ⟨h.1, ?_⟩
  have hparent := h.2
  cases hp : n.parent with
  | none => simp [hp] at hparent
  | some p =>
    have hkind : p = "binary_expression" ∨ p = "unary_expression" := by
      simpa [hp, operatorParents] using hparent
    rcases hkind with rfl | rfl <;> simp [Node.isDelimiter, hp, Category.slashDelimiterParents]

/-- What counts as arithmetic is an operator or a stray sign. -/
theorem category_eq_mathOperator_iff_or {n : Node} :
    n.category = some .mathOperator ↔ n.isOperator = true ∨ n.isStraySign = true := by
  rw [category_eq_mathOperator_iff]
  cases hoperator : n.isOperator with
  | true => simp [not_delimiter_of_operator hoperator]
  | false => simp [Node.isStraySign, hoperator]

/-- It is never both, so the two sorts can be counted one by one. -/
theorem countP_mathOperator (ns : List Node) :
    ns.countP (fun m => m.category = some .mathOperator) =
      ns.countP Node.isOperator + ns.countP Node.isStraySign := by
  have hoperator : ∀ m : Node,
      (decide (m.category = some .mathOperator) && m.isOperator) = m.isOperator := by
    intro m
    cases hm : m.isOperator with
    | true => simp [category_eq_mathOperator_iff_or, hm]
    | false => simp
  have hstray : ∀ m : Node,
      (decide (m.category = some .mathOperator) && !m.isOperator) = m.isStraySign := by
    intro m
    cases hm : m.isOperator with
    | true => simp [Node.isStraySign, hm]
    | false => simp [category_eq_mathOperator_iff_or, hm]
  -- What is counted is split by whether it is the operator of an expression.
  rw [List.countP_eq_countP_filter_add ns _ Node.isOperator, List.countP_filter, List.countP_filter]
  simp only [hoperator, hstray]

/-- The counter of arithmetic, for every node and so for every class. It counts the operators of
expressions, and every other sign as well, wherever it stands, slashes of regular expressions and of
markup apart. So it is the number of operators exactly if there is no stray sign below the node. -/
theorem mathOperations_of_signs (n : Node) :
    (Tally.ofNode n).mathOperations =
        n.descendants.countP Node.isOperator + n.descendants.countP Node.isStraySign ∧
      (∀ m : Node, m.category = some .mathOperator ↔
        m.isOperator = true ∨ m.isStraySign = true) ∧
      (∀ m : Node, ¬ (m.isDelimiter = true ∧ m.category = some .mathOperator)) ∧
      ((Tally.ofNode n).mathOperations = n.descendants.countP Node.isOperator ↔
        ∀ m ∈ n.descendants, m.isStraySign = false) := by
  have hcount : (Tally.ofNode n).mathOperations =
      n.descendants.countP Node.isOperator + n.descendants.countP Node.isStraySign := by
    rw [Tally.ofNode_eq_counts, ← countP_mathOperator]
    rfl
  refine ⟨hcount, fun m => category_eq_mathOperator_iff_or, ?_, ?_⟩
  · -- Of delimiters only slashes are told apart, and these are not counted.
    rintro m ⟨hdelimiter, hcategory⟩
    have hnone := (category_eq_mathOperator_iff.mp hcategory).2
    rw [hdelimiter] at hnone
    cases hnone
  · rw [hcount, Nat.add_eq_left, List.countP_eq_zero]
    simp only [Bool.not_eq_true]

/-- The tree of `class G { *g() { yield* h(); } }`. -/
def generatorClass : Tree :=
  let call := namedNode "call_expression" none "h()"
    [namedNode "identifier" (some .function) "h" [],
      namedNode "arguments" none "()" [tokenNode "(", tokenNode ")"]]
  let delegation := namedNode "yield_expression" none "yield* h()"
    [tokenNode "yield", tokenNode "*", call]
  let block := namedNode "statement_block" (some .body) "\x7b yield* h(); \x7d"
    [tokenNode "\x7b",
      namedNode "expression_statement" none "yield* h();" [delegation, tokenNode ";"],
      tokenNode "\x7d"]
  let method := namedNode "method_definition" none "*g() \x7b yield* h(); \x7d"
    [tokenNode "*", namedNode "property_identifier" (some .name) "g" [],
      namedNode "formal_parameters" (some .parameters) "()" [tokenNode "(", tokenNode ")"], block]
  namedNode "class_declaration" none "class G \x7b *g() \x7b yield* h(); \x7d \x7d"
    [tokenNode "class", namedNode "type_identifier" (some .name) "G" [],
      namedNode "class_body" (some .body) "\x7b *g() \x7b yield* h(); \x7d \x7d"
        [tokenNode "\x7b", method, tokenNode "\x7d"]]

/-- Both stars of the class count, the one of the generator and the one of `yield*`, and neither of
them is the operator of an expression. -/
theorem mathOperations_generator :
    (Registry.build [fileOf "test.ts" generatorClass]).toList =
        [unitOf "test.ts" generatorClass] ∧
      (Tally.ofNode (unitOf "test.ts" generatorClass).node).mathOperations = 2 ∧
      ((unitOf "test.ts" generatorClass).node.descendants.filter
          (·.category = some .mathOperator)).map Node.parent =
        [some "method_definition", some "yield_expression"] ∧
      (unitOf "test.ts" generatorClass).node.descendants.countP Node.isOperator = 0 := by
  refine ⟨rfl, by decide, by decide, by decide⟩

end ClassGauge
