import Mathlib.Data.Nat.SuccPred
import Mathlib.Order.Bounds.Basic
import ClassGauge.Measure.Complexity
import ClassGauge.Proofs.Registry
import ClassGauge.Proofs.Syntax.Position

/-! # Nesting of blocks

The depth of nesting is the largest number of blocks on a way down. It is taken over the whole
statement that declares a class, decorators and heritage included, and one is taken off for the body
of the class. So it is the nesting inside the body, unless blocks outside the body are nested at least
two levels deeper.

* `blocksOnWay`, `DeepestWay`: the blocks on a way down, and the most that ways of some sort pass;
* `deepestWay_depthBelow`: the recursion over a tree finds the most blocks on any way;
* `blockStep_of_findClass`: neither a class nor a statement around it is a block itself;
* `maxNestedBlocks_of_body`: the nesting of a class, by the ways in its body and those around it.
-/

namespace ClassGauge

open Syntax

/-! ## Ways down -/

/-- The number of blocks on the way from a node down to a position, bodies of classes among them
(`blockStep_eq_one_iff`). The node at the position counts, the node at which the way begins does
not. -/
def blocksOnWay (n : Node) : Position → Nat
  | [] => 0
  | i :: p =>
    match n.children[i]? with
    | some c => blockStep c + blocksOnWay c p
    | none => 0

/-- On the ways from `n` down to positions that satisfy `Q` there are up to `k` blocks, and on one of
them there are `k`. -/
def DeepestWay (n : Node) (Q : Position → Prop) (k : Nat) : Prop :=
  IsGreatest {k | ∃ p, Q p ∧ (n.at? p).isSome = true ∧ blocksOnWay n p = k} k

section Ways

variable {n m c : Node} {p q : Position}

theorem blocksOnWay_cons {i : Nat} (hc : n.children[i]? = some c) :
    blocksOnWay n (i :: p) = blockStep c + blocksOnWay c p := by
  rw [blocksOnWay, hc]

/-- The blocks on a way are those on its first part and those on the rest. -/
theorem blocksOnWay_append (hm : n.at? p = some m) (q : Position) :
    blocksOnWay n (p ++ q) = blocksOnWay n p + blocksOnWay m q := by
  induction p generalizing n with
  | nil =>
    rw [Node.at?_nil, Option.some.injEq] at hm
    rw [hm, List.nil_append, blocksOnWay, Nat.zero_add]
  | cons i p ih =>
    rcases Option.bind_eq_some_iff.mp hm with ⟨c, hc, hm⟩
    rw [List.cons_append, blocksOnWay_cons hc, blocksOnWay_cons hc, ih hm, Nat.add_assoc]

/-- A way on which nothing is a block passes no block. -/
theorem blocksOnWay_eq_zero (h : n.Along (blockStep · = 0) p) : blocksOnWay n p = 0 := by
  induction p generalizing n with
  | nil => rfl
  | cons i p ih =>
    cases hc : n.children[i]? with
    | none => rw [blocksOnWay, hc]
    | some c =>
      rcases (Node.along_cons hc).mp h with ⟨_, hbelow⟩
      have hstep : blockStep c = 0 := hbelow [] c List.nil_prefix rfl
      rw [blocksOnWay_cons hc, hstep, ih hbelow]

/-- If there is a way of some sort, and a bound for all ways of the sort, then one is the deepest. -/
theorem exists_deepestWay {Q : Position → Prop} {k : Nat} (hp : Q p) (hn : (n.at? p).isSome = true)
    (hk : ∀ q, Q q → (n.at? q).isSome = true → blocksOnWay n q ≤ k) : ∃ j, DeepestWay n Q j := by
  apply BddAbove.exists_isGreatest_of_nonempty
  · refine ⟨k, ?_⟩
    rintro j ⟨q, hq, hsome, rfl⟩
    exact hk q hq hsome
  · exact ⟨_, p, hp, hn, rfl⟩

/-! ## The recursion over a tree -/

theorem blockDepth_le_forestBlockDepth {parent : String} {t : Tree} {ts : List Tree} (h : t ∈ ts) :
    blockDepth (some parent) t ≤ forestBlockDepth parent ts := by
  induction ts with
  | nil => cases h
  | cons s ts ih =>
    unfold forestBlockDepth
    rcases List.mem_cons.mp h with rfl | h
    · exact Nat.le_max_left _ _
    · exact (ih h).trans (Nat.le_max_right _ _)

/-- The depth of a row of siblings is that of one of them, unless no block is on any way down. -/
theorem forestBlockDepth_cases (parent : String) (ts : List Tree) :
    forestBlockDepth parent ts = 0 ∨
      ∃ t ∈ ts, forestBlockDepth parent ts = blockDepth (some parent) t := by
  induction ts with
  | nil => exact Or.inl rfl
  | cons s ts ih =>
    unfold forestBlockDepth
    rcases Nat.le_total (forestBlockDepth parent ts) (blockDepth (some parent) s) with hle | hle
    · exact Or.inr ⟨s, List.mem_cons_self, Nat.max_eq_left hle⟩
    · rw [Nat.max_eq_right hle]
      rcases ih with hzero | ⟨t, ht, hdepth⟩
      · exact Or.inl hzero
      · exact Or.inr ⟨t, List.mem_cons_of_mem _ ht, hdepth⟩

/-- The largest number of blocks on a way down from a node that is not counted itself. -/
def Syntax.Node.depthBelow (n : Node) : Nat :=
  forestBlockDepth n.tree.kind n.tree.children

theorem blockDepth_eq_add (n : Node) :
    blockDepth n.parent n.tree = blockStep n + n.depthBelow := by
  rcases n with ⟨parent, l, cs⟩
  unfold blockDepth
  rfl

theorem add_depthBelow_le (hc : c ∈ n.children) : blockStep c + c.depthBelow ≤ n.depthBelow := by
  rcases List.mem_map.mp hc with ⟨t, ht, rfl⟩
  rw [← blockDepth_eq_add]
  exact blockDepth_le_forestBlockDepth ht

/-- Below a node there is no block, or its depth is that of one of its children. -/
theorem depthBelow_cases (n : Node) :
    n.depthBelow = 0 ∨ ∃ c ∈ n.children, n.depthBelow = blockStep c + c.depthBelow := by
  rcases forestBlockDepth_cases n.tree.kind n.tree.children with hzero | ⟨t, ht, hdepth⟩
  · exact Or.inl hzero
  · refine Or.inr ⟨⟨some n.tree.kind, t⟩, List.mem_map.mpr ⟨t, ht, rfl⟩, ?_⟩
    rw [← blockDepth_eq_add]
    exact hdepth

theorem blocksOnWay_le_depthBelow (hm : n.at? p = some m) : blocksOnWay n p ≤ n.depthBelow := by
  induction p generalizing n with
  | nil => exact Nat.zero_le _
  | cons i p ih =>
    rcases Option.bind_eq_some_iff.mp hm with ⟨c, hc, hm⟩
    rw [blocksOnWay_cons hc]
    calc blockStep c + blocksOnWay c p
      _ ≤ blockStep c + c.depthBelow := Nat.add_le_add_left (ih hm) _
      _ ≤ n.depthBelow := add_depthBelow_le (List.mem_of_getElem? hc)

/-- Some way passes as many blocks as the recursion finds. -/
theorem exists_blocksOnWay_eq (n : Node) :
    ∃ p, (n.at? p).isSome = true ∧ blocksOnWay n p = n.depthBelow := by
  rcases n with ⟨parent, t⟩
  induction t using Tree.childrenInduction generalizing parent with
  | node l cs ih =>
    rcases depthBelow_cases ⟨parent, .node l cs⟩ with hzero | ⟨c, hc, hdepth⟩
    · exact ⟨[], rfl, hzero.symm⟩
    · -- The way goes to the deepest child and on from there.
      rcases List.mem_iff_getElem?.mp hc with ⟨i, hi⟩
      rcases List.mem_map.mp hc with ⟨t, ht, rfl⟩
      rcases ih t ht (some l.kind) with ⟨p, hp, hblocks⟩
      refine ⟨i :: p, ?_, ?_⟩
      · rw [Node.at?_cons, hi]
        exact hp
      · rw [blocksOnWay_cons hi, hdepth]
        exact congrArg _ hblocks

/-- The recursion over a tree finds the most blocks on any way down. -/
theorem deepestWay_depthBelow (n : Node) : DeepestWay n (fun _ => True) n.depthBelow := by
  constructor
  · rcases exists_blocksOnWay_eq n with ⟨p, hp, hblocks⟩
    exact ⟨p, trivial, hp, hblocks⟩
  · rintro k ⟨p, _, hp, rfl⟩
    rcases Option.isSome_iff_exists.mp hp with ⟨m, hm⟩
    exact blocksOnWay_le_depthBelow hm

/-- The deepest way is found among those that pass through a node and those that do not. -/
theorem depthBelow_eq_max {outside : Nat} (hm : n.at? q = some m)
    (h : DeepestWay n (fun p => ¬ q <+: p) outside) :
    n.depthBelow = max (blocksOnWay n q + m.depthBelow) outside := by
  apply Nat.le_antisymm
  · rcases exists_blocksOnWay_eq n with ⟨p, hp, hblocks⟩
    rw [← hblocks]
    by_cases hpre : q <+: p
    · -- The way passes through the node: from there on it is one of the ways below the node.
      rcases hpre with ⟨r, rfl⟩
      rw [Node.at?_append, hm] at hp
      rcases Option.isSome_iff_exists.mp hp with ⟨s, hs⟩
      rw [blocksOnWay_append hm]
      have hrest : blocksOnWay m r ≤ m.depthBelow := blocksOnWay_le_depthBelow hs
      omega
    · exact (h.2 ⟨p, hpre, hp, rfl⟩).trans (Nat.le_max_right _ _)
  · apply Nat.max_le.mpr
    constructor
    · rcases exists_blocksOnWay_eq m with ⟨r, hr, hblocks⟩
      rcases Option.isSome_iff_exists.mp hr with ⟨s, hs⟩
      rw [← hblocks, ← blocksOnWay_append hm]
      apply blocksOnWay_le_depthBelow (m := s)
      rw [Node.at?_append, hm]
      exact hs
    · rcases h.1 with ⟨p, _, hp, rfl⟩
      rcases Option.isSome_iff_exists.mp hp with ⟨s, hs⟩
      exact blocksOnWay_le_depthBelow hs

end Ways

/-! ## The body of a class -/

variable {c : ClassDecl} {p : Position} {i : Nat} {n body : Node}

/-- Neither a class nor a statement around it is a block. -/
theorem blockStep_of_kind (h : n.tree.kind ∈ classKinds) : blockStep n = 0 := by
  have huncounted : ∀ kind ∈ classKinds,
      Category.ofToken n.parent kind = none ∧ Category.ofNamed n.parent kind = none := by
    intro kind hkind
    simp only [classKinds, List.mem_cons, List.not_mem_nil, or_false] at hkind
    rcases hkind with rfl | rfl | rfl | rfl | rfl <;> exact ⟨rfl, rfl⟩
  rcases huncounted n.tree.kind h with ⟨htoken, hnamed⟩
  have hcategory : n.category = none := by
    simp only [Node.category, htoken, hnamed, ite_self]
  rw [blockStep, hcategory]
  rfl

theorem blockStep_of_findClass {t d : Tree} (h : findClass t = some d) (parent : Option String) :
    blockStep ⟨parent, t⟩ = 0 := by
  rcases t with ⟨l, cs⟩
  exact blockStep_of_kind (findClass_cases h).1

/-- On the way to the body there is no block but the body. -/
theorem Syntax.ClassDecl.BodyAt.blocksOnWay_eq (h : c.BodyAt p i body) :
    blocksOnWay c.statement (p ++ [i]) = blockStep body := by
  have hat := h.at_eq
  rw [Node.at?_append] at hat
  rcases Option.bind_eq_some_iff.mp hat with ⟨n, hn, hbody⟩
  have hchild : n.children[i]? = some body := by
    rw [Node.at?_cons] at hbody
    simpa using hbody
  have hzero : blocksOnWay c.statement p = 0 := by
    apply blocksOnWay_eq_zero
    intro q m hq hm
    exact blockStep_of_kind (h.along q m hq hm)
  rw [blocksOnWay_append hn, hzero, blocksOnWay_cons hchild, blocksOnWay, Nat.zero_add, Nat.add_zero]

/-- The statement is no block itself, so what is taken off is one of the blocks below it. -/
theorem maxNestedBlocks_eq {f : SourceFile}
    (hc : findClass c.statement.tree = some c.declaration) (id : Nat) :
    maxNestedBlocks (ClassUnit.ofDecl id f c) = c.statement.depthBelow - 1 := by
  have hzero := blockStep_of_findClass hc c.statement.parent
  have hadd := blockDepth_eq_add c.statement
  rw [show blockStep c.statement = 0 from hzero, Nat.zero_add] at hadd
  show blockDepth c.statement.parent c.statement.tree - 1 = c.statement.depthBelow - 1
  rw [hadd]

/-- The nesting of a class is the largest number of blocks strictly inside its body, or one less than
the largest number on a way that does not go through the body, whichever is more. So it is measured
inside the body if no way outside passes two or more blocks more than those inside do. Without a body
there are only the ways outside. -/
theorem maxNestedBlocks_of_body (f : SourceFile) {c : ClassDecl} (hc : c ∈ f.classes) (id : Nat) :
    (c.body? = none → ∃ outside, DeepestWay c.statement (fun _ => True) outside ∧
      maxNestedBlocks (ClassUnit.ofDecl id f c) = outside - 1) ∧
    ∀ t, c.body? = some t → ∃ p i body inside outside, c.BodyAt p i body ∧
      DeepestWay body (fun _ => True) inside ∧
      DeepestWay c.statement (fun q => ¬ p ++ [i] <+: q) outside ∧
      maxNestedBlocks (ClassUnit.ofDecl id f c) = max (blockStep body + inside) outside - 1 ∧
      (body.category = some .classBody →
        (maxNestedBlocks (ClassUnit.ofDecl id f c) = inside ↔ outside ≤ inside + 1)) := by
  have hclass := findClass_of_mem_classes hc
  rw [maxNestedBlocks_eq hclass]
  constructor
  · intro _
    exact ⟨_, deepestWay_depthBelow c.statement, rfl⟩
  · intro t ht
    rcases ClassDecl.exists_bodyAt hclass ht with ⟨p, i, body, hbody, _⟩
    -- The statement itself is a way that does not go through the body, so one of these is the deepest.
    have houtside : ∃ outside, DeepestWay c.statement (fun q => ¬ p ++ [i] <+: q) outside := by
      apply exists_deepestWay (p := []) (by simp) rfl
      intro q _ hq
      rcases Option.isSome_iff_exists.mp hq with ⟨m, hm⟩
      exact blocksOnWay_le_depthBelow hm
    rcases houtside with ⟨outside, houtside⟩
    have hdepth := depthBelow_eq_max hbody.at_eq houtside
    rw [hbody.blocksOnWay_eq] at hdepth
    refine ⟨p, i, body, body.depthBelow, outside, hbody, deepestWay_depthBelow body, houtside, ?_, ?_⟩
    · rw [hdepth]
    · intro hcategory
      have hstep : blockStep body = 1 := blockStep_eq_one_iff.mpr (Or.inr hcategory)
      rw [hdepth, hstep]
      omega

/-- A class with an empty body behind a decorator that is given a function with three blocks:
`@Dec(() => { if (a) { { } } }) class Deep0 { }`. -/
def decorated : SourceFile :=
  let block (role : Option Role) (text : String) (inside : List Tree) : Tree :=
    namedNode "statement_block" role text ([tokenNode "\x7b"] ++ inside ++ [tokenNode "\x7d"])
  let condition := namedNode "parenthesized_expression" none "(a)"
    [tokenNode "(", namedNode "identifier" none "a" [], tokenNode ")"]
  let branch := namedNode "if_statement" none "if (a) { { } }"
    [tokenNode "if", condition, block none "{ { } }" [block none "{ }" []]]
  let arrow := namedNode "arrow_function" none "() => { if (a) { { } } }"
    [namedNode "formal_parameters" (some .parameters) "()" [tokenNode "(", tokenNode ")"],
      tokenNode "=>", block (some .body) "{ if (a) { { } } }" [branch]]
  let call := namedNode "call_expression" none "Dec(() => { if (a) { { } } })"
    [namedNode "identifier" (some .function) "Dec" [],
      namedNode "arguments" none "(() => { if (a) { { } } })"
        [tokenNode "(", arrow, tokenNode ")"]]
  fileOf "test.ts" (namedNode "class_declaration" none
    "@Dec(() => { if (a) { { } } }) class Deep0 { }"
    [namedNode "decorator" none "@Dec(() => { if (a) { { } } })" [tokenNode "@", call],
      tokenNode "class", namedNode "type_identifier" (some .name) "Deep0" [],
      namedNode "class_body" (some .body) "{ }" [tokenNode "\x7b", tokenNode "\x7d"]])

/-- No block lies in the body and three lie on a way through the decorator, so the class counts as
nested two levels deep. -/
theorem maxNestedBlocks_of_body_decorated :
    ∃ c p i body, decorated.classes = [c] ∧ c.BodyAt p i body ∧
      DeepestWay body (fun _ => True) 0 ∧ DeepestWay c.statement (fun q => ¬ p ++ [i] <+: q) 3 ∧
      maxNestedBlocks (ClassUnit.ofDecl 0 decorated c) = 2 := by
  have hall := maxNestedBlocks_of_body decorated List.mem_cons_self 0
  rcases hall.2 _ rfl with ⟨p, i, ⟨parent, t⟩, inside, outside, hbody, hinside, houtside, hmax, _⟩
  obtain rfl : _ = t := Option.some.inj hbody.body_eq
  have hzero : inside = 0 := hinside.unique (deepestWay_depthBelow _)
  subst hzero
  have htwo : 2 = max (1 + 0) outside - 1 := hmax
  have hthree : outside = 3 := by omega
  subst hthree
  exact ⟨_, p, i, _, rfl, hbody, hinside, houtside, rfl⟩

/-- The nesting of a class need not be that inside its body: here the body, which is the last child of
the class, holds no block. -/
theorem maxNestedBlocks_ne_inside :
    ∃ c body, decorated.classes = [c] ∧ c.BodyAt [] 3 body ∧ body.category = some .classBody ∧
      DeepestWay body (fun _ => True) 0 ∧
      maxNestedBlocks (ClassUnit.ofDecl 0 decorated c) = 2 := by
  refine ⟨_, _, rfl, ⟨?_, rfl, rfl, rfl⟩, rfl, deepestWay_depthBelow _, rfl⟩
  exact Node.along_nil.mpr List.mem_cons_self

end ClassGauge
