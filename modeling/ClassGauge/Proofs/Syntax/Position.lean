import Mathlib.Algebra.GroupWithZero.Nat
import Mathlib.Data.List.Flatten
import Mathlib.Data.List.Forall2
import ClassGauge.Syntax.ClassDecl

/-! # Positions in a tree

Equal subtrees may stand in one tree several times. What tells a node from all others is its
position: the way down to it, written as the numbers of the children that the way takes.

* `Node.at?`: the node at a position;
* `Apart`: two positions of which neither lies at or below the other;
* `Node.walk`, `walk_sublist_of_at?`: a walk passes through every subtree as a walk through the
  subtree by itself does;
* `mem_descendants_iff`: a walk below a node meets what stands at some position below it;
* `sum_countP_le`: subtrees that a walk passes through one after the other share no node;
* `Node.Along`: what holds of every node on a way down;
* `exists_at?_of_findClass`, `exists_bodyAt`, `selectMethods_sublist`: where a class, its body and its
  methods stand.
-/

namespace ClassGauge.Syntax

/-- The way down to a node: the number of a child for each level, counted from 0. -/
abbrev Position : Type := List Nat

/-- Neither of two positions lies at or below the other. -/
def Apart (p q : Position) : Prop :=
  ¬ p <+: q ∧ ¬ q <+: p

theorem Apart.ne {p q : Position} (h : Apart p q) : p ≠ q := by
  rintro rfl
  exact h.1 (List.prefix_refl p)

/-- Positions below different children are apart. -/
theorem apart_cons_of_ne {i j : Nat} (h : i ≠ j) (p q : Position) : Apart (i :: p) (j :: q) := by
  constructor
  · intro hpre
    exact h (List.cons_prefix_cons.mp hpre).1
  · intro hpre
    exact h (List.cons_prefix_cons.mp hpre).1.symm

/-- Positions that are apart stay so when they are seen from further up. -/
theorem Apart.append_left {p q : Position} (h : Apart p q) (r : Position) :
    Apart (r ++ p) (r ++ q) := by
  constructor
  · intro hpre
    exact h.1 ((List.prefix_append_right_inj r).mp hpre)
  · intro hpre
    exact h.2 ((List.prefix_append_right_inj r).mp hpre)

/-- A fact holds of every tree if it holds of each tree whose children it holds of. -/
@[elab_as_elim]
theorem Tree.childrenInduction {motive : Tree → Prop}
    (node : ∀ l cs, (∀ t ∈ cs, motive t) → motive (.node l cs)) (t : Tree) : motive t := by
  cases t with
  | node l cs => exact node l cs fun s _ => childrenInduction node s
termination_by sizeOf t
decreasing_by
  have hlt := List.sizeOf_lt_of_mem ‹s ∈ cs›
  simp only [Tree.node.sizeOf_spec]
  omega

namespace Node

/-- The node at a position below `n`, or `n` itself at the empty position. -/
def at? (n : Node) : Position → Option Node
  | [] => some n
  | i :: p => n.children[i]?.bind (·.at? p)

/-- The nodes of a subtree in pre-order, its top included. -/
def walk (n : Node) : List Node :=
  n :: n.descendants

variable {n m c : Node} {p : Position}

@[simp] theorem at?_nil (n : Node) : n.at? [] = some n := rfl

@[simp] theorem at?_cons (n : Node) (i : Nat) (p : Position) :
    n.at? (i :: p) = n.children[i]?.bind (·.at? p) := rfl

/-- A way down can be taken in two parts. -/
theorem at?_append (n : Node) (p q : Position) : n.at? (p ++ q) = (n.at? p).bind (·.at? q) := by
  induction p generalizing n with
  | nil => rfl
  | cons i p ih =>
    rw [List.cons_append, at?_cons, at?_cons]
    cases n.children[i]? with
    | none => rfl
    | some c => exact ih c

/-- What stands below a child stands below the node. -/
theorem exists_at?_of_mem_children (hc : c ∈ n.children) (h : c.at? p = some m) :
    ∃ i, n.at? (i :: p) = some m := by
  obtain ⟨i, hi⟩ := List.mem_iff_getElem?.mp hc
  refine ⟨i, ?_⟩
  rw [at?_cons, hi]
  exact h

theorem mem_children_of_mem {t : Tree} (parent : Option String) {s : Tree} (hs : s ∈ t.children) :
    ⟨some t.kind, s⟩ ∈ (Node.mk parent t).children :=
  List.mem_map.mpr ⟨s, hs, rfl⟩

/-! ## Ways down -/

/-- Every node on the way from `n` down to a position satisfies `P`, both ends included. -/
def Along (P : Node → Prop) (n : Node) (p : Position) : Prop :=
  ∀ q m, q <+: p → n.at? q = some m → P m

theorem along_nil {P : Node → Prop} : Along P n [] ↔ P n := by
  constructor
  · intro h
    exact h [] n (List.prefix_refl []) rfl
  · intro hn q m hq hm
    rw [List.prefix_nil.mp hq, at?_nil, Option.some.injEq] at hm
    exact hm ▸ hn

theorem along_cons {P : Node → Prop} {i : Nat} (hc : n.children[i]? = some c) :
    Along P n (i :: p) ↔ P n ∧ Along P c p := by
  have hat : ∀ q, n.at? (i :: q) = c.at? q := by
    intro q
    rw [at?_cons, hc]
    rfl
  constructor
  · intro h
    refine ⟨h [] n List.nil_prefix rfl, ?_⟩
    intro q m hq hm
    exact h (i :: q) m (List.cons_prefix_cons.mpr ⟨rfl, hq⟩) ((hat q).trans hm)
  · rintro ⟨hn, h⟩ q m hq hm
    rcases List.prefix_cons_iff.mp hq with rfl | ⟨r, rfl, hr⟩
    · rw [at?_nil, Option.some.injEq] at hm
      exact hm ▸ hn
    · exact h r m hr ((hat r).symm.trans hm)

/-! ## Walks -/

/-- A walk below a node walks through its children one by one. -/
theorem descendants_eq_flatMap_walk (n : Node) : n.descendants = n.children.flatMap walk := by
  have hforest : ∀ (k : String) (ts : List Tree),
      forestNodes k ts = (ts.map (Node.mk (some k))).flatMap walk := by
    intro k ts
    induction ts with
    | nil => rfl
    | cons t ts ih =>
      rw [forestNodes_cons, ih]
      rfl
  obtain ⟨parent, l, cs⟩ := n
  exact hforest l.kind cs

/-- Walks through some of the children of a node, in their order, are part of the walk below it. -/
theorem flatMap_walk_sublist {ms : List Node} (h : ms.Sublist n.children) :
    (ms.flatMap walk).Sublist n.descendants := by
  rw [descendants_eq_flatMap_walk]
  exact h.flatMap walk

theorem walk_sublist_of_mem_children (hc : c ∈ n.children) : c.walk.Sublist n.descendants := by
  have h := flatMap_walk_sublist (List.singleton_sublist.mpr hc)
  rwa [List.flatMap_singleton] at h

/-- The walk through a subtree is part of the walk through the tree. -/
theorem walk_sublist_of_at? (h : n.at? p = some m) : m.walk.Sublist n.walk := by
  induction p generalizing n with
  | nil =>
    cases h
    exact List.Sublist.refl _
  | cons i p ih =>
    obtain ⟨c, hc, hm⟩ := Option.bind_eq_some_iff.mp h
    have hchild : c.walk.Sublist n.descendants :=
      walk_sublist_of_mem_children (List.mem_of_getElem? hc)
    exact (ih hm).trans (hchild.trans (List.sublist_cons_self _ _))

theorem descendants_sublist_of_at? (h : n.at? p = some m) :
    m.descendants.Sublist n.descendants :=
  (walk_sublist_of_at? h).tail

/-- The nodes that a walk meets are those at all positions but the empty one. -/
theorem mem_descendants_iff : m ∈ n.descendants ↔ ∃ p, p ≠ [] ∧ n.at? p = some m := by
  constructor
  · obtain ⟨parent, t⟩ := n
    induction t using Tree.childrenInduction generalizing parent with
    | node l cs ih =>
      intro hm
      rw [descendants_eq_flatMap_walk, List.mem_flatMap] at hm
      obtain ⟨c, hc, hm⟩ := hm
      -- A node below `n` is a child or lies below one, and the way to it begins with the child.
      rcases List.mem_cons.mp hm with rfl | hm
      · obtain ⟨i, hi⟩ := exists_at?_of_mem_children hc (at?_nil _)
        exact ⟨[i], List.cons_ne_nil _ _, hi⟩
      · obtain ⟨s, hs, rfl⟩ := List.mem_map.mp hc
        obtain ⟨p, _, hp⟩ := ih s hs _ hm
        obtain ⟨i, hi⟩ := exists_at?_of_mem_children hc hp
        exact ⟨i :: p, List.cons_ne_nil _ _, hi⟩
  · rintro ⟨p, hp, hm⟩
    cases p with
    | nil => exact absurd rfl hp
    | cons i p =>
      obtain ⟨c, hc, hm⟩ := Option.bind_eq_some_iff.mp hm
      -- The subtree at the end of the way is part of that of its first child.
      have hchild : c.walk.Sublist n.descendants :=
        walk_sublist_of_mem_children (List.mem_of_getElem? hc)
      exact ((walk_sublist_of_at? hm).trans hchild).subset List.mem_cons_self

/-- If walks through some nodes, laid end to end, are part of the walk below `n`, then no node is
counted twice below them. -/
theorem sum_countP_le {ms : List Node} (h : (ms.flatMap walk).Sublist n.descendants)
    (q : Node → Bool) :
    (ms.map fun m => m.descendants.countP q).sum ≤ n.descendants.countP q := by
  have hsum : (ms.map fun m => m.descendants.countP q).sum = (ms.flatMap descendants).countP q :=
    List.countP_flatMap.symm
  have hbelow : (ms.flatMap descendants).Sublist (ms.flatMap walk) :=
    List.Sublist.flatMap_right ms fun m _ => List.sublist_cons_self m _
  rw [hsum]
  exact (hbelow.trans h).countP_le

/-- Some of the children of a node, in their order, stand at positions that are apart. -/
theorem exists_positions_of_sublist {ms : List Node} (h : ms.Sublist n.children) :
    ∃ ps : List Position, List.Forall₂ (fun p m => n.at? p = some m) ps ms ∧
      (∀ p ∈ ps, p ≠ []) ∧ ps.Pairwise Apart := by
  obtain ⟨indices, rfl, hindices⟩ := List.sublist_eq_map_getElem h
  refine ⟨indices.map fun i => [i.val], ?_, ?_, ?_⟩
  · rw [List.forall₂_map_left_iff, List.forall₂_map_right_iff, List.forall₂_same]
    intro i _
    simp
  · intro p hp
    obtain ⟨i, _, rfl⟩ := List.mem_map.mp hp
    exact List.cons_ne_nil _ _
  · -- Different children of one node lie apart.
    rw [List.pairwise_map]
    refine hindices.imp ?_
    intro i j hij
    have hne : i.val ≠ j.val := Nat.ne_of_lt hij
    exact apart_cons_of_ne hne [] []

end Node

/-! ## Where classes and methods stand -/

theorem exists_mem_of_findDeclared {ts : List Tree} {d : Tree} (h : findDeclared ts = some d) :
    ∃ t ∈ ts, findClass t = some d := by
  induction ts with
  | nil => cases h
  | cons t ts ih =>
    rw [findDeclared] at h
    split at h
    · exact ⟨t, List.mem_cons_self, h⟩
    · obtain ⟨s, hs, hd⟩ := ih h
      exact ⟨s, List.mem_cons_of_mem _ hs, hd⟩

theorem exists_mem_of_findFirstClass {ts : List Tree} {d : Tree}
    (h : findFirstClass ts = some d) : ∃ t ∈ ts, findClass t = some d := by
  induction ts with
  | nil => cases h
  | cons t ts ih =>
    rw [findFirstClass, Option.or_eq_some_iff] at h
    rcases h with h | ⟨_, h⟩
    · exact ⟨t, List.mem_cons_self, h⟩
    · obtain ⟨s, hs, hd⟩ := ih h
      exact ⟨s, List.mem_cons_of_mem _ hs, hd⟩

theorem mem_children_of_child? {t s : Tree} {r : Role} (h : t.child? r = some s) :
    s ∈ t.children :=
  List.mem_of_find?_eq_some h

/-- The kinds of classes and of the statements that stand around a class. -/
def classKinds : List String :=
  ["class_declaration", "abstract_class_declaration", "class", "export_statement",
    "ambient_declaration"]

/-- The class of a statement is the statement itself, the class of a child, or a child that is a class
expression. -/
theorem findClass_cases {l : Label} {cs : List Tree} {d : Tree}
    (h : findClass (.node l cs) = some d) :
    l.kind ∈ classKinds ∧
      (d = .node l cs ∨ (∃ s ∈ cs, findClass s = some d) ∨ d ∈ cs ∧ d.kind ∈ classKinds) := by
  rw [findClass] at h
  split at h
  · next hclass =>
    have hkind : l.kind = "class_declaration" ∨ l.kind = "abstract_class_declaration" := by
      rwa [Tree.declaresClass, Bool.or_eq_true, decide_eq_true_eq, decide_eq_true_eq] at hclass
    refine ⟨?_, Or.inl (Option.some.inj h).symm⟩
    rcases hkind with hkind | hkind <;> simp [classKinds, hkind]
  · split at h
    · next hexport =>
      refine ⟨by simp [classKinds, hexport], Or.inr ?_⟩
      rcases Option.or_eq_some_iff.mp h with h | ⟨_, h⟩
      · exact Or.inl (exists_mem_of_findDeclared h)
      · -- The class is exported as a value, so it is a child.
        rcases Option.filter_eq_some_iff.mp h with ⟨hvalue, hclass⟩
        have hkind : d.kind = "class" := of_decide_eq_true hclass
        exact Or.inr ⟨mem_children_of_child? hvalue, by simp [classKinds, hkind]⟩
    · split at h
      · next hambient =>
        refine ⟨by simp [classKinds, hambient], Or.inr (Or.inl ?_)⟩
        exact exists_mem_of_findFirstClass h
      · cases h

/-- The class of a statement stands in the statement, below nothing but statements that declare
it. -/
theorem exists_at?_of_findClass {t d : Tree} (h : findClass t = some d)
    (parent : Option String) :
    ∃ p n, (Node.mk parent t).at? p = some n ∧ n.tree = d ∧
      Node.Along (·.tree.kind ∈ classKinds) (Node.mk parent t) p := by
  induction t using Tree.childrenInduction generalizing parent with
  | node l cs ih =>
    rcases findClass_cases h with ⟨hkind, hd⟩
    -- What stands below a child stands below the statement, which is on the way to it.
    have hbelow : ∀ s ∈ cs, (∃ p n, (Node.mk (some l.kind) s).at? p = some n ∧ n.tree = d ∧
        Node.Along (·.tree.kind ∈ classKinds) (Node.mk (some l.kind) s) p) →
        ∃ p n, (Node.mk parent (.node l cs)).at? p = some n ∧ n.tree = d ∧
          Node.Along (·.tree.kind ∈ classKinds) (Node.mk parent (.node l cs)) p := by
      rintro s hs ⟨p, n, hn, hnd, halong⟩
      have hmem : ⟨some l.kind, s⟩ ∈ (Node.mk parent (.node l cs)).children :=
        Node.mem_children_of_mem parent hs
      rcases List.mem_iff_getElem?.mp hmem with ⟨i, hi⟩
      refine ⟨i :: p, n, ?_, hnd, (Node.along_cons hi).mpr ⟨hkind, halong⟩⟩
      rw [Node.at?_cons, hi]
      exact hn
    rcases hd with rfl | ⟨s, hs, hd⟩ | ⟨hmem, hclass⟩
    · exact ⟨[], _, rfl, rfl, Node.along_nil.mpr hkind⟩
    · exact hbelow s hs (ih s hs hd (some l.kind))
    · exact hbelow d hmem ⟨[], _, rfl, rfl, Node.along_nil.mpr hclass⟩

/-- Methods are picked from the members in their order, each member once at most. -/
theorem selectMethods_sublist (implemented seen : List String) (ms : List Tree) :
    (selectMethods implemented seen ms).Sublist ms := by
  induction ms generalizing seen with
  | nil => exact List.Sublist.refl _
  | cons m ms ih =>
    rw [selectMethods]
    -- In every branch the member is either left out or put in front.
    split
    · split
      · exact (ih seen).cons m
      · exact (ih seen).cons_cons m
    · split
      · exact (ih seen).cons m
      · exact (ih seen).cons_cons m
    · split
      · split
        · exact (ih seen).cons m
        · exact (ih _).cons_cons m
      · exact (ih seen).cons m
    · exact (ih seen).cons m

namespace ClassDecl

variable {c : ClassDecl} {body : Tree}

theorem methods_eq_nil (h : c.body? = none) : c.methods = [] := by
  rw [methods, members, h]
  rfl

/-- The methods are some of the children of the body. -/
theorem methods_sublist_children (h : c.body? = some body) (parent : Option String) :
    c.methods.Sublist (Node.mk parent body).children := by
  have hmembers : c.members = body.children := by
    rw [members, h]
    rfl
  rw [methods, hmembers, h]
  exact (selectMethods_sublist _ _ _).map _

/-- The class of `c` stands at position `p` of its statement, and `body` is child number `i` of the class.
Above the class there are only statements that declare it. -/
structure BodyAt (c : ClassDecl) (p : Position) (i : Nat) (body : Node) : Prop where
  along : c.statement.Along (·.tree.kind ∈ classKinds) p
  tree_eq : (c.statement.at? p).map Node.tree = some c.declaration
  at_eq : c.statement.at? (p ++ [i]) = some body
  body_eq : c.body? = some body.tree

/-- The body of a class stands below the statement that declares the class. -/
theorem exists_bodyAt (hc : findClass c.statement.tree = some c.declaration)
    (h : c.body? = some body) : ∃ p i n, c.BodyAt p i n ∧ n.tree = body := by
  rcases exists_at?_of_findClass hc c.statement.parent with ⟨p, n, hn, htree, halong⟩
  have hbody : body ∈ n.tree.children := by
    rw [htree]
    exact mem_children_of_child? h
  have hmem := Node.mem_children_of_mem n.parent hbody
  rcases List.mem_iff_getElem?.mp hmem with ⟨i, hi⟩
  have hat : c.statement.at? (p ++ [i]) = some ⟨some n.tree.kind, body⟩ := by
    rw [Node.at?_append, hn, Option.bind_some, Node.at?_cons, hi]
    rfl
  refine ⟨p, i, _, ⟨halong, ?_, hat, h⟩, rfl⟩
  rw [hn, Option.map_some, htree]

end ClassDecl

end ClassGauge.Syntax
