import Mathlib.Data.List.Forall2
import ClassGauge.Proofs.Registry
import ClassGauge.Proofs.Syntax.Place
import ClassGauge.Proofs.Syntax.Position

/-! # Classes in wrapping statements

A class declaration may stand inside `export` and `declare` statements, one around the other. However
many there are, the class that is found is the declaration, and what is read off it does not depend on
what is around it. Nothing else is looked into, so that classes in functions, blocks or other classes are
not found.

* `Tree.Declares`: which classes can be reached from a statement;
* `declares_of_findClass`, `exists_findClass_of_declares`: a class is found exactly if one can be reached;
* `exists_at?_of_declares`: where such a class stands;
* `Wraps`, `findClass_of_wraps`: a class declaration and the statements around it;
* `exists_indices_filterMap`: what a list is filtered to stands at ascending places of the list;
* `classes_of_wrapped`: the class of a wrapped declaration, and the classes of a file.
-/

namespace ClassGauge.Syntax

variable {l : Label} {cs : List Tree} {t s d : Tree}

/-! ## Reaching classes -/

/-- The class `d` can be reached from a statement: it is the statement, or the class expression that an
export has as its value, or it can be reached from the declaration of an export or from a child of an
ambient declaration. -/
inductive Tree.Declares : (statement d : Tree) → Prop where
  | itself {d : Tree} (h : d.declaresClass = true) : Declares d d
  | exported {l : Label} {cs : List Tree} {t d : Tree} (hkind : l.kind = "export_statement")
      (ht : (node l cs).child? .declaration = some t) (h : Declares t d) : Declares (node l cs) d
  | value {l : Label} {cs : List Tree} {d : Tree} (hkind : l.kind = "export_statement")
      (hd : (node l cs).child? .value = some d) (h : d.kind = "class") : Declares (node l cs) d
  | ambient {l : Label} {cs : List Tree} {t d : Tree} (hkind : l.kind = "ambient_declaration")
      (ht : t ∈ cs) (h : Declares t d) : Declares (node l cs) d

theorem findDeclared_eq (l : Label) (cs : List Tree) :
    findDeclared cs = ((Tree.node l cs).child? .declaration).bind findClass := by
  rw [Tree.child?, Tree.children_node]
  induction cs with
  | nil => rfl
  | cons t ts ih =>
    rw [findDeclared, List.find?_cons]
    by_cases hrole : t.role = some .declaration
    · simp [hrole]
    · simp [hrole, ih]

theorem findFirstClass_eq (cs : List Tree) : findFirstClass cs = cs.findSome? findClass := by
  induction cs with
  | nil => rfl
  | cons t ts ih =>
    rw [findFirstClass, List.findSome?_cons, ih]
    cases findClass t <;> rfl

/-- An export has the class of its declaration, or else the class expression that is its value. -/
theorem findClass_export (h : l.kind = "export_statement") : findClass (.node l cs) =
    (((Tree.node l cs).child? .declaration).bind findClass).or
      (((Tree.node l cs).child? .value).filter (·.kind = "class")) := by
  have hnot : ¬ (Tree.node l cs).declaresClass = true := by
    simp [Tree.declaresClass, Tree.kind, h]
  rw [findClass, if_neg hnot, if_pos h, findDeclared_eq l]

/-- An ambient declaration has the first class that one of its children has. -/
theorem findClass_ambient (h : l.kind = "ambient_declaration") :
    findClass (.node l cs) = cs.findSome? findClass := by
  have hnot : ¬ (Tree.node l cs).declaresClass = true := by
    simp [Tree.declaresClass, Tree.kind, h]
  have hexport : ¬ l.kind = "export_statement" := by simp [h]
  rw [findClass, if_neg hnot, if_neg hexport, if_pos h, findFirstClass_eq]

/-- What is found can be reached. -/
theorem declares_of_findClass (h : findClass t = some d) : t.Declares d := by
  induction t using Tree.childrenInduction generalizing d with
  | node l cs ih =>
    -- The kind of the statement decides in which way the class was found.
    by_cases hclass : (Tree.node l cs).declaresClass = true
    · rw [findClass_of_declaresClass hclass, Option.some.injEq] at h
      exact h ▸ .itself hclass
    by_cases hexport : l.kind = "export_statement"
    · rw [findClass_export hexport, Option.or_eq_some_iff] at h
      rcases h with h | ⟨_, h⟩
      · obtain ⟨t, ht, hd⟩ := Option.bind_eq_some_iff.mp h
        exact .exported hexport ht (ih t (mem_children_of_child? ht) hd)
      · obtain ⟨hvalue, hkind⟩ := Option.filter_eq_some_iff.mp h
        exact .value hexport hvalue (of_decide_eq_true hkind)
    by_cases hambient : l.kind = "ambient_declaration"
    · rw [findClass_ambient hambient] at h
      rcases List.exists_of_findSome?_eq_some h with ⟨t, ht, hd⟩
      exact .ambient hambient ht (ih t ht hd)
    · rw [findClass, if_neg hclass, if_neg hexport, if_neg hambient] at h
      cases h

/-- If a class can be reached, one is found. -/
theorem exists_findClass_of_declares (h : t.Declares d) : ∃ c, findClass t = some c := by
  induction h with
  | itself h => exact ⟨_, findClass_of_declaresClass h⟩
  | exported hkind ht _ ih =>
    rcases ih with ⟨c, hc⟩
    rw [findClass_export hkind, ht, Option.bind_some, hc]
    exact ⟨c, rfl⟩
  | value hkind hd h =>
    rw [findClass_export hkind, hd, Option.filter_some, if_pos (decide_eq_true h), Option.or_some]
    exact ⟨_, rfl⟩
  | ambient hkind ht _ ih =>
    rcases ih with ⟨c, hc⟩
    rw [findClass_ambient hkind, ← Option.isSome_iff_exists, List.findSome?_isSome_iff]
    exact ⟨_, ht, by rw [hc]; rfl⟩

theorem findClass_eq_none_iff : findClass t = none ↔ ∀ d, ¬ t.Declares d := by
  constructor
  · intro h d hd
    rcases exists_findClass_of_declares hd with ⟨c, hc⟩
    rw [h] at hc
    cases hc
  · intro h
    cases hc : findClass t with
    | none => rfl
    | some d => exact absurd (declares_of_findClass hc) (h d)

/-! ## Where classes stand -/

/-- What lies on the way from `n` to a position, the node at the position apart, is an export or an
ambient declaration. -/
def WrapsAlong (n : Node) (p : Position) : Prop :=
  ∀ q m, q <+: p → q ≠ p → n.at? q = some m →
    m.tree.kind = "export_statement" ∨ m.tree.kind = "ambient_declaration"

theorem wrapsAlong_nil (n : Node) : WrapsAlong n [] := by
  intro q m hq hne
  exact absurd (List.prefix_nil.mp hq) hne

theorem wrapsAlong_cons {n c : Node} {i : Nat} {p : Position} (hc : n.children[i]? = some c)
    (hn : n.tree.kind = "export_statement" ∨ n.tree.kind = "ambient_declaration")
    (h : WrapsAlong c p) : WrapsAlong n (i :: p) := by
  intro q m hq hne hm
  rcases List.prefix_cons_iff.mp hq with rfl | ⟨r, rfl, hr⟩
  · rw [Node.at?_nil, Option.some.injEq] at hm
    exact hm ▸ hn
  · rw [Node.at?_cons, hc] at hm
    exact h r m hr (fun heq => hne (heq ▸ rfl)) hm

/-- A class that can be reached stands below nothing but exports and ambient declarations. -/
theorem exists_at?_of_declares (h : t.Declares d) (parent : Option String) :
    ∃ p n, (Node.mk parent t).at? p = some n ∧ n.tree = d ∧ WrapsAlong (Node.mk parent t) p := by
  -- What stands in a child stands in the statement, which is on the way to it.
  have hbelow : ∀ {l : Label} {cs : List Tree} {s d : Tree} (parent : Option String),
      l.kind = "export_statement" ∨ l.kind = "ambient_declaration" → s ∈ cs →
      (∃ p n, (Node.mk (some l.kind) s).at? p = some n ∧ n.tree = d ∧
        WrapsAlong (Node.mk (some l.kind) s) p) →
      ∃ p n, (Node.mk parent (.node l cs)).at? p = some n ∧ n.tree = d ∧
        WrapsAlong (Node.mk parent (.node l cs)) p := by
    rintro l cs s d parent hkind hs ⟨p, n, hn, hd, hwraps⟩
    have hmem : ⟨some l.kind, s⟩ ∈ (Node.mk parent (.node l cs)).children :=
      Node.mem_children_of_mem parent hs
    rcases List.mem_iff_getElem?.mp hmem with ⟨i, hi⟩
    refine ⟨i :: p, n, ?_, hd, wrapsAlong_cons hi hkind hwraps⟩
    rw [Node.at?_cons, hi]
    exact hn
  induction h generalizing parent with
  | itself h => exact ⟨[], _, rfl, rfl, wrapsAlong_nil _⟩
  | exported hkind ht _ ih =>
    exact hbelow parent (Or.inl hkind) (mem_children_of_child? ht) (ih _)
  | value hkind hd h =>
    exact hbelow parent (Or.inl hkind) (mem_children_of_child? hd)
      ⟨[], _, rfl, rfl, wrapsAlong_nil _⟩
  | ambient hkind ht _ ih => exact hbelow parent (Or.inr hkind) ht (ih _)

/-! ## Wrapped declarations -/

/-- The declaration `d` in any number of statements around it: exports of which the next one is the
declaration, and ambient declarations in which no class can be reached from the children in front of the
next one. -/
inductive Wraps (d : Tree) : Tree → Prop where
  | bare : Wraps d d
  | exported {l : Label} {cs : List Tree} {t : Tree} (hkind : l.kind = "export_statement")
      (ht : (Tree.node l cs).child? .declaration = some t) (h : Wraps d t) : Wraps d (.node l cs)
  | ambient {l : Label} {before after : List Tree} {t : Tree}
      (hkind : l.kind = "ambient_declaration") (hbefore : ∀ s ∈ before, ∀ c, ¬ s.Declares c)
      (h : Wraps d t) : Wraps d (.node l (before ++ t :: after))

/-- The class of a wrapped declaration is the declaration. -/
theorem findClass_of_wraps (hd : d.declaresClass = true) (h : Wraps d s) : findClass s = some d := by
  induction h with
  | bare => exact findClass_of_declaresClass hd
  | exported hkind ht _ ih =>
    -- The value of the export is not asked for, since its declaration has a class.
    rw [findClass_export hkind, ht, Option.bind_some, ih, Option.some_or]
  | @ambient l before after t hkind hbefore _ ih =>
    have hnone : before.findSome? findClass = none := by
      rw [List.findSome?_eq_none_iff]
      intro s hs
      exact findClass_eq_none_iff.mpr (hbefore s hs)
    rw [findClass_ambient hkind, List.findSome?_append, hnone, Option.none_or, List.findSome?_cons, ih]

/-! ## The classes of a file -/

/-- What a list is filtered to comes from ascending places of the list, and from all places that give
anything. -/
theorem exists_indices_filterMap {α β : Type} (f : α → Option β) (xs : List α) :
    ∃ is : List Nat, is.Pairwise (· < ·) ∧
      List.Forall₂ (fun i y => xs[i]?.bind f = some y) is (xs.filterMap f) ∧
      ∀ i, i ∈ is ↔ (xs[i]?.bind f).isSome = true := by
  induction xs with
  | nil => exact ⟨[], List.Pairwise.nil, List.Forall₂.nil, by simp⟩
  | cons x xs ih =>
    rcases ih with ⟨is, hascending, hfrom, hall⟩
    have hascending' : (is.map Nat.succ).Pairwise (· < ·) := by
      rw [List.pairwise_map]
      exact hascending.imp Nat.succ_lt_succ
    have hfrom' : List.Forall₂ (fun i y => (x :: xs)[i]?.bind f = some y) (is.map Nat.succ)
        (xs.filterMap f) := by
      rw [List.forall₂_map_left_iff]
      exact hfrom
    have hall' : ∀ i, i + 1 ∈ is.map Nat.succ ↔ ((x :: xs)[i + 1]?.bind f).isSome = true := by
      intro i
      rw [List.getElem?_cons_succ, ← hall, List.mem_map]
      simp
    -- The first member gives a value or not, and the others are counted from one on.
    cases hx : f x with
    | none =>
      refine ⟨is.map Nat.succ, hascending', ?_, ?_⟩
      · rwa [List.filterMap_cons_none hx]
      · rintro (_ | i)
        · simp [hx]
        · exact hall' i
    | some y =>
      refine ⟨0 :: is.map Nat.succ, ?_, ?_, ?_⟩
      · rw [List.pairwise_cons]
        exact ⟨by simp, hascending'⟩
      · rw [List.filterMap_cons_some hx]
        exact .cons (by simp [hx]) hfrom'
      · rintro (_ | i)
        · simp [hx]
        · rw [List.mem_cons, ← hall' i]
          simp

namespace ClassDecl

variable {n : Node} {c : ClassDecl}

theorem ofStatement?_eq_some_iff : ofStatement? n = some c ↔
    c.statement = n ∧ findClass n.tree = some c.declaration := by
  rw [ofStatement?, Option.map_eq_some_iff]
  constructor
  · rintro ⟨d, hd, rfl⟩
    exact ⟨rfl, hd⟩
  · rintro ⟨rfl, hd⟩
    exact ⟨_, hd, rfl⟩

theorem isSome_ofStatement?_iff : (ofStatement? n).isSome = true ↔ ∃ d, n.tree.Declares d := by
  rw [ofStatement?, Option.isSome_map]
  constructor
  · intro h
    rcases Option.isSome_iff_exists.mp h with ⟨d, hd⟩
    exact ⟨d, declares_of_findClass hd⟩
  · rintro ⟨d, hd⟩
    exact Option.isSome_iff_exists.mpr (exists_findClass_of_declares hd)

end ClassDecl

/-- Finding classes. If a class declaration has any number of exports and ambient declarations around
it, then the statement has one class, whose statement is all of it and whose name, base, methods,
properties and promoted parameters are those of the declaration that is a statement by itself; and a file
with the statement has this one class for it, between those of the statements in front of it and those of
the statements behind it. In every file the classes stand in the order of the top-level statements: they
belong to statements at strictly ascending places, so that there is at most one for each statement, and
there is one exactly if a class can be reached from the statement. Above each class in its statement there
are only exports and ambient declarations, so that it comes from no nested scope. -/
theorem classes_of_wrapped :
    (∀ d s, d.declaresClass = true → Wraps d s → ∀ parent, ∃ c : ClassDecl,
      ClassDecl.ofStatement? ⟨parent, s⟩ = some c ∧ c.statement = ⟨parent, s⟩ ∧
      (∀ parent', ∃ bare : ClassDecl, ClassDecl.ofStatement? ⟨parent', d⟩ = some bare ∧
        bare.statement = ⟨parent', d⟩ ∧ c.name? = bare.name? ∧ c.base? = bare.base? ∧
        c.methods = bare.methods ∧ c.properties = bare.properties ∧
        c.promotedParameters = bare.promotedParameters) ∧
      ∀ (f : SourceFile) before after, f.rootNode.children = before ++ ⟨parent, s⟩ :: after →
        f.classes = before.filterMap ClassDecl.ofStatement? ++
          c :: after.filterMap ClassDecl.ofStatement?) ∧
    ∀ f : SourceFile, ∃ is : List Nat, is.Pairwise (· < ·) ∧
      List.Forall₂ (fun i c => f.rootNode.children[i]? = some c.statement ∧
          c.statement.tree.Declares c.declaration ∧
          ∃ p n, c.statement.at? p = some n ∧ n.tree = c.declaration ∧ WrapsAlong c.statement p)
        is f.classes ∧
      ∀ i, i ∈ is ↔ ∃ n d, f.rootNode.children[i]? = some n ∧ n.tree.Declares d := by
  constructor
  · intro d s hd hwraps parent
    have hclass : ClassDecl.ofStatement? ⟨parent, s⟩ = some ⟨⟨parent, s⟩, d⟩ :=
      ClassDecl.ofStatement?_eq_some_iff.mpr ⟨rfl, findClass_of_wraps hd hwraps⟩
    refine ⟨_, hclass, rfl, ?_, ?_⟩
    · -- The bare declaration and the wrapped one give the same class below different statements.
      intro parent'
      have hbare : ClassDecl.ofStatement? ⟨parent', d⟩ = some ⟨⟨parent', d⟩, d⟩ :=
        ClassDecl.ofStatement?_eq_some_iff.mpr ⟨rfl, findClass_of_declaresClass hd⟩
      exact ⟨_, hbare, rfl, rfl, rfl, rfl, rfl, rfl⟩
    · intro f before after hchildren
      rw [SourceFile.classes, hchildren, List.filterMap_append, List.filterMap_cons_some hclass]
  · intro f
    -- The classes are those of the statements that declare one, in the order of the statements.
    obtain ⟨is, hascending, hfrom, hall⟩ :=
      exists_indices_filterMap ClassDecl.ofStatement? f.rootNode.children
    refine ⟨is, hascending, hfrom.imp ?_, ?_⟩
    · intro i c hc
      rcases Option.bind_eq_some_iff.mp hc with ⟨n, hn, hstatement⟩
      rcases ClassDecl.ofStatement?_eq_some_iff.mp hstatement with ⟨rfl, hfind⟩
      have hdeclares := declares_of_findClass hfind
      exact ⟨hn, hdeclares, exists_at?_of_declares hdeclares c.statement.parent⟩
    · intro i
      rw [hall]
      cases hn : f.rootNode.children[i]? with
      | none => simp
      | some n => simp [ClassDecl.isSome_ofStatement?_iff]

/-- The statement `export declare class Vendor {}`. -/
def vendorStatement : Tree :=
  namedNode "export_statement" none "export declare class Vendor {}"
    [tokenNode "export", namedNode "ambient_declaration" (some .declaration)
      "declare class Vendor {}" [tokenNode "declare", emptyClass 1 "Vendor" none]]

/-- The statement `function make() { class Inner {} }`. -/
def makeStatement : Tree :=
  namedNode "function_declaration" none "function make() { class Inner {} }"
    [tokenNode "function", namedNode "identifier" (some .name) "make" [],
      namedNode "formal_parameters" (some .parameters) "()" [tokenNode "(", tokenNode ")"],
      namedNode "statement_block" (some .body) "{ class Inner {} }"
        [tokenNode "\x7b", emptyClass 1 "Inner" none, tokenNode "\x7d"]]

/-- A file with both statements on one line. -/
def vendorFile : SourceFile :=
  let source := vendorStatement.text ++ " " ++ makeStatement.text
  { path := "test.ts", source, malformed := false
    root := namedNode "program" none source [vendorStatement, makeStatement] }

/-- The declaration is found through both statements around it, and the class in the function is not
found. -/
theorem classes_of_wrapped_vendorFile :
    (emptyClass 1 "Vendor" none).declaresClass = true ∧
    Wraps (emptyClass 1 "Vendor" none) vendorStatement ∧
    ∃ c, vendorFile.classes = [c] ∧ c.statement.tree = vendorStatement ∧
      c.name? = some "Vendor" := by
  have hclass : (emptyClass 1 "Vendor" none).declaresClass = true := rfl
  -- The keyword in front of the class declares nothing.
  have htoken : ∀ s ∈ [tokenNode "declare"], ∀ c, ¬ s.Declares c := by
    intro s hs
    rw [List.mem_singleton.mp hs]
    exact findClass_eq_none_iff.mp rfl
  have hambient : Wraps (emptyClass 1 "Vendor" none)
      (namedNode "ambient_declaration" (some .declaration) "declare class Vendor {}"
        ([tokenNode "declare"] ++ [emptyClass 1 "Vendor" none])) :=
    .ambient rfl htoken .bare
  have hwraps : Wraps (emptyClass 1 "Vendor" none) vendorStatement := .exported rfl rfl hambient
  rcases classes_of_wrapped.1 _ _ hclass hwraps (some "program") with
    ⟨c, _, hstatement, hbare, hfile⟩
  rcases hbare none with ⟨bare, hfound, _, hname, _⟩
  have halone : ClassDecl.ofStatement? ⟨none, emptyClass 1 "Vendor" none⟩ =
      some ⟨⟨none, emptyClass 1 "Vendor" none⟩, emptyClass 1 "Vendor" none⟩ := rfl
  rw [halone, Option.some.injEq] at hfound
  refine ⟨hclass, hwraps, c, hfile vendorFile [] _ rfl, ?_, ?_⟩
  · rw [hstatement]
  · rw [hname, ← hfound]
    rfl

end ClassGauge.Syntax
