import ClassGauge.Syntax.ClassDecl

/-! # Trees apart from their place

Two trees can be the same but for the lines on which their nodes start, and for the role that each
plays where it stands. This module shows that nothing that is read off a tree depends on either.

* `Tree.unplaced`: a tree with all lines left out;
* `Tree.SameSyntax`: two trees are the same wherever they stand;
* `descendants_unplaced`, `category_unplaced`: walks and categories are the same;
* `ClassDecl.SameMembers`, `sameMembers_of_sameSyntax`: so is what a class declares.
-/

namespace ClassGauge.Syntax

def Label.unplaced (l : Label) : Label :=
  { l with line := 0 }

mutual

def Tree.unplaced : Tree → Tree
  | .node l cs => .node l.unplaced (unplacedForest cs)

def unplacedForest : List Tree → List Tree
  | [] => []
  | t :: ts => t.unplaced :: unplacedForest ts

end

def Node.unplaced (n : Node) : Node :=
  ⟨n.parent, n.tree.unplaced⟩

/-- Two trees are the same, wherever they stand: kind, flag and text agree at the top, and below
it everything but the lines, the roles of the nodes included. -/
structure Tree.SameSyntax (s t : Tree) : Prop where
  kind_eq : s.kind = t.kind
  named_eq : s.label.named = t.label.named
  text_eq : s.text = t.text
  children_eq : s.children.map Tree.unplaced = t.children.map Tree.unplaced

/-! ## One node -/

theorem unplacedForest_eq_map (ts : List Tree) : unplacedForest ts = ts.map Tree.unplaced := by
  induction ts with
  | nil => rfl
  | cons t ts ih => rw [unplacedForest, ih, List.map_cons]

namespace Tree

@[simp] theorem unplaced_node (l : Label) (cs : List Tree) :
    (node l cs).unplaced = node l.unplaced (cs.map unplaced) := by
  rw [unplaced, unplacedForest_eq_map]

@[simp] theorem children_unplaced (t : Tree) : t.unplaced.children = t.children.map unplaced := by
  cases t
  simp

@[simp] theorem kind_unplaced (t : Tree) : t.unplaced.kind = t.kind := by
  cases t
  rfl

@[simp] theorem isToken_unplaced (t : Tree) : t.unplaced.isToken = t.isToken := by
  cases t
  rfl

@[simp] theorem role_unplaced (t : Tree) : t.unplaced.role = t.role := by
  cases t
  rfl

@[simp] theorem text_unplaced (t : Tree) : t.unplaced.text = t.text := by
  cases t
  rfl

/-- A child that plays a role is found in the same place. -/
@[simp] theorem child?_unplaced (t : Tree) (r : Role) :
    t.unplaced.child? r = (t.child? r).map unplaced := by
  simp only [child?, children_unplaced, List.find?_map, Function.comp_def, role_unplaced]

@[simp] theorem flatMap_children_unplaced (ts : List Tree) :
    (ts.map unplaced).flatMap children = (ts.flatMap children).map unplaced := by
  rw [List.flatMap_map, List.map_flatMap]
  simp only [children_unplaced]

/-- Trees that differ in nothing but lines are the same. -/
theorem sameSyntax_of_unplaced_eq {s t : Tree} (h : s.unplaced = t.unplaced) : s.SameSyntax t where
  kind_eq := by simpa using congrArg kind h
  named_eq := by
    have htoken : s.isToken = t.isToken := by simpa only [isToken_unplaced] using congrArg isToken h
    simpa [isToken] using htoken
  text_eq := by simpa using congrArg text h
  children_eq := by simpa using congrArg children h

end Tree

/-! ## Walks and categories -/

mutual

/-- A walk meets the same nodes in the same order. -/
theorem descendants_unplaced (t : Tree) :
    t.unplaced.descendants = t.descendants.map Node.unplaced :=
  match t with
  | .node l cs => by
    rw [Tree.unplaced_node, Tree.descendants, Tree.descendants]
    exact forestNodes_unplaced l.kind cs

theorem forestNodes_unplaced (parent : String) (ts : List Tree) :
    forestNodes parent (ts.map Tree.unplaced) = (forestNodes parent ts).map Node.unplaced :=
  match ts with
  | [] => rfl
  | t :: ts => by
    rw [List.map_cons, forestNodes_cons, forestNodes_cons, descendants_unplaced t,
      forestNodes_unplaced parent ts, List.map_cons, List.map_append]
    rfl

end

namespace Node

@[simp] theorem tree_unplaced (n : Node) : n.unplaced.tree = n.tree.unplaced := rfl

@[simp] theorem parent_unplaced (n : Node) : n.unplaced.parent = n.parent := rfl

@[simp] theorem category_unplaced (n : Node) : n.unplaced.category = n.category := by
  simp [category, isConstructorName]

@[simp] theorem callTarget?_unplaced (n : Node) : n.unplaced.callTarget? = n.callTarget? := by
  simp only [callTarget?, tree_unplaced, Tree.kind_unplaced, Tree.child?_unplaced]
  cases n.tree.child? .function with
  | none => rfl
  | some callee => simp

end Node

/-- Trees that are the same have the same descendants. -/
theorem Tree.SameSyntax.descendants_eq {s t : Tree} (h : s.SameSyntax t) :
    s.descendants.map Node.unplaced = t.descendants.map Node.unplaced := by
  obtain ⟨l, cs⟩ := s
  obtain ⟨l', cs'⟩ := t
  have hkind : l.kind = l'.kind := h.kind_eq
  have hchildren : cs.map Tree.unplaced = cs'.map Tree.unplaced := h.children_eq
  rw [Tree.descendants, Tree.descendants, ← forestNodes_unplaced, ← forestNodes_unplaced, hkind,
    hchildren]

/-! ## Finding the class of a statement -/

@[simp] theorem Tree.declaresClass_unplaced (t : Tree) :
    t.unplaced.declaresClass = t.declaresClass := by
  simp only [declaresClass, kind_unplaced]

mutual

/-- The class of a statement is found in the same place. -/
theorem findClass_unplaced (t : Tree) : findClass t.unplaced = (findClass t).map Tree.unplaced :=
  match t with
  | .node l cs => by
    have hvalue : ((Tree.node l.unplaced (cs.map Tree.unplaced)).child? .value).filter
        (·.kind = "class") =
          (((Tree.node l cs).child? .value).filter (·.kind = "class")).map Tree.unplaced := by
      rw [← Tree.unplaced_node, Tree.child?_unplaced, Option.filter_map]
      simp only [Function.comp_def, Tree.kind_unplaced]
    have hclass : (Tree.node l.unplaced (cs.map Tree.unplaced)).declaresClass =
        (Tree.node l cs).declaresClass := by
      rw [← Tree.unplaced_node, Tree.declaresClass_unplaced]
    have hkind : l.unplaced.kind = l.kind := rfl
    rw [Tree.unplaced_node, findClass, findClass, hclass, hkind, hvalue, findDeclared_unplaced cs,
      findFirstClass_unplaced cs]
    split
    · -- The statement is the class itself.
      rw [Option.map_some, Tree.unplaced_node]
    · split
      · -- An export has a declaration or else a value.
        rw [Option.map_or]
      · split <;> rfl

theorem findDeclared_unplaced (ts : List Tree) :
    findDeclared (ts.map Tree.unplaced) = (findDeclared ts).map Tree.unplaced :=
  match ts with
  | [] => rfl
  | t :: ts => by
    rw [List.map_cons, findDeclared, findDeclared, Tree.role_unplaced, findClass_unplaced t,
      findDeclared_unplaced ts]
    split <;> rfl

theorem findFirstClass_unplaced (ts : List Tree) :
    findFirstClass (ts.map Tree.unplaced) = (findFirstClass ts).map Tree.unplaced :=
  match ts with
  | [] => rfl
  | t :: ts => by
    rw [List.map_cons, findFirstClass, findFirstClass, findClass_unplaced t,
      findFirstClass_unplaced ts]
    cases findClass t <;> rfl

end

theorem findClass_of_declaresClass {t : Tree} (h : t.declaresClass = true) :
    findClass t = some t := by
  obtain ⟨l, cs⟩ := t
  rw [findClass, if_pos h]

/-- Statements that are the same declare classes that are the same. -/
theorem Tree.SameSyntax.findClass {s t d e : Tree} (h : s.SameSyntax t)
    (hd : findClass s = some d) (he : findClass t = some e) : d.SameSyntax e := by
  have hclass : s.declaresClass = t.declaresClass := by
    rw [declaresClass, declaresClass, h.kind_eq]
  by_cases hs : s.declaresClass = true
  · -- Here the class is the statement itself, whose role the hypothesis leaves open.
    rw [findClass_of_declaresClass hs, Option.some.injEq] at hd
    rw [findClass_of_declaresClass (hclass ▸ hs), Option.some.injEq] at he
    rw [← hd, ← he]
    exact h
  · -- Otherwise it lies below the statement, where the roles agree as well.
    apply sameSyntax_of_unplaced_eq
    have hfound : Syntax.findClass s.unplaced = Syntax.findClass t.unplaced := by
      have ht : ¬ t.declaresClass = true := hclass ▸ hs
      obtain ⟨l, cs⟩ := s
      obtain ⟨l', cs'⟩ := t
      have hkind : l.unplaced.kind = l'.unplaced.kind := h.kind_eq
      have hchildren : cs.map unplaced = cs'.map unplaced := h.children_eq
      rw [← declaresClass_unplaced, unplaced_node] at hs ht
      rw [unplaced_node, unplaced_node, Syntax.findClass, Syntax.findClass, if_neg hs, if_neg ht,
        hkind, child?, child?, children_node, children_node, hchildren]
    rw [findClass_unplaced, findClass_unplaced, hd, he] at hfound
    exact Option.some.inj hfound

/-! ## What a class declares -/

namespace Tree

@[simp] theorem nameText?_unplaced (t : Tree) : t.unplaced.nameText? = t.nameText? := by
  simp [nameText?, Function.comp_def]

@[simp] theorem isConstructor_unplaced (t : Tree) :
    t.unplaced.isConstructor = t.isConstructor := by
  simp [isConstructor]

@[simp] theorem isAccessor_unplaced (t : Tree) : t.unplaced.isAccessor = t.isAccessor := by
  simp [isAccessor, List.any_map, Function.comp_def]

@[simp] theorem access?_unplaced (t : Tree) : t.unplaced.access? = t.access? := by
  simp only [access?, children_unplaced, List.find?_map, Option.bind_map, Function.comp_def,
    kind_unplaced, text_unplaced]

@[simp] theorem isParameterProperty_unplaced (t : Tree) :
    t.unplaced.isParameterProperty = t.isParameterProperty := by
  simp [isParameterProperty, List.any_map, Function.comp_def]

end Tree

/-- The methods of a class are found in the same places. -/
theorem selectMethods_unplaced (implemented seen : List String) (ms : List Tree) :
    selectMethods implemented seen (ms.map Tree.unplaced) =
      (selectMethods implemented seen ms).map Tree.unplaced := by
  induction ms generalizing seen with
  | nil => rfl
  | cons m ms ih =>
    rw [List.map_cons, selectMethods, selectMethods]
    simp only [Tree.kind_unplaced, Tree.isConstructor_unplaced, Tree.isAccessor_unplaced,
      Tree.nameText?_unplaced, ih]
    -- The kind decides between the branches, and nothing that is asked there depends on lines.
    split
    · split <;> rfl
    · split <;> rfl
    · split
      · split <;> rfl
      · rfl
    · rfl

namespace ClassDecl

/-- Two classes declare the same: only the lines on which their methods start may differ. -/
structure SameMembers (c d : ClassDecl) : Prop where
  name?_eq : c.name? = d.name?
  base?_eq : c.base? = d.base?
  properties_eq : c.properties = d.properties
  promotedParameters_eq : c.promotedParameters = d.promotedParameters
  methods_eq : c.methods.map Node.unplaced = d.methods.map Node.unplaced

def unplaced (c : ClassDecl) : ClassDecl :=
  ⟨c.statement.unplaced, c.declaration.unplaced⟩

variable (c : ClassDecl)

@[simp] theorem name?_unplaced : c.unplaced.name? = c.name? :=
  c.declaration.nameText?_unplaced

@[simp] theorem base?_unplaced : c.unplaced.base? = c.base? := by
  simp only [base?, unplaced, Tree.children_unplaced, List.filter_map, Function.comp_def,
    Tree.kind_unplaced, Tree.flatMap_children_unplaced, List.find?_map]
  generalize ((c.declaration.children.filter (·.kind = "class_heritage")).flatMap
    Tree.children).find? (·.kind = "extends_clause") = clause?
  cases clause? with
  | none => rfl
  | some clause => simp [Function.comp_def]

@[simp] theorem body?_unplaced : c.unplaced.body? = c.body?.map Tree.unplaced :=
  c.declaration.child?_unplaced .body

@[simp] theorem members_unplaced : c.unplaced.members = c.members.map Tree.unplaced := by
  rw [members, members, body?_unplaced]
  cases c.body? with
  | none => rfl
  | some body => simp

@[simp] theorem implementedNames_unplaced : c.unplaced.implementedNames = c.implementedNames := by
  simp [implementedNames, List.filter_map, List.filterMap_map, Function.comp_def]

@[simp] theorem methods_unplaced : c.unplaced.methods = c.methods.map Node.unplaced := by
  simp [methods, selectMethods_unplaced, Function.comp_def, Node.unplaced]

@[simp] theorem properties_unplaced : c.unplaced.properties = c.properties := by
  simp [properties, List.filter_map, Function.comp_def]

@[simp] theorem promotedParameters_unplaced :
    c.unplaced.promotedParameters = c.promotedParameters := by
  have hparameters : ∀ ms : List Tree, (ms.map Tree.unplaced).filterMap (·.child? .parameters) =
      (ms.filterMap (·.child? .parameters)).map Tree.unplaced := by
    intro ms
    simp only [List.filterMap_map, List.map_filterMap, Function.comp_def, Tree.child?_unplaced]
  simp [promotedParameters, List.filter_map, hparameters, Function.comp_def]

variable {c} {d : ClassDecl}

/-- Two classes whose declarations are the same declare the same. -/
theorem sameMembers_of_sameSyntax (h : c.declaration.SameSyntax d.declaration) :
    c.SameMembers d := by
  have hchildren : c.unplaced.declaration.children = d.unplaced.declaration.children := by
    rw [unplaced, unplaced, Tree.children_unplaced, Tree.children_unplaced, h.children_eq]
  have hbody : c.unplaced.body? = d.unplaced.body? := by
    rw [body?, body?, Tree.child?, Tree.child?, hchildren]
  have hmembers : c.unplaced.members = d.unplaced.members := by
    rw [members, members, hbody]
  -- Everything that a class declares is read off its children, without their lines.
  refine ⟨?_, ?_, ?_, ?_, ?_⟩
  · rw [← name?_unplaced c, ← name?_unplaced d, name?, name?, Tree.nameText?, Tree.nameText?,
      Tree.child?, Tree.child?, hchildren]
  · rw [← base?_unplaced c, ← base?_unplaced d, base?, base?, hchildren]
  · rw [← properties_unplaced c, ← properties_unplaced d, properties, properties, hmembers]
  · rw [← promotedParameters_unplaced c, ← promotedParameters_unplaced d, promotedParameters,
      promotedParameters, hmembers]
  · rw [← methods_unplaced, ← methods_unplaced, methods, methods, implementedNames,
      implementedNames, hmembers, hbody]

end ClassDecl

end ClassGauge.Syntax
