import ClassGauge.Proofs.Analysis
import ClassGauge.Proofs.Nesting
import ClassGauge.Proofs.Syntax.Place

/-! # What decides a record

A record is decided by the syntax of the declaration, but for the file of the class and what the
other classes of the registry say about it. Where the declaration stands, and what else is declared
there, makes no difference.

* `descendants_congr`: what reads no line of the nodes below a node reads its syntax alone;
* `weightedMethods_of_unplaced`, `lackOfCohesion_of_unplaced`: so do the measures of the methods;
* `blockDepth_unplaced`, `blockDepth_eq`: and so does the nesting of blocks in a class;
* `ClassUnit.SameClass`, `sameClass_of_build`: classes of two registries whose declarations are the
  same declare the same;
* `record_of_sameSyntax`: their records agree on every field but four.
-/

namespace ClassGauge

open Syntax Registry

/-! ## Measures of one node -/

/-- Lists of nodes that differ in nothing but lines look alike to whatever reads syntax alone. -/
theorem map_eq_of_unplaced {β : Type} {f : Node → β}
    (hf : ∀ m n, m.tree.SameSyntax n.tree → f m = f n) {ms ns : List Node}
    (h : ms.map Node.unplaced = ns.map Node.unplaced) : ms.map f = ns.map f := by
  induction ms generalizing ns with
  | nil =>
    cases ns with
    | nil => rfl
    | cons n ns => cases h
  | cons m ms ih =>
    cases ns with
    | nil => cases h
    | cons n ns =>
      obtain ⟨hmn, hrest⟩ := List.cons.inj h
      have htree : m.tree.unplaced = n.tree.unplaced := congrArg Node.tree hmn
      rw [List.map_cons, List.map_cons, hf m n (Tree.sameSyntax_of_unplaced_eq htree), ih hrest]

variable {m n : Node}

/-- What reads no line of the nodes below a node finds the same below nodes that are the same. -/
theorem descendants_congr {β : Type} (h : m.tree.SameSyntax n.tree) (f : List Node → β)
    (hf : ∀ ns, f (ns.map Node.unplaced) = f ns) : f m.descendants = f n.descendants := by
  have hnodes : m.descendants.map Node.unplaced = n.descendants.map Node.unplaced :=
    h.descendants_eq
  rw [← hf m.descendants, hnodes, hf]

theorem categories_eq (h : m.tree.SameSyntax n.tree) :
    m.descendants.filterMap Node.category = n.descendants.filterMap Node.category := by
  apply descendants_congr h (List.filterMap Node.category)
  intro ns
  simp [List.filterMap_map]

theorem identifiers_eq (h : m.tree.SameSyntax n.tree) : m.identifiers = n.identifiers := by
  apply descendants_congr h fun ns =>
    (ns.filter (·.category = some .identifier)).map (·.tree.text)
  intro ns
  simp [List.filter_map, Function.comp_def]

theorem callTargets_eq (h : m.tree.SameSyntax n.tree) :
    m.descendants.filterMap Node.callTarget? = n.descendants.filterMap Node.callTarget? := by
  apply descendants_congr h (List.filterMap Node.callTarget?)
  intro ns
  simp [List.filterMap_map]

theorem cyclomaticComplexity_eq (h : m.tree.SameSyntax n.tree) :
    cyclomaticComplexity m = cyclomaticComplexity n := by
  rw [cyclomaticComplexity, cyclomaticComplexity, categories_eq h]

theorem fieldsMentioned_eq (fields : List String) (h : m.tree.SameSyntax n.tree) :
    fieldsMentioned fields m = fieldsMentioned fields n := by
  rw [fieldsMentioned, fieldsMentioned, identifiers_eq h]

theorem tally_eq (h : m.tree.SameSyntax n.tree) : Tally.ofNode m = Tally.ofNode n := by
  rw [Tally.ofNode, Tally.ofNode, categories_eq h]

/-! ## Measures of the methods -/

section Methods

variable {u v : ClassUnit} (h : u.methods.map Node.unplaced = v.methods.map Node.unplaced)

include h

theorem length_methods_of_unplaced : u.methods.length = v.methods.length := by
  simpa using congrArg List.length h

theorem weightedMethods_of_unplaced : weightedMethods u = weightedMethods v := by
  rw [weightedMethods, weightedMethods, map_eq_of_unplaced (fun _ _ => cyclomaticComplexity_eq) h]

theorem lackOfCohesion_of_unplaced (hfields : u.fields = v.fields) :
    lackOfCohesion u = lackOfCohesion v := by
  have hmentions : mentions u = mentions v := by
    rw [mentions, mentions, ClassUnit.fieldNames, ClassUnit.fieldNames, hfields]
    exact map_eq_of_unplaced (fun _ _ => fieldsMentioned_eq _) h
  rw [lackOfCohesion, lackOfCohesion, hmentions]

end Methods

/-! ## Nesting -/

theorem blockStep_unplaced (n : Node) : blockStep n.unplaced = blockStep n := by
  rw [blockStep, blockStep, Node.category_unplaced]

mutual

/-- Blocks lie inside one another to the same depth, on whatever lines they start. -/
theorem blockDepth_unplaced (parent : Option String) (t : Tree) :
    blockDepth parent t.unplaced = blockDepth parent t :=
  match t with
  | .node l cs => by
    have hstep : blockStep ⟨parent, (Syntax.Tree.node l cs).unplaced⟩ =
        blockStep ⟨parent, .node l cs⟩ :=
      blockStep_unplaced ⟨parent, .node l cs⟩
    have hbelow : forestBlockDepth l.unplaced.kind (cs.map Tree.unplaced) =
        forestBlockDepth l.kind cs :=
      forestBlockDepth_unplaced l.kind cs
    rw [Tree.unplaced_node] at hstep ⊢
    rw [blockDepth, blockDepth, hstep, hbelow]

theorem forestBlockDepth_unplaced (parent : String) (ts : List Tree) :
    forestBlockDepth parent (ts.map Tree.unplaced) = forestBlockDepth parent ts :=
  match ts with
  | [] => rfl
  | t :: ts => by
    rw [List.map_cons, forestBlockDepth, forestBlockDepth, blockDepth_unplaced (some parent) t,
      forestBlockDepth_unplaced parent ts]

end

/-- Statements that are the same, and declare a class, nest blocks to the same depth, whatever they
stand in. -/
theorem blockDepth_eq {s t d e : Tree} (h : s.SameSyntax t) (hd : findClass s = some d)
    (he : findClass t = some e) (parent parent' : Option String) :
    blockDepth parent s = blockDepth parent' t := by
  -- Only the top looks at what the statements stand in, and neither top opens a block.
  have hs := blockStep_of_findClass hd parent
  have ht := blockStep_of_findClass he parent'
  obtain ⟨l, cs⟩ := s
  obtain ⟨l', cs'⟩ := t
  have hkind : l.kind = l'.kind := h.kind_eq
  have hchildren : cs.map Tree.unplaced = cs'.map Tree.unplaced := h.children_eq
  rw [blockDepth, blockDepth, hs, ht, ← forestBlockDepth_unplaced, hchildren, hkind,
    forestBlockDepth_unplaced]

/-! ## Classes that are the same -/

/-- Two classes that are the same but for the file, the place in it and the place in the registry:
their declarations are the same, and so is what they declare. -/
structure ClassUnit.SameClass (u v : ClassUnit) : Prop where
  node_same : u.node.tree.SameSyntax v.node.tree
  name_eq : u.name = v.name
  fields_eq : u.fields = v.fields
  promoted_eq : u.promoted = v.promoted
  methods_eq : u.methods.map Node.unplaced = v.methods.map Node.unplaced
  nested_eq : maxNestedBlocks u = maxNestedBlocks v

/-- Classes of two registries are the same as soon as their declarations are. -/
theorem sameClass_of_build {files₁ files₂ : List SourceFile} {u v : ClassUnit}
    (hu : u ∈ (build files₁).toList) (hv : v ∈ (build files₂).toList)
    (h : u.node.tree.SameSyntax v.node.tree) : u.SameClass v := by
  obtain ⟨i, f, c, _, hc, rfl⟩ := exists_decl_of_mem_build hu
  obtain ⟨j, g, d, _, hd, rfl⟩ := exists_decl_of_mem_build hv
  have hcd := findClass_of_mem_classes hc
  have hdd := findClass_of_mem_classes hd
  have hmembers : c.SameMembers d := ClassDecl.sameMembers_of_sameSyntax (h.findClass hcd hdd)
  refine ⟨h, ?_, hmembers.properties_eq, hmembers.promotedParameters_eq, hmembers.methods_eq, ?_⟩
  · show c.name?.getD unnamedClass = d.name?.getD unnamedClass
    rw [hmembers.name?_eq]
  · rw [maxNestedBlocks, maxNestedBlocks, blockDepth_eq h hcd hdd]

namespace ClassUnit.SameClass

variable {u v : ClassUnit} (h : u.SameClass v)

include h

theorem couplingBetweenObjects_eq : couplingBetweenObjects u = couplingBetweenObjects v := by
  rw [couplingBetweenObjects, couplingBetweenObjects, identifiers_eq h.node_same, h.name_eq]

theorem responseForClass_eq : responseForClass u = responseForClass v := by
  rw [responseForClass, responseForClass, directCallees, directCallees, callTargets_eq h.node_same,
    length_methods_of_unplaced h.methods_eq]

/-- The records of two classes that are the same differ in the file, its length, the depth and the
number of subclasses at most. -/
theorem recordOf_eq (r s : Registry) (d e : Nat) :
    s.recordOf v e = { r.recordOf u d with
      filePath := v.file.path
      loc := v.file.lineCount
      dit := e
      nosi := s.toList.countP (·.base = some v.name) } := by
  rw [recordOf, recordOf, h.name_eq, h.couplingBetweenObjects_eq,
    weightedMethods_of_unplaced h.methods_eq, h.responseForClass_eq,
    lackOfCohesion_of_unplaced h.methods_eq h.fields_eq, length_methods_of_unplaced h.methods_eq,
    totalFields, totalFields, h.fields_eq, h.promoted_eq, tally_eq h.node_same, h.nested_eq,
    h.node_same.text_eq]

end ClassUnit.SameClass

/-! ## Records -/

/-- A record is decided by the declaration of its class, four fields apart. In any two analyses that
succeed, two classes whose declarations are the same, wherever they stand, have records that agree
on every field other than the path, the lines of the file, the depth and the number of
subclasses. -/
theorem record_of_sameSyntax {files₁ files₂ : List SourceFile} {records₁ records₂ : List Record}
    (h₁ : (analyze files₁).records = .ok records₁) (h₂ : (analyze files₂).records = .ok records₂)
    {u v : ClassUnit} {a b : Record} (hu : (u, a) ∈ (build files₁).toList.zip records₁)
    (hv : (v, b) ∈ (build files₂).toList.zip records₂)
    (hsame : u.node.tree.SameSyntax v.node.tree) :
    b = { a with filePath := b.filePath, loc := b.loc, dit := b.dit, nosi := b.nosi } := by
  have hstep₁ := (measureAll_eq_ok_iff (consistent_build files₁)).mp h₁
  have hstep₂ := (measureAll_eq_ok_iff (consistent_build files₂)).mp h₂
  obtain ⟨d, _, rfl⟩ := List.forall₂_zip hstep₁ hu
  obtain ⟨e, _, rfl⟩ := List.forall₂_zip hstep₂ hv
  have hclass : u.SameClass v :=
    sameClass_of_build (List.of_mem_zip hu).1 (List.of_mem_zip hv).1 hsame
  exact hclass.recordOf_eq _ _ d e

/-- A file that declares a class whose base is declared nowhere. -/
def orphan : SourceFile :=
  emptyClasses "orphan.ts" [("A", some "B")]

/-- A file that declares the same class behind its base. -/
def reunited : SourceFile :=
  emptyClasses "reunited.ts" [("B", none), ("A", some "B")]

/-- The class has its base in one file only, and its records agree on all that the base has no part
in. -/
theorem record_of_sameSyntax_reunited :
    ∃ a b c, (analyze [orphan]).records = .ok [a] ∧ (analyze [reunited]).records = .ok [b, c] ∧
      a.dit = 0 ∧ c.dit = 1 ∧
      c = { a with filePath := c.filePath, loc := c.loc, dit := c.dit, nosi := c.nosi } := by
  have horphan : List.Forall₂ (build [orphan]).EndsAt (build [orphan]).toList [0] :=
    .cons ⟨_, rfl, rfl⟩ .nil
  have hreunited : List.Forall₂ (build [reunited]).EndsAt (build [reunited]).toList [0, 1] :=
    .cons ⟨_, rfl, rfl⟩ (.cons ⟨_, rfl, rfl⟩ .nil)
  have h₁ := records_of_endsAt horphan
  have h₂ := records_of_endsAt hreunited
  refine ⟨_, _, _, h₁, h₂, rfl, rfl, ?_⟩
  exact record_of_sameSyntax h₁ h₂ (.head _) (.tail _ (.head _)) ⟨rfl, rfl, rfl, rfl⟩

end ClassGauge
