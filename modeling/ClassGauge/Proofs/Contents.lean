import ClassGauge.Proofs.Analysis
import ClassGauge.Proofs.Runs
import ClassGauge.Proofs.Syntax.Methods
import ClassGauge.Proofs.Syntax.Place

/-! # What is written in a member

The members of a class are read off the children of its body, and what a member declares off its own
children and, for a constructor, off those of its parameters. Nothing below a method body, an
initial value or the default of a parameter is looked at. So other code may stand there, with
classes of its own in it, and the class declares the same.

* `Tree.Over`: two nodes that look the same and whose children are related;
* `Tree.Refilled`, `ClassDecl.Refilled`: the same part of a member, and the same class, with other
  code in the bodies and values;
* `declarations_of_refilled`: methods, properties and promoted parameters do not depend on that
  code.
-/

namespace ClassGauge

open Syntax

namespace Syntax.Tree

/-! ## The same nodes with other code -/

/-- Two nodes look the same from above. What stands below them, and so their text, may differ. -/
structure SameTop (s t : Tree) : Prop where
  kind_eq : s.kind = t.kind
  isToken_eq : s.isToken = t.isToken
  role_eq : s.role = t.role

/-- Two nodes that look the same have related children. -/
structure Over (R : Tree → Tree → Prop) (s t : Tree) : Prop where
  top : s.SameTop t
  children : List.Forall₂ R s.children t.children

/-- Whether a part of a member or of a parameter is its body or its value. The keyword of a
visibility is neither. -/
def HoldsCode (t : Tree) : Prop :=
  (t.role = some .body ∨ t.role = some .value) ∧ t.kind ≠ "accessibility_modifier"

/-- Two parts of members or parameters: the same but for the lines or, if code stands in them, the
same at the top at least. -/
structure Refilled (s t : Tree) : Prop where
  top : s.SameTop t
  same : ¬ s.HoldsCode → s.unplaced = t.unplaced

/-- Two parts of members. Among the parameters of a constructor or method there may be some whose
default values differ. -/
def RefilledPart (s t : Tree) : Prop :=
  s.Refilled t ∨
    (s.role = some .parameters ∧ s.kind = "formal_parameters") ∧ Over (Over Refilled) s t

variable {s t : Tree} {R : Tree → Tree → Prop}

theorem sameTop_of_unplaced (h : s.unplaced = t.unplaced) : s.SameTop t where
  kind_eq := by simpa using congrArg kind h
  isToken_eq := by simpa using congrArg isToken h
  role_eq := by simpa using congrArg role h

theorem refilled_of_unplaced (h : s.unplaced = t.unplaced) : s.Refilled t :=
  ⟨sameTop_of_unplaced h, fun _ => h⟩

theorem over_of_unplaced (hR : ∀ s t, s.unplaced = t.unplaced → R s t)
    (h : s.unplaced = t.unplaced) : Over R s t := by
  refine ⟨sameTop_of_unplaced h, ?_⟩
  have hchildren : s.children.map unplaced = t.children.map unplaced := by
    simpa using congrArg children h
  -- The children are the same one by one, up to lines.
  have hsame : List.Forall₂ (fun s t => s.unplaced = t.unplaced) s.children t.children := by
    have heq : List.Forall₂ Eq (s.children.map unplaced) (t.children.map unplaced) := by
      rw [hchildren, List.forall₂_same]
      intro _ _
      rfl
    rwa [List.forall₂_map_left_iff, List.forall₂_map_right_iff] at heq
  exact hsame.imp hR

theorem Refilled.text_eq (h : s.Refilled t) (hs : ¬ s.HoldsCode) : s.text = t.text :=
  (sameSyntax_of_unplaced_eq (h.same hs)).text_eq

namespace RefilledPart

variable (h : s.RefilledPart t)

include h

theorem top : s.SameTop t := by
  rcases h with h | ⟨_, h⟩
  · exact h.top
  · exact h.top

/-- The name of a member and the keyword of its visibility cover the same text. -/
theorem text_eq (hs : s.role = some .name ∨ s.kind = "accessibility_modifier") :
    s.text = t.text := by
  rcases h with h | ⟨⟨hrole, hkind⟩, _⟩
  · -- A name plays another role than code does, and the keyword holds none.
    apply h.text_eq
    rintro ⟨hrole, hkind⟩
    rcases hs with hs | hs
    · simp [hs] at hrole
    · exact hkind hs
  · rcases hs with hs | hs
    · simp [hs] at hrole
    · simp [hs] at hkind

/-- If a part holds parameters, then these are in step and differ in their default values only. -/
theorem parameters (hs : s.role = some .parameters) : Over (Over Refilled) s t := by
  rcases h with h | ⟨_, h⟩
  · -- Parameters are no code, so here they are the same down to the last node.
    apply over_of_unplaced fun _ _ => over_of_unplaced fun _ _ => refilled_of_unplaced
    apply h.same
    rintro ⟨hrole, _⟩
    simp [hs] at hrole
  · exact h

end RefilledPart

/-! ## What is read off one member -/

namespace Over

section Member

variable (h : Over RefilledPart s t)

include h

theorem nameText?_eq : s.nameText? = t.nameText? := by
  apply map_of_rel
  apply rel_find? h.children
  · intro a b hab
    rw [hab.top.role_eq]
  · intro a b hab ha
    exact hab.text_eq (Or.inl (of_decide_eq_true ha))

theorem access?_eq : s.access? = t.access? := by
  have htext : (s.children.find? (·.kind = "accessibility_modifier")).map text =
      (t.children.find? (·.kind = "accessibility_modifier")).map text := by
    apply map_of_rel
    apply rel_find? h.children
    · intro a b hab
      rw [hab.top.kind_eq]
    · intro a b hab ha
      exact hab.text_eq (Or.inr (of_decide_eq_true ha))
  have hbind := congrArg (Option.bind · Access.ofKeyword?) htext
  rw [access?, access?]
  simpa only [Option.bind_map, Function.comp_def] using hbind

theorem isConstructor_eq : s.isConstructor = t.isConstructor := by
  rw [isConstructor, isConstructor, h.nameText?_eq]

theorem isAccessor_eq : s.isAccessor = t.isAccessor := by
  apply any_of_forall₂ h.children
  intro a b hab
  rw [hab.top.kind_eq, hab.top.isToken_eq]

theorem isParameterProperty_eq : s.isParameterProperty = t.isParameterProperty := by
  apply any_of_forall₂ h.children
  intro a b hab
  rw [hab.top.kind_eq]

theorem sameHead : SameHead s t :=
  ⟨h.top.kind_eq, h.nameText?_eq, h.isAccessor_eq⟩

theorem rel_parameters :
    Option.Rel (Over (Over Refilled)) (s.child? .parameters) (t.child? .parameters) := by
  apply rel_find? h.children
  · intro a b hab
    rw [hab.top.role_eq]
  · intro a b hab ha
    exact hab.parameters (of_decide_eq_true ha)

end Member

section Parameter

variable (h : Over Refilled s t)

include h

theorem part : Over RefilledPart s t :=
  ⟨h.top, h.children.imp fun _ _ => Or.inl⟩

/-- What a parameter is called does not depend on its default value. -/
theorem pattern_eq : (s.child? .pattern).map text = (t.child? .pattern).map text := by
  apply map_of_rel
  apply rel_find? h.children
  · intro a b hab
    rw [hab.top.role_eq]
  · intro a b hab ha
    have hrole : a.role = some .pattern := of_decide_eq_true ha
    apply hab.text_eq
    rintro ⟨hcode, _⟩
    simp [hrole] at hcode

end Parameter

end Over

end Syntax.Tree

/-! ## What is read off a class -/

/-- Two classes with the same members, up to the code in bodies and values. All that does not stand
in the body of the class may differ as well. -/
def Syntax.ClassDecl.Refilled (c d : ClassDecl) : Prop :=
  Option.Rel (Tree.Over (Tree.Over Tree.RefilledPart)) c.body? d.body?

namespace Syntax.ClassDecl.Refilled

variable {c d : ClassDecl} (h : c.Refilled d)

include h

/-- Either both classes have a body or neither has. -/
theorem body_cases : (c.body? = none ∧ d.body? = none) ∨
    ∃ s t, c.body? = some s ∧ d.body? = some t ∧ Tree.Over (Tree.Over Tree.RefilledPart) s t := by
  unfold Refilled at h
  generalize c.body? = x at h ⊢
  generalize d.body? = y at h ⊢
  cases h with
  | some hbody => exact Or.inr ⟨_, _, rfl, rfl, hbody⟩
  | none => exact Or.inl ⟨rfl, rfl⟩

theorem members : List.Forall₂ (Tree.Over Tree.RefilledPart) c.members d.members := by
  rcases h.body_cases with ⟨hc, hd⟩ | ⟨s, t, hc, hd, hbody⟩
  · rw [ClassDecl.members, ClassDecl.members, hc, hd]
    exact .nil
  · rw [ClassDecl.members, ClassDecl.members, hc, hd]
    exact hbody.children

theorem members_of_kind (kind : String) :
    List.Forall₂ (Tree.Over Tree.RefilledPart) (c.members.filter (·.kind = kind))
      (d.members.filter (·.kind = kind)) :=
  List.rel_filter (fun a b hab => by simp [hab.top.kind_eq]) h.members

theorem properties_eq : c.properties = d.properties := by
  apply map_of_forall₂ (h.members_of_kind "public_field_definition")
  intro a b hab
  rw [hab.nameText?_eq, hab.access?_eq]

theorem implementedNames_eq : c.implementedNames = d.implementedNames := by
  apply filterMap_of_forall₂ (h.members_of_kind "method_definition")
  intro a b hab
  exact hab.nameText?_eq

/-- The parameters of the constructors are in step, and the same of them are promoted. -/
theorem promotedParameters_eq : c.promotedParameters = d.promotedParameters := by
  -- Level by level: the constructors, their lists of parameters, all parameters, the promoted ones.
  have hconstructors := List.rel_filter
    (p := fun m => m.kind = "method_definition" && m.isConstructor)
    (q := fun m => m.kind = "method_definition" && m.isConstructor)
    (fun a b hab => by simp [hab.top.kind_eq, hab.isConstructor_eq]) h.members
  have hlists := List.rel_filterMap (fun a b hab => hab.rel_parameters) hconstructors
  have hparameters := List.rel_flatMap hlists fun a b hab => hab.children
  have hpromoted := List.rel_filter
    (p := fun p => (p.kind = "required_parameter" || p.kind = "optional_parameter") &&
      p.isParameterProperty)
    (q := fun p => (p.kind = "required_parameter" || p.kind = "optional_parameter") &&
      p.isParameterProperty)
    (fun a b hab => by simp [hab.top.kind_eq, hab.part.isParameterProperty_eq]) hparameters
  apply map_of_forall₂ hpromoted
  intro a b hab
  rw [hab.pattern_eq, hab.part.access?_eq]

/-- The methods stand at the same positions among the members. -/
theorem exists_positions_methods :
    ∃ is : List Nat, is.Pairwise (· < ·) ∧
      c.methods.map some = is.map (fun i => c.members[i]?.map (Node.mk (c.body?.map Tree.kind))) ∧
      d.methods.map some =
        is.map fun i => d.members[i]?.map (Node.mk (d.body?.map Tree.kind)) := by
  have hheads : List.Forall₂ SameHead c.members d.members := by
    refine h.members.imp ?_
    intro a b hab
    exact hab.sameHead
  rcases selectMethods_of_forall₂ c.implementedNames [] hheads with ⟨is, hsorted, hc, hd⟩
  rw [h.implementedNames_eq] at hd
  exact ⟨is, hsorted, ClassDecl.map_some_methods hc, ClassDecl.map_some_methods hd⟩

end Syntax.ClassDecl.Refilled

/-! ## The declarations of a class -/

/-- A class declares what its own members do. Whatever code stands in the bodies of its members, in
the values of its fields and in the defaults of parameters, with as many classes, methods,
constructors, accessors and fields in it as it may have: the methods of the class stand at the same
positions among its members, the properties and promoted parameters have the same names and
visibilities, and the counts of all three in its record are the same. -/
theorem declarations_of_refilled {c d : ClassDecl} (h : c.Refilled d) :
    (∃ is : List Nat, is.Pairwise (· < ·) ∧
      c.methods.map some = is.map (fun i => c.members[i]?.map (Node.mk (c.body?.map Tree.kind))) ∧
      d.methods.map some =
        is.map fun i => d.members[i]?.map (Node.mk (d.body?.map Tree.kind))) ∧
      d.properties = c.properties ∧ d.promotedParameters = c.promotedParameters ∧
      ∀ (r s : Registry) (f g : SourceFile) (i j p q : Nat),
        (s.recordOf (ClassUnit.ofDecl j g d) q).totalMethods =
            (r.recordOf (ClassUnit.ofDecl i f c) p).totalMethods ∧
          (s.recordOf (ClassUnit.ofDecl j g d) q).totalFields =
            (r.recordOf (ClassUnit.ofDecl i f c) p).totalFields ∧
          (s.recordOf (ClassUnit.ofDecl j g d) q).variablesQty =
            (r.recordOf (ClassUnit.ofDecl i f c) p).variablesQty := by
  refine ⟨h.exists_positions_methods, h.properties_eq.symm, h.promotedParameters_eq.symm, ?_⟩
  intro r s f g i j p q
  -- The methods of both classes stand at the same places, so that there are as many of them.
  have hlength : d.methods.length = c.methods.length := by
    rcases h.exists_positions_methods with ⟨is, _, hc, hd⟩
    have hc' : c.methods.length = is.length := by simpa using congrArg List.length hc
    have hd' : d.methods.length = is.length := by simpa using congrArg List.length hd
    rw [hc', hd']
  refine ⟨hlength, ?_, ?_⟩
  · show d.properties.length + d.promotedParameters.length = _
    rw [← h.properties_eq, ← h.promotedParameters_eq]
    rfl
  · show d.properties.length = _
    rw [← h.properties_eq]
    rfl

/-- The value `class {}` with some members in it. -/
def classValue (members : List Tree) : Tree :=
  namedNode "class" (some .value) ""
    [tokenNode "class", namedNode "class_body" (some .body) "" members]

def codeBlock (statements : List Tree) : Tree :=
  namedNode "statement_block" (some .body) "" statements

/-- The parameter `private y = class {}`. -/
def valuedParameter (members : List Tree) : Tree :=
  namedNode "required_parameter" none ""
    [namedNode "accessibility_modifier" none "private" [],
      namedNode "identifier" (some .pattern) "y" [], tokenNode "=", classValue members]

/-- The tree of `class A { x = class {}; constructor(private y = class {}) {} m() {} }`, with some
members in the two class expressions and some statements in the two blocks. -/
def holder (members statements : List Tree) : Tree :=
  let name (text : String) : Tree := namedNode "property_identifier" (some .name) text []
  let method (text : String) (parameters : List Tree) : Tree :=
    namedNode "method_definition" none ""
      [name text, namedNode "formal_parameters" (some .parameters) "" parameters,
        codeBlock statements]
  namedNode "class_declaration" none ""
    [tokenNode "class", namedNode "type_identifier" (some .name) "A" [],
      namedNode "class_body" (some .body) ""
        [namedNode "public_field_definition" none "" [name "x", tokenNode "=", classValue members],
          method "constructor" [valuedParameter members], method "m" []]]

/-- Whatever is put into it, it is the same class. -/
theorem refilled_holder (ms ss ms' ss' : List Tree) :
    (bareDecl (holder ms ss)).Refilled (bareDecl (holder ms' ss')) := by
  have hsame : ∀ t : Tree, t.Refilled t := fun _ => Tree.refilled_of_unplaced rfl
  have hvalue : (classValue ms).Refilled (classValue ms') := by
    refine ⟨⟨rfl, rfl, rfl⟩, fun hnone => absurd ⟨Or.inr rfl, ?_⟩ hnone⟩
    exact of_decide_eq_true rfl
  have hblock : (codeBlock ss).Refilled (codeBlock ss') := by
    refine ⟨⟨rfl, rfl, rfl⟩, fun hnone => absurd ⟨Or.inl rfl, ?_⟩ hnone⟩
    exact of_decide_eq_true rfl
  have hparameter : Tree.Over Tree.Refilled (valuedParameter ms) (valuedParameter ms') :=
    ⟨⟨rfl, rfl, rfl⟩, .cons (hsame _) (.cons (hsame _) (.cons (hsame _) (.cons hvalue .nil)))⟩
  show Option.Rel _ (some _) (some _)
  -- The three members: a property with its value, the constructor, and a method.
  refine .some ⟨⟨rfl, rfl, rfl⟩, .cons ?_ (.cons ?_ (.cons ?_ .nil))⟩
  · exact ⟨⟨rfl, rfl, rfl⟩, .cons (Or.inl (hsame _))
      (.cons (Or.inl (hsame _)) (.cons (Or.inl hvalue) .nil))⟩
  · exact ⟨⟨rfl, rfl, rfl⟩, .cons (Or.inl (hsame _))
      (.cons (Or.inr ⟨⟨rfl, rfl⟩, ⟨rfl, rfl, rfl⟩, .cons hparameter .nil⟩)
        (.cons (Or.inl hblock) .nil))⟩
  · exact ⟨⟨rfl, rfl, rfl⟩, .cons (Or.inl (hsame _))
      (.cons (Or.inl (hsame _)) (.cons (Or.inl hblock) .nil))⟩

/-- The class with another such class in each value and each block, and a return statement behind
it. -/
def stuffedHolder : Tree :=
  holder (bareDecl (holder [] [])).members [holder [] [], namedNode "return_statement" none "" []]

def stuffedRecord : Record :=
  Registry.empty.recordOf (unitOf "test.ts" stuffedHolder) 0

/-- The class has one method, one property and two fields with all that in it, as it has without.
Only the return statements in the blocks count. -/
theorem declarations_of_refilled_stuffed :
    stuffedRecord.totalMethods = 1 ∧ stuffedRecord.totalFields = 2 ∧
      stuffedRecord.variablesQty = 1 ∧ stuffedRecord.returnQty = 2 := by
  have hcounts := (declarations_of_refilled (refilled_holder [] [] (bareDecl (holder [] [])).members
    [holder [] [], namedNode "return_statement" none "" []])).2.2.2 Registry.empty Registry.empty
      (fileOf "test.ts" (holder [] [])) (fileOf "test.ts" stuffedHolder) 0 0 0 0
  exact ⟨hcounts.1, hcounts.2.1, hcounts.2.2, by decide⟩

end ClassGauge
