import ClassGauge.Proofs.Locality
import ClassGauge.Proofs.Syntax.Methods

/-! # Overloads

A method can be given several signatures. Those without a body that go with an implementation, or
with a plain signature further up, are overloads and count for nothing. For abstract signatures
there is no such rule: each of them counts, so a second one of the same name is a second method.

* `ClassDecl.Inserted`: two classes, of which one has a row of members more than the other;
* `Inserted.exists_methods`: the methods of the longer class are those of the other, and between
  them those of the row;
* `Inserted.methods_of_overloads`, `Inserted.methods_of_abstract`: what rows of signatures add;
* `methods_with_overloads`: the methods of a class, their number, weight and cohesion, before and
  after signatures are put behind one of its methods.
-/

namespace ClassGauge

open Syntax

/-! ## One row of members more -/

/-- The kinds of members that are read. What else stands in the body of a class, such as semicolons,
comments, decorators and static blocks, declares neither a method nor a field. -/
def memberKinds : List String :=
  ["method_definition", "abstract_method_signature", "method_signature", "public_field_definition"]

theorem kind_ne_of_not_mem_memberKinds {s : Tree} (h : s.kind ∉ memberKinds) :
    s.kind ≠ "method_definition" ∧ s.kind ≠ "abstract_method_signature" ∧
      s.kind ≠ "method_signature" ∧ s.kind ≠ "public_field_definition" := by
  simpa [memberKinds] using h

namespace Syntax.ClassDecl

/-- The class `d` has the members of `c` and, behind the first of them, which are `before`, the
members `row` as well. All of them may stand on other lines. -/
structure Inserted (c d : ClassDecl) (before row after : List Tree) : Prop where
  members_eq : c.members = before ++ after
  inserted_eq : d.members.map Tree.unplaced = (before ++ (row ++ after)).map Tree.unplaced
  body_eq : d.body?.map Tree.kind = c.body?.map Tree.kind

/-- The methods that a row of abstract signatures declares, in the body of `c`: all of it but
accessors. -/
def abstractMethods (c : ClassDecl) (row : List Tree) : List Node :=
  (row.filter fun s => s.kind = "abstract_method_signature" && !s.isAccessor).map
    (Node.mk (c.body?.map Tree.kind))

namespace Inserted

variable {c d : ClassDecl} {before row after : List Tree} (h : c.Inserted d before row after)

include h

/-- A row without fields leaves the fields as they are. -/
theorem properties_eq (hrow : ∀ s ∈ row, s.kind ≠ "public_field_definition") :
    d.properties = c.properties := by
  have hnone : row.filter (·.kind = "public_field_definition") = [] := by
    simpa [List.filter_eq_nil_iff] using hrow
  rw [← properties_unplaced d, properties, members_unplaced, h.inserted_eq, properties,
    h.members_eq]
  simp [List.filter_map, Function.comp_def, hnone]

/-- A row without implementations leaves the implemented names as they are. -/
theorem implementedNames_eq (hrow : ∀ s ∈ row, s.kind ≠ "method_definition") :
    d.implementedNames = c.implementedNames := by
  have hnone : row.filter (·.kind = "method_definition") = [] := by
    simpa [List.filter_eq_nil_iff] using hrow
  rw [← implementedNames_unplaced d, implementedNames, members_unplaced, h.inserted_eq,
    implementedNames, h.members_eq]
  simp [List.filter_map, Function.comp_def, hnone]

/-- If no name of a signature is new in the row, the methods of the row stand between those in front
of it and those behind it, which are the methods of the other class. -/
theorem exists_methods (hrow : ∀ s ∈ row, s.kind ≠ "method_definition")
    (hnames : ∀ x, LoneName c.implementedNames row x → LoneName c.implementedNames before x) :
    ∃ front seen back, (∀ x, x ∈ seen ↔ LoneName c.implementedNames before x) ∧
      c.methods = front ++ back ∧
      d.methods.map Node.unplaced =
        (front ++ ((selectMethods c.implementedNames seen row).map
          (Node.mk (c.body?.map Tree.kind)) ++ back)).map Node.unplaced := by
  rcases selectMethods_insert hnames after with ⟨front, seen, back, hseen, hold, hnew⟩
  refine ⟨front.map (Node.mk (c.body?.map Tree.kind)), seen,
    back.map (Node.mk (c.body?.map Tree.kind)), hseen, ?_, ?_⟩
  · rw [methods, h.members_eq, hold, List.map_append]
  · -- Which members are methods is decided without their lines.
    have hunplaced : (selectMethods d.implementedNames [] d.members).map Tree.unplaced =
        (selectMethods c.implementedNames [] (before ++ (row ++ after))).map Tree.unplaced := by
      rw [← selectMethods_unplaced, ← selectMethods_unplaced, h.implementedNames_eq hrow,
        h.inserted_eq]
    have hnodes := congrArg (List.map (Node.mk (c.body?.map Tree.kind))) hunplaced
    rw [hnew] at hnodes
    simpa [methods, h.body_eq, Function.comp_def, Node.unplaced] using hnodes

end Inserted

/-! ## Rows of signatures -/

/-- A row in which nothing but signatures of the kind `kind` and the name `name` is declared. -/
def SignaturesOf (kind name : String) (row : List Tree) : Prop :=
  ∀ s ∈ row, s.kind ∉ memberKinds ∨ s.kind = kind ∧ s.nameText? = some name

/-- There is neither an implementation nor a field among signatures. -/
theorem SignaturesOf.kind_ne {kind name : String} {row : List Tree} (h : SignaturesOf kind name row)
    (hkind : kind ≠ "method_definition" ∧ kind ≠ "public_field_definition") {s : Tree}
    (hs : s ∈ row) : s.kind ≠ "method_definition" ∧ s.kind ≠ "public_field_definition" := by
  rcases h s hs with hother | ⟨rfl, _⟩
  · have hkinds := kind_ne_of_not_mem_memberKinds hother
    exact ⟨hkinds.1, hkinds.2.2.2⟩
  · exact hkind

/-- If a method that is no abstract one has the name `name`, then a lone signature of that name is
no longer the first. -/
theorem loneName_of_method {c : ClassDecl} {m s : Tree} {before : List Tree} {name : String}
    (hbefore : ∀ n ∈ before, n ∈ c.members) (hm : m ∈ before)
    (hmethod : ⟨c.body?.map Tree.kind, m⟩ ∈ c.methods) (hname : m.nameText? = some name)
    (hkind : m.kind ≠ "abstract_method_signature")
    (hs : LoneSignature c.implementedNames s name) : LoneName c.implementedNames before name := by
  rcases List.mem_map.mp hmethod with ⟨n, hn, heq⟩
  obtain rfl : n = m := congrArg Node.tree heq
  rcases isMethod_of_mem_selectMethods hn with ⟨hdefinition, _, _⟩ | ⟨habstract, _⟩ | ⟨y, hy, _⟩
  · exact absurd (mem_implementedNames.mpr ⟨n, hbefore n hm, hdefinition, hname⟩)
      hs.not_implemented
  · exact absurd habstract hkind
  · obtain rfl : name = y := hy.eq hname
    exact ⟨n, hm, hy⟩

/-- Signatures of the name of a method that is no abstract one, put behind it, are no methods. -/
theorem Inserted.methods_of_overloads {c d : ClassDecl} {before row after : List Tree}
    (h : c.Inserted d before row after) {m : Tree} (hm : m ∈ before)
    (hmethod : ⟨c.body?.map Tree.kind, m⟩ ∈ c.methods) {name : String}
    (hname : m.nameText? = some name) (hkind : m.kind ≠ "abstract_method_signature")
    (hrow : SignaturesOf "method_signature" name row) :
    d.methods.map Node.unplaced = c.methods.map Node.unplaced := by
  have hbefore : ∀ n ∈ before, n ∈ c.members := by
    intro n hn
    rw [h.members_eq]
    exact List.mem_append_left after hn
  -- The only name in the row is taken: it is implemented somewhere or `m` itself has taken it.
  have hnames : ∀ x, LoneName c.implementedNames row x → LoneName c.implementedNames before x := by
    rintro x ⟨s, hs, hlone⟩
    rcases hrow s hs with hother | ⟨_, hsname⟩
    · exact absurd hlone (not_loneSignature (kind_ne_of_not_mem_memberKinds hother).2.2.1 x)
    · obtain rfl : name = x := hlone.eq hsname
      exact loneName_of_method hbefore hm hmethod hname hkind hlone
  have hdefinition : ∀ s ∈ row, s.kind ≠ "method_definition" := by
    intro s hs
    exact (hrow.kind_ne (by decide) hs).1
  rcases h.exists_methods hdefinition hnames with ⟨front, seen, back, hseen, hold, hnew⟩
  have hnone : selectMethods c.implementedNames seen row = [] := by
    apply List.eq_nil_iff_forall_not_mem.mpr
    intro s hs
    have hsrow : s ∈ row := (selectMethods_sublist _ _ _).subset hs
    have hsmethod := isMethod_of_mem_selectMethods hs
    rcases hrow s hsrow with hother | ⟨hsignature, _⟩
    · have hkinds := kind_ne_of_not_mem_memberKinds hother
      exact not_isMethod hkinds.1 hkinds.2.1 hkinds.2.2.1 hsmethod
    · -- The signature would have to be the first of its name, and it is not.
      rcases (isMethod_signature hsignature).mp hsmethod with ⟨x, hlone, hfresh⟩
      exact hfresh ((hseen x).mpr (hnames x ⟨s, hsrow, hlone⟩))
  rw [hnew, hnone, hold, List.map_nil, List.nil_append]

/-- In a row of abstract signatures all but the accessors are methods, whatever their names are. -/
theorem selectMethods_of_abstract {implemented seen : List String} {name : String}
    {row : List Tree} (hrow : SignaturesOf "abstract_method_signature" name row) :
    selectMethods implemented seen row =
      row.filter fun s => s.kind = "abstract_method_signature" && !s.isAccessor := by
  induction row with
  | nil => rfl
  | cons s row ih =>
    have hrest := ih fun t ht => hrow t (List.mem_cons_of_mem s ht)
    rw [selectMethods, List.filter_cons]
    rcases hrow s List.mem_cons_self with hother | ⟨hkind, _⟩
    · simpa [kind_ne_of_not_mem_memberKinds hother] using hrest
    · cases haccessor : s.isAccessor <;> simpa [hkind, haccessor] using hrest

/-- Abstract signatures, put behind some members, are methods all of them. -/
theorem Inserted.methods_of_abstract {c d : ClassDecl} {before row after : List Tree}
    (h : c.Inserted d before row after) {name : String}
    (hrow : SignaturesOf "abstract_method_signature" name row) :
    ∃ front back, c.methods = front ++ back ∧
      d.methods.map Node.unplaced =
        (front ++ (c.abstractMethods row ++ back)).map Node.unplaced := by
  -- Abstract signatures take no names, so no name of the row can be new.
  have hnames : ∀ x, LoneName c.implementedNames row x → LoneName c.implementedNames before x := by
    rintro x ⟨s, hs, hlone⟩
    rcases hrow s hs with hother | ⟨hkind, _⟩
    · exact absurd hlone (not_loneSignature (kind_ne_of_not_mem_memberKinds hother).2.2.1 x)
    · exact absurd hlone (not_loneSignature (by simp [hkind]) x)
  have hdefinition : ∀ s ∈ row, s.kind ≠ "method_definition" := by
    intro s hs
    exact (hrow.kind_ne (by decide) hs).1
  rcases h.exists_methods hdefinition hnames with ⟨front, seen, back, _, hold, hnew⟩
  rw [selectMethods_of_abstract hrow] at hnew
  exact ⟨front, back, hold, hnew⟩

end Syntax.ClassDecl

/-! ## Number, weight and cohesion -/

/-- Signatures put behind a method of the same name. If the method is an implementation or a plain
signature, further signatures change neither the methods nor their number, weight and cohesion. If
it is an abstract signature, every further one that is no accessor is a method more, and weighs as
much as a method of its own. -/
theorem methods_with_overloads {c d : ClassDecl} {before row after : List Tree}
    (h : c.Inserted d before row after) {m : Tree} (hm : m ∈ before)
    (hmethod : ⟨c.body?.map Tree.kind, m⟩ ∈ c.methods) {name : String}
    (hname : m.nameText? = some name) (i j : Nat) (f g : SourceFile) :
    (m.kind ≠ "abstract_method_signature" →
      ClassDecl.SignaturesOf "method_signature" name row →
        d.methods.map Node.unplaced = c.methods.map Node.unplaced ∧
        (ClassUnit.ofDecl j g d).methods.length = (ClassUnit.ofDecl i f c).methods.length ∧
        weightedMethods (ClassUnit.ofDecl j g d) = weightedMethods (ClassUnit.ofDecl i f c) ∧
        lackOfCohesion (ClassUnit.ofDecl j g d) = lackOfCohesion (ClassUnit.ofDecl i f c)) ∧
    (m.kind = "abstract_method_signature" →
      ClassDecl.SignaturesOf "abstract_method_signature" name row →
        ∃ front back, c.methods = front ++ back ∧
          d.methods.map Node.unplaced =
            (front ++ (c.abstractMethods row ++ back)).map Node.unplaced ∧
          (ClassUnit.ofDecl j g d).methods.length =
            (ClassUnit.ofDecl i f c).methods.length + (c.abstractMethods row).length ∧
          weightedMethods (ClassUnit.ofDecl j g d) = weightedMethods (ClassUnit.ofDecl i f c) +
            ((c.abstractMethods row).map cyclomaticComplexity).sum ∧
          lackOfCohesion (ClassUnit.ofDecl j g d) =
            lackOfCohesion { ClassUnit.ofDecl i f c with
              methods := front ++ (c.abstractMethods row ++ back) }) := by
  constructor
  · intro hkind hrow
    have hmethods := h.methods_of_overloads hm hmethod hname hkind hrow
    have hproperties : d.properties = c.properties :=
      h.properties_eq fun s hs => (hrow.kind_ne (by decide) hs).2
    exact ⟨hmethods, length_methods_of_unplaced hmethods, weightedMethods_of_unplaced hmethods,
      lackOfCohesion_of_unplaced hmethods hproperties⟩
  · intro _ hrow
    rcases h.methods_of_abstract hrow with ⟨front, back, hold, hnew⟩
    have hproperties : d.properties = c.properties :=
      h.properties_eq fun s hs => (hrow.kind_ne (by decide) hs).2
    -- The class with the new methods put in among its own, which is as good as `d`.
    have hunit : (ClassUnit.ofDecl j g d).methods.map Node.unplaced =
        ({ ClassUnit.ofDecl i f c with
          methods := front ++ (c.abstractMethods row ++ back) } : ClassUnit).methods.map
            Node.unplaced := hnew
    refine ⟨front, back, hold, hnew, ?_, ?_, lackOfCohesion_of_unplaced hunit hproperties⟩
    · rw [length_methods_of_unplaced hunit]
      show (front ++ (c.abstractMethods row ++ back)).length = c.methods.length + _
      rw [hold]
      simp only [List.length_append]
      omega
    · rw [weightedMethods_of_unplaced hunit]
      show ((front ++ (c.abstractMethods row ++ back)).map cyclomaticComplexity).sum =
        (c.methods.map cyclomaticComplexity).sum + _
      rw [hold]
      simp only [List.map_append, List.sum_append_nat]
      omega

/-! ## Signatures of one name -/

def numberAnnotation : Tree :=
  namedNode "type_annotation" none ": number"
    [tokenNode ":", namedNode "predefined_type" none "number" [tokenNode "number"]]

def numberParameter : Tree :=
  namedNode "required_parameter" none "x: number"
    [namedNode "identifier" (some .pattern) "x" [], numberAnnotation]

/-- The signature of a method `f` with some parameters, written as `text`. -/
def signatureOf (kind text parameterText : String) (keywords parameters : List Tree) : Tree :=
  namedNode kind none text
    (keywords ++ [namedNode "property_identifier" (some .name) "f" [],
      namedNode "formal_parameters" (some .parameters) parameterText
        ([tokenNode "("] ++ parameters ++ [tokenNode ")"]), numberAnnotation])

/-- `f(): number` -/
def plainSignature : Tree :=
  signatureOf "method_signature" "f(): number" "()" [] []

/-- `f(x: number): number` -/
def plainOverload : Tree :=
  signatureOf "method_signature" "f(x: number): number" "(x: number)" [] [numberParameter]

/-- `abstract f(): number` -/
def abstractSignature : Tree :=
  signatureOf "abstract_method_signature" "abstract f(): number" "()" [tokenNode "abstract"] []

/-- `abstract f(x: number): number` -/
def abstractOverload : Tree :=
  signatureOf "abstract_method_signature" "abstract f(x: number): number" "(x: number)"
    [tokenNode "abstract"] [numberParameter]

/-- The tree of a class `S` of some signatures, each with a semicolon behind it. -/
def signatureClass (kind text bodyText : String) (keywords signatures : List Tree) : Tree :=
  namedNode kind none text
    (keywords ++ [tokenNode "class", namedNode "type_identifier" (some .name) "S" [],
      namedNode "class_body" (some .body) bodyText
        ([tokenNode "\x7b"] ++ signatures.flatMap ([·, tokenNode ";"]) ++ [tokenNode "\x7d"])])

/-- `class S { f(): number; }` -/
def plainClass : Tree :=
  signatureClass "class_declaration" "class S \x7b f(): number; \x7d" "\x7b f(): number; \x7d" []
    [plainSignature]

/-- `class S { f(): number; f(x: number): number; }` -/
def plainClassOverloaded : Tree :=
  signatureClass "class_declaration" "class S \x7b f(): number; f(x: number): number; \x7d"
    "\x7b f(): number; f(x: number): number; \x7d" [] [plainSignature, plainOverload]

/-- `abstract class S { abstract f(): number; }` -/
def abstractClass : Tree :=
  signatureClass "abstract_class_declaration" "abstract class S \x7b abstract f(): number; \x7d"
    "\x7b abstract f(): number; \x7d" [tokenNode "abstract"] [abstractSignature]

/-- `abstract class S { abstract f(): number; abstract f(x: number): number; }` -/
def abstractClassOverloaded : Tree :=
  signatureClass "abstract_class_declaration"
    "abstract class S \x7b abstract f(): number; abstract f(x: number): number; \x7d"
    "\x7b abstract f(): number; abstract f(x: number): number; \x7d" [tokenNode "abstract"]
    [abstractSignature, abstractOverload]

/-- A second plain signature of one name weighs nothing, a second abstract one as much as the first.
-/
theorem methods_with_overloads_secondSignature :
    weightedMethods (unitOf "test.ts" plainClassOverloaded) =
        weightedMethods (unitOf "test.ts" plainClass) ∧
      weightedMethods (unitOf "test.ts" abstractClassOverloaded) =
        weightedMethods (unitOf "test.ts" abstractClass) + 1 := by
  -- In both classes the second signature is put in front of the closing brace.
  have hplain : (bareDecl plainClass).Inserted (bareDecl plainClassOverloaded)
      [tokenNode "\x7b", plainSignature, tokenNode ";"] [plainOverload, tokenNode ";"]
      [tokenNode "\x7d"] :=
    ⟨rfl, rfl, rfl⟩
  have habstract : (bareDecl abstractClass).Inserted (bareDecl abstractClassOverloaded)
      [tokenNode "\x7b", abstractSignature, tokenNode ";"] [abstractOverload, tokenNode ";"]
      [tokenNode "\x7d"] :=
    ⟨rfl, rfl, rfl⟩
  have hfirst := methods_with_overloads hplain (.tail _ (.head _)) (.head _) rfl 0 0
    (fileOf "test.ts" plainClass) (fileOf "test.ts" plainClassOverloaded)
  have hsecond := methods_with_overloads habstract (.tail _ (.head _)) (.head _) rfl 0 0
    (fileOf "test.ts" abstractClass) (fileOf "test.ts" abstractClassOverloaded)
  constructor
  · exact (hfirst.1 (by decide) (by unfold ClassDecl.SignaturesOf; decide)).2.2.1
  · rcases hsecond.2 (by decide) (by unfold ClassDecl.SignaturesOf; decide) with
      ⟨_, _, _, _, _, hweight, _⟩
    exact hweight

/-- The class has one method `f`. With another abstract signature of `f` behind it there are two
methods, and both weight and cohesion change. -/
theorem methods_secondAbstractSignature :
    (Registry.build [fileOf "test.ts" abstractClass]).toList = [unitOf "test.ts" abstractClass] ∧
      (Registry.build [fileOf "test.ts" abstractClassOverloaded]).toList =
        [unitOf "test.ts" abstractClassOverloaded] ∧
      (bareDecl abstractClass).Inserted (bareDecl abstractClassOverloaded)
        [tokenNode "\x7b", abstractSignature, tokenNode ";"] [abstractOverload, tokenNode ";"]
        [tokenNode "\x7d"] ∧
      ClassDecl.SignaturesOf "abstract_method_signature" "f" [abstractOverload, tokenNode ";"] ∧
      (unitOf "test.ts" abstractClass).methods = [⟨some "class_body", abstractSignature⟩] ∧
      (unitOf "test.ts" abstractClassOverloaded).methods.length = 2 ∧
      weightedMethods (unitOf "test.ts" abstractClass) = 1 ∧
      weightedMethods (unitOf "test.ts" abstractClassOverloaded) = 2 ∧
      lackOfCohesion (unitOf "test.ts" abstractClass) = 0 ∧
      lackOfCohesion (unitOf "test.ts" abstractClassOverloaded) = 1 := by
  refine ⟨rfl, rfl, ⟨rfl, rfl, rfl⟩, ?_, rfl, rfl, by decide, by decide, by decide, by decide⟩
  unfold ClassDecl.SignaturesOf
  decide

end ClassGauge
