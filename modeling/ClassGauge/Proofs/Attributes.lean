import ClassGauge.Proofs.Tally

/-! # Equals signs in markup

A plain equals sign counts as an assignment wherever it stands, and so does the one between the name
and the value of an attribute of markup. Two trees that differ only in such attributes have the same
equals signs elsewhere, but the counter tells them apart by the number of the attributes.

* `Tree.undressed`: a tree without valued attributes, texts and lines;
* `undressedForest_insert`: a row is undressed the same with more attributes;
* `undressedSigns`: the equals signs of a tree and those of the undressed tree;
* `assignments_of_undressed`: the counters of trees that differ in their attributes.
-/

namespace ClassGauge

open Syntax

/-! ## Trees without attributes -/

namespace Syntax

def Node.isEqualsSign (n : Node) : Bool :=
  n.tree.isToken && n.tree.kind = "="

def Node.isAttributeSign (n : Node) : Bool :=
  n.isEqualsSign && n.parent = some "jsx_attribute"

/-- Whether a node is any other equals sign: that of an assignment or a declaration, or the one in
front of an initial value. -/
def Node.isPlainSign (n : Node) : Bool :=
  n.isEqualsSign && !decide (n.parent = some "jsx_attribute")

/-- Whether a tree is an attribute with a value: a name, an equals sign and a string, with no other
equals sign below the name or the string. -/
def Tree.isValuedAttribute (t : Tree) : Bool :=
  t.kind = "jsx_attribute" && t.descendants.countP Node.isEqualsSign = 1 &&
    match t.children with
    | [name, sign, value] =>
      !name.isToken && sign.isToken && sign.kind = "=" && !value.isToken && value.kind = "string"
    | _ => false

/-- The tags in which elements of markup have their attributes. -/
def tagKinds : List String := ["jsx_opening_element", "jsx_self_closing_element"]

/-- Whether a node is an attribute with a value of an element of markup. -/
def Node.isValuedAttribute (n : Node) : Bool :=
  n.parent.any tagKinds.contains && n.tree.isValuedAttribute

mutual

/-- A tree without the valued attributes of its elements, and without texts and lines. -/
def Tree.undressed : Tree → Tree
  | .node l cs => .node { l with line := 0, text := "" } (undressedForest l.kind cs)

/-- The same for a row of siblings below a parent of kind `parent`. -/
def undressedForest (parent : String) : List Tree → List Tree
  | [] => []
  | t :: ts =>
    if Node.isValuedAttribute ⟨some parent, t⟩ then undressedForest parent ts
    else t.undressed :: undressedForest parent ts

end

variable {t : Tree} {parent : String}

@[simp] theorem kind_undressed (t : Tree) : t.undressed.kind = t.kind := by
  cases t
  rfl

@[simp] theorem isToken_undressed (t : Tree) : t.undressed.isToken = t.isToken := by
  cases t
  rfl

theorem undressedForest_eq_map (parent : String) (ts : List Tree) :
    undressedForest parent ts =
      (ts.filter fun t => !Node.isValuedAttribute ⟨some parent, t⟩).map Tree.undressed := by
  induction ts with
  | nil => rfl
  | cons t ts ih =>
    cases h : Node.isValuedAttribute ⟨some parent, t⟩ with
    | true => simp [undressedForest, h, ih]
    | false => simp [undressedForest, h, ih]

/-- A child that is no attribute is there in the undressed tree, too. -/
theorem mem_children_undressed {s : Tree} (hs : s ∈ t.children)
    (h : Node.isValuedAttribute ⟨some t.kind, s⟩ = false) : s.undressed ∈ t.undressed.children := by
  obtain ⟨l, cs⟩ := t
  rw [Tree.undressed, Tree.children_node, undressedForest_eq_map]
  exact List.mem_map.mpr ⟨s, List.mem_filter.mpr ⟨hs, by rw [Bool.not_eq_true']; exact h⟩, rfl⟩

/-- Where there is no tag, everything below is undressed and nothing is left out. -/
theorem undressed_of_not_mem_tagKinds {l : Label} (h : l.kind ∉ tagKinds) (cs : List Tree) :
    (Tree.node l cs).undressed =
      .node { l with line := 0, text := "" } (cs.map Tree.undressed) := by
  simp [Tree.undressed, undressedForest_eq_map, Node.isValuedAttribute, h]

/-- A row is undressed the same with more attributes, wherever they are put. -/
theorem undressedForest_insert {row : List Tree}
    (h : ∀ a ∈ row, Node.isValuedAttribute ⟨some parent, a⟩ = true) (before behind : List Tree) :
    undressedForest parent (before ++ row ++ behind) =
      undressedForest parent (before ++ behind) := by
  have hdropped : row.filter (fun t => !Node.isValuedAttribute ⟨some parent, t⟩) = [] := by
    rw [List.filter_eq_nil_iff]
    intro a ha
    simp [h a ha]
  simp only [undressedForest_eq_map, List.filter_append, hdropped, List.append_nil]

end Syntax

/-! ## The signs of an attribute -/

variable {t : Tree}

/-- Every equals sign is of one of two sorts. -/
theorem countP_isEqualsSign (ns : List Node) :
    ns.countP Node.isEqualsSign =
      ns.countP Node.isPlainSign + ns.countP Node.isAttributeSign := by
  rw [List.countP_eq_countP_filter_add ns _ fun m => !decide (m.parent = some "jsx_attribute"),
    List.countP_filter, List.countP_filter]
  simp only [Bool.not_not]
  rfl

theorem isValuedAttribute_cases (h : t.isValuedAttribute = true) :
    t.kind = "jsx_attribute" ∧ t.descendants.countP Node.isEqualsSign = 1 ∧
      ∃ sign ∈ t.children, sign.isToken = true ∧ sign.kind = "=" := by
  simp only [Tree.isValuedAttribute, Bool.and_eq_true, decide_eq_true_eq] at h
  rcases h with ⟨⟨hkind, hone⟩, hchildren⟩
  refine ⟨hkind, hone, ?_⟩
  split at hchildren
  · next name sign value heq =>
    simp only [Bool.and_eq_true, decide_eq_true_eq] at hchildren
    exact ⟨sign, by simp [heq], hchildren.1.1.1.2, hchildren.1.1.2⟩
  · cases hchildren

/-- The equals sign of an attribute is there in the undressed attribute, too. -/
theorem attributeSign_undressed (h : t.isValuedAttribute = true) :
    1 ≤ t.undressed.descendants.countP Node.isAttributeSign := by
  rcases isValuedAttribute_cases h with ⟨hkind, _, sign, hsign, htoken, hequals⟩
  have hmem : sign.undressed ∈ t.undressed.children :=
    mem_children_undressed hsign (by simp [Node.isValuedAttribute, tagKinds, hkind])
  have hwalk := Node.walk_sublist_of_mem_children (Node.mem_children_of_mem none hmem)
  refine List.one_le_countP_iff.mpr ⟨_, hwalk.subset List.mem_cons_self, ?_⟩
  simp [Node.isAttributeSign, Node.isEqualsSign, hkind, htoken, hequals]

/-- Some nodes have as many equals signs outside attributes as those of the undressed trees, and one
more in attributes for each valued attribute. -/
def UndressedSigns (ns undressed : List Node) : Prop :=
  ns.countP Node.isPlainSign = undressed.countP Node.isPlainSign ∧
    ns.countP Node.isAttributeSign =
      undressed.countP Node.isAttributeSign + ns.countP Node.isValuedAttribute

/-- An attribute holds its own equals sign and no attribute. -/
theorem countP_below_attribute (h : t.isValuedAttribute = true)
    (hsigns : UndressedSigns t.descendants t.undressed.descendants) :
    t.descendants.countP Node.isPlainSign = 0 ∧ t.descendants.countP Node.isAttributeSign = 1 ∧
      t.descendants.countP Node.isValuedAttribute = 0 := by
  rcases isValuedAttribute_cases h with ⟨_, hone, _⟩
  have hsign := attributeSign_undressed h
  rw [countP_isEqualsSign] at hone
  rcases hsigns with ⟨hplain, hattribute⟩
  omega

mutual

/-- A tree has the equals signs of the undressed tree, and one for each of its attributes. -/
theorem undressedSigns (t : Tree) : UndressedSigns t.descendants t.undressed.descendants :=
  match t with
  | .node l cs => undressedSigns_forest l.kind cs

theorem undressedSigns_forest (parent : String) (ts : List Tree) :
    UndressedSigns (forestNodes parent ts) (forestNodes parent (undressedForest parent ts)) :=
  match ts with
  | [] => ⟨rfl, rfl⟩
  | t :: ts => by
    have hbelow := undressedSigns t
    have hrest := undressedSigns_forest parent ts
    cases h : Node.isValuedAttribute ⟨some parent, t⟩ with
    | true =>
      -- The attribute itself is no sign, and below it there is only its own.
      have hvalued : t.isValuedAttribute = true := by
        simp only [Node.isValuedAttribute, Bool.and_eq_true] at h
        exact h.2
      have hsigns := countP_below_attribute hvalued hbelow
      have hnone : Node.isEqualsSign ⟨some parent, t⟩ = false := by
        simp [Node.isEqualsSign, (isValuedAttribute_cases hvalued).1]
      have hplain : Node.isPlainSign ⟨some parent, t⟩ = false := by
        simp [Node.isPlainSign, hnone]
      have hattribute : Node.isAttributeSign ⟨some parent, t⟩ = false := by
        simp [Node.isAttributeSign, hnone]
      rw [undressedForest, if_pos h]
      simp only [UndressedSigns, forestNodes_cons, List.countP_cons, List.countP_append, h, hplain,
        hattribute, hsigns, Bool.false_eq_true, reduceIte] at hrest ⊢
      omega
    | false =>
      have hplain : Node.isPlainSign ⟨some parent, t.undressed⟩ =
          Node.isPlainSign ⟨some parent, t⟩ := by
        simp [Node.isPlainSign, Node.isEqualsSign]
      have hattribute : Node.isAttributeSign ⟨some parent, t.undressed⟩ =
          Node.isAttributeSign ⟨some parent, t⟩ := by
        simp [Node.isAttributeSign, Node.isEqualsSign]
      rw [undressedForest, if_neg (by simp [h])]
      simp only [UndressedSigns, forestNodes_cons, List.countP_cons, List.countP_append, h, hplain,
        hattribute, Bool.false_eq_true, reduceIte] at hbelow hrest ⊢
      omega

end

/-! ## The counter -/

/-- Every equals sign counts as an assignment, whatever it stands in. -/
theorem category_eq_assignment_iff {n : Node} :
    n.category = some .assignment ↔ n.isEqualsSign = true := by
  have htoken : ∀ kind, Category.ofToken n.parent kind = some .assignment ↔ kind = "=" := by
    intro kind
    unfold Category.ofToken
    split <;> simp_all
  have hnamed := ofNamed_ne_of_mem_tokenCategories (c := .assignment) (by decide) n.parent
    n.tree.kind
  unfold Node.category
  cases h : n.tree.isToken with
  | true => simp [htoken, Node.isEqualsSign, h]
  | false =>
    cases n.isConstructorName with
    | true => simp [Node.isEqualsSign, h]
    | false => simp [hnamed, Node.isEqualsSign, h]

theorem category_eq_assignment_iff_or {n : Node} :
    n.category = some .assignment ↔ n.isPlainSign = true ∨ n.isAttributeSign = true := by
  rw [category_eq_assignment_iff]
  cases hparent : decide (n.parent = some "jsx_attribute") with
  | true => simp [Node.isPlainSign, Node.isAttributeSign, hparent]
  | false => simp [Node.isPlainSign, Node.isAttributeSign, hparent]

theorem assignments_eq (n : Node) : (Tally.ofNode n).assignments =
    n.descendants.countP Node.isPlainSign + n.descendants.countP Node.isAttributeSign := by
  rw [Tally.ofNode_eq_counts, ← countP_isEqualsSign]
  apply List.countP_congr
  intro m _
  simp [category_eq_assignment_iff]

/-- The counter of assignments, for every node and so for every class. It counts the equals signs of
assignments, declarations and initial values, and those of attributes of markup as well; so it is the
number of the former exactly if there are none of the latter. If two trees are the same but for valued
attributes of elements of markup, in whatever depth and number, they have the same equals signs outside
attributes, but their counters differ by the number of attributes: they are the same exactly if there
are as many attributes in the one as in the other. -/
theorem assignments_of_undressed (m n : Node) :
    (Tally.ofNode n).assignments =
        n.descendants.countP Node.isPlainSign + n.descendants.countP Node.isAttributeSign ∧
      (n.category = some .assignment ↔ n.isPlainSign = true ∨ n.isAttributeSign = true) ∧
      ((Tally.ofNode n).assignments = n.descendants.countP Node.isPlainSign ↔
        ∀ d ∈ n.descendants, d.isAttributeSign = false) ∧
      (m.tree.undressed = n.tree.undressed →
        m.descendants.countP Node.isPlainSign = n.descendants.countP Node.isPlainSign ∧
        (Tally.ofNode m).assignments + n.descendants.countP Node.isValuedAttribute =
          (Tally.ofNode n).assignments + m.descendants.countP Node.isValuedAttribute ∧
        ((Tally.ofNode m).assignments = (Tally.ofNode n).assignments ↔
          m.descendants.countP Node.isValuedAttribute =
            n.descendants.countP Node.isValuedAttribute)) := by
  have hm := assignments_eq m
  have hn := assignments_eq n
  refine ⟨hn, category_eq_assignment_iff_or, ?_, ?_⟩
  · rw [hn, Nat.add_eq_left, List.countP_eq_zero]
    simp only [Bool.not_eq_true]
  · intro h
    -- Each tree is compared with the tree without attributes, which is the same for both.
    rcases undressedSigns m.tree with ⟨hplain, hattribute⟩
    rcases undressedSigns n.tree with ⟨hplain', hattribute'⟩
    rw [h] at hplain hattribute
    unfold Node.descendants at *
    omega

def attributeNode (name value : String) : Tree :=
  let text := "\"" ++ value ++ "\""
  namedNode "jsx_attribute" none (name ++ "=" ++ text)
    [namedNode "property_identifier" none name [], tokenNode "=",
      namedNode "string" none text
        [tokenNode "\"", namedNode "string_fragment" none value [], tokenNode "\""]]

/-- The tree of the element `<a/>` with some attributes. -/
def linkElement (attributes : List Tree) : Tree :=
  namedNode "jsx_self_closing_element" none
    ("<a" ++ String.join (attributes.map (" " ++ ·.text)) ++ "/>")
    ([tokenNode "<", namedNode "identifier" (some .name) "a" []] ++ attributes ++ [tokenNode "/>"])

/-- The tree of `class V { r() { return <a/>; } }` with some element in the place of `<a/>`. -/
def elementClass (element : Tree) : Tree :=
  let blockText := "\x7b return " ++ element.text ++ "; \x7d"
  let bodyText := "\x7b r() " ++ blockText ++ " \x7d"
  let block := namedNode "statement_block" (some .body) blockText
    [tokenNode "\x7b",
      namedNode "return_statement" none ("return " ++ element.text ++ ";")
        [tokenNode "return", element, tokenNode ";"],
      tokenNode "\x7d"]
  let method := namedNode "method_definition" none ("r() " ++ blockText)
    [namedNode "property_identifier" (some .name) "r" [],
      namedNode "formal_parameters" (some .parameters) "()" [tokenNode "(", tokenNode ")"], block]
  namedNode "class_declaration" none ("class V " ++ bodyText)
    [tokenNode "class", namedNode "type_identifier" (some .name) "V" [],
      namedNode "class_body" (some .body) bodyText [tokenNode "\x7b", method, tokenNode "\x7d"]]

/-- The class whose element has some attributes. -/
def linkClass (attributes : List Tree) : Tree :=
  elementClass (linkElement attributes)

/-- Whatever attributes its element has, the class is undressed the same. -/
theorem undressed_linkClass {attributes : List Tree}
    (h : ∀ a ∈ attributes, a.isValuedAttribute = true) :
    (linkClass attributes).undressed = (linkClass []).undressed := by
  have hvalued : ∀ a ∈ attributes,
      Node.isValuedAttribute ⟨some "jsx_self_closing_element", a⟩ = true := by
    intro a ha
    simp [Node.isValuedAttribute, tagKinds, h a ha]
  have helement : (linkElement attributes).undressed = (linkElement []).undressed := by
    simp only [linkElement, namedNode, Tree.undressed, undressedForest_insert hvalued,
      List.append_nil]
  simp [linkClass, elementClass, namedNode, tokenNode, undressed_of_not_mem_tagKinds, tagKinds,
    helement]

/-- A class and the same class with a second attribute in its element. -/
theorem assignments_of_undressed_linkClass :
    let m := unitOf "v.tsx" (linkClass [attributeNode "href" "x"])
    let n := unitOf "v.tsx" (linkClass [attributeNode "href" "x", attributeNode "rel" "y"])
    m.node.tree.undressed = n.node.tree.undressed ∧
      m.node.descendants.countP Node.isValuedAttribute = 1 ∧
      n.node.descendants.countP Node.isValuedAttribute = 2 ∧
      (Tally.ofNode m.node).assignments + 2 = (Tally.ofNode n.node).assignments + 1 := by
  intro m n
  have hundressed : m.node.tree.undressed = n.node.tree.undressed :=
    (undressed_linkClass (by decide)).trans (undressed_linkClass (by decide)).symm
  have hm : m.node.descendants.countP Node.isValuedAttribute = 1 := by decide
  have hn : n.node.descendants.countP Node.isValuedAttribute = 2 := by decide
  rcases assignments_of_undressed m.node n.node with ⟨_, _, _, hsame⟩
  have hcounters := (hsame hundressed).2.1
  rw [hm, hn] at hcounters
  exact ⟨hundressed, hm, hn, hcounters⟩

/-- An attribute more in the element of a class is an assignment more. -/
theorem assignments_attribute :
    let bare := unitOf "v.tsx" (linkClass [])
    let dressed := unitOf "v.tsx" (linkClass [attributeNode "href" "x"])
    (Registry.build [bare.file]).toList = [bare] ∧
      (Registry.build [dressed.file]).toList = [dressed] ∧
      bare.node.tree.undressed = dressed.node.tree.undressed ∧
      (Tally.ofNode bare.node).assignments = 0 ∧ (Tally.ofNode dressed.node).assignments = 1 ∧
      dressed.node.descendants.countP Node.isPlainSign = 0 := by
  refine ⟨rfl, rfl, (undressed_linkClass (by decide)).symm, by decide, by decide, by decide⟩

end ClassGauge
