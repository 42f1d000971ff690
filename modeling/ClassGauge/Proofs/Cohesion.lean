import Mathlib.Algebra.BigOperators.Fin
import Mathlib.Data.Nat.Choose.Basic
import ClassGauge.Measure.Cohesion
import ClassGauge.Proofs.Registry

/-! # Methods that belong together

Two methods of a class share a property if identifiers below both have its name as their text. Every
two methods make a pair that shares a property or a pair that does not, and what the lack of cohesion
weighs against each other is how many there are of the two sorts.

* `countP_pairs`, `countP_pairs_of_perm`: the pairs of a list are those of two positions, and their
  order makes no difference;
* `sharesField_iff`, `sharesField_mono`: when two methods share a property;
* `lackOfCohesion_pairs`: the lack of cohesion by pairs of positions, and what does not change it;
* `category_eq_identifier_iff`: which nodes are identifiers;
* `sharingMethods_by_kind`: which kinds of nodes make two methods share a property.
-/

namespace ClassGauge

open Syntax

/-! ## Pairs of members of a list -/

section Pairs

variable {α β : Type}

theorem length_pairs (xs : List α) : (pairs xs).length = xs.length.choose 2 := by
  induction xs with
  | nil => rfl
  | cons x xs ih =>
    rw [pairs, List.length_append, List.length_map, ih, List.length_cons,
      Nat.choose_succ_succ' xs.length 1, Nat.choose_one_right]

theorem pairs_map (f : α → β) (xs : List α) : pairs (xs.map f) = (pairs xs).map (Prod.map f f) := by
  induction xs with
  | nil => rfl
  | cons x xs ih => simp [pairs, ih, Function.comp_def]

/-- Which of two members comes first makes no difference to a count that does not ask for it. -/
theorem countP_pairs_of_perm {r : α × α → Bool} (hr : ∀ x y, r (x, y) = r (y, x)) {xs ys : List α}
    (h : xs.Perm ys) : (pairs xs).countP r = (pairs ys).countP r := by
  induction h with
  | nil => rfl
  | cons x hperm ih =>
    rw [pairs, pairs, List.countP_append, List.countP_append, ih,
      (hperm.map (x, ·)).countP_eq]
  | swap x y xs =>
    -- The two members change places in one pair only.
    simp only [pairs, List.map_cons, List.cons_append, List.countP_cons, List.countP_append,
      hr y x]
    omega
  | trans _ _ ih₁ ih₂ => exact ih₁.trans ih₂

/-- A count over a list is a sum over its positions. -/
theorem countP_eq_sum (r : α → Bool) (xs : List α) :
    xs.countP r = ∑ i : Fin xs.length, if r xs[i] = true then 1 else 0 := by
  refine Eq.trans ?_ (Fin.sum_univ_fun_getElem xs fun x => if r x = true then 1 else 0).symm
  induction xs with
  | nil => rfl
  | cons x xs ih => rw [List.countP_cons, ih, List.map_cons, List.sum_cons, Nat.add_comm]

/-- The pairs of a list are those of two positions, the smaller first. -/
theorem countP_pairs (r : α × α → Bool) (xs : List α) :
    (pairs xs).countP r = (Finset.univ.filter fun ij : Fin xs.length × Fin xs.length =>
      ij.1 < ij.2 ∧ r (xs[ij.1], xs[ij.2]) = true).card := by
  rw [Finset.card_filter, Fintype.sum_prod_type]
  induction xs with
  | nil => rfl
  | cons x xs ih =>
    -- The first position makes a pair with every other one, and the others make pairs as in `xs`.
    rw [pairs, List.countP_append, ih, List.countP_map, countP_eq_sum]
    show _ = ∑ i : Fin (xs.length + 1), ∑ j : Fin (xs.length + 1), _
    simp only [Fin.sum_univ_succ (n := xs.length)]
    simp

end Pairs

/-! ## Methods that share a property -/

/-- Whether two methods mention one of `fields` both. -/
def sharesField (fields : List String) (methods : Node × Node) : Bool :=
  overlap (fieldsMentioned fields methods.1) (fieldsMentioned fields methods.2)

theorem sharesField_iff {fields : List String} {m n : Node} :
    sharesField fields (m, n) = true ↔ ∃ x ∈ fields, x ∈ m.identifiers ∧ x ∈ n.identifiers := by
  simp only [sharesField, overlap, List.any_eq_true, List.contains_iff_mem, fieldsMentioned,
    List.mem_eraseDups, List.mem_filter]
  constructor
  · rintro ⟨x, ⟨hm, hx⟩, hn, _⟩
    exact ⟨x, hx, hm, hn⟩
  · rintro ⟨x, hx, hm, hn⟩
    exact ⟨x, ⟨hm, hx⟩, hn, hx⟩

theorem sharesField_comm (fields : List String) (m n : Node) :
    sharesField fields (m, n) = sharesField fields (n, m) := by
  rw [Bool.eq_iff_iff, sharesField_iff, sharesField_iff]
  constructor
  · rintro ⟨x, hx, hm, hn⟩
    exact ⟨x, hx, hn, hm⟩
  · rintro ⟨x, hx, hn, hm⟩
    exact ⟨x, hx, hm, hn⟩

/-- Methods that share a property still do when properties are added. -/
theorem sharesField_mono {fields fields' : List String} (h : fields ⊆ fields') {mn : Node × Node}
    (hmn : sharesField fields mn = true) : sharesField fields' mn = true := by
  rcases sharesField_iff.mp hmn with ⟨x, hx, hm, hn⟩
  exact sharesField_iff.mpr ⟨x, h hx, hm, hn⟩

theorem sharingPairs_mentions (u : ClassUnit) :
    sharingPairs (mentions u) = (pairs u.methods).countP (sharesField u.fieldNames) := by
  rw [sharingPairs, mentions, pairs_map, List.countP_map]
  rfl

theorem disjointPairs_mentions (u : ClassUnit) :
    disjointPairs (mentions u) =
      (pairs u.methods).countP fun mn => !sharesField u.fieldNames mn := by
  rw [disjointPairs, mentions, pairs_map, List.countP_map]
  rfl

/-- Every pair is of one sort or the other. -/
theorem disjointPairs_add_sharingPairs (u : ClassUnit) :
    disjointPairs (mentions u) + sharingPairs (mentions u) = u.methods.length.choose 2 := by
  rw [disjointPairs_mentions, sharingPairs_mentions, ← length_pairs, Nat.add_comm]
  simpa using (List.length_eq_countP_add_countP (sharesField u.fieldNames)).symm

/-- So the pairs that share a property decide the lack of cohesion. -/
theorem lackOfCohesion_eq (u : ClassUnit) :
    lackOfCohesion u = u.methods.length.choose 2 - 2 * sharingPairs (mentions u) := by
  have hadd := disjointPairs_add_sharingPairs u
  unfold lackOfCohesion
  omega

/-- Neither the order of the methods nor the order and the number of the declarations of a property
matters. -/
theorem lackOfCohesion_congr {u v : ClassUnit} (hmethods : v.methods.Perm u.methods)
    (hfields : ∀ x, x ∈ v.fieldNames ↔ x ∈ u.fieldNames) : lackOfCohesion v = lackOfCohesion u := by
  have hshares : sharesField v.fieldNames = sharesField u.fieldNames := by
    funext mn
    rw [Bool.eq_iff_iff]
    constructor
    · exact sharesField_mono fun x hx => (hfields x).mp hx
    · exact sharesField_mono fun x hx => (hfields x).mpr hx
  rw [lackOfCohesion_eq, lackOfCohesion_eq, sharingPairs_mentions, sharingPairs_mentions, hshares,
    countP_pairs_of_perm (sharesField_comm u.fieldNames) hmethods, hmethods.length_eq]

/-- With more properties there are no fewer pairs that share one. -/
theorem lackOfCohesion_anti {u v : ClassUnit} (hmethods : v.methods = u.methods)
    (hfields : u.fieldNames ⊆ v.fieldNames) : lackOfCohesion v ≤ lackOfCohesion u := by
  have hsharing : sharingPairs (mentions u) ≤ sharingPairs (mentions v) := by
    rw [sharingPairs_mentions, sharingPairs_mentions, hmethods]
    apply List.countP_mono_left
    intro mn _ hmn
    exact sharesField_mono hfields hmn
  rw [lackOfCohesion_eq, lackOfCohesion_eq, hmethods]
  omega

/-! ## Pairs of positions -/

namespace ClassUnit

/-- The names of properties that the identifiers of a method mention, as a set. -/
def mentionedBy (u : ClassUnit) (i : Fin u.methods.length) : Finset String :=
  (u.methods[i].identifiers.filter (· ∈ u.fieldNames)).toFinset

def disjointMethods (u : ClassUnit) : Finset (Fin u.methods.length × Fin u.methods.length) :=
  Finset.univ.filter fun ij => ij.1 < ij.2 ∧ Disjoint (u.mentionedBy ij.1) (u.mentionedBy ij.2)

def sharingMethods (u : ClassUnit) : Finset (Fin u.methods.length × Fin u.methods.length) :=
  Finset.univ.filter fun ij => ij.1 < ij.2 ∧ ¬ Disjoint (u.mentionedBy ij.1) (u.mentionedBy ij.2)

variable {u : ClassUnit} {i j : Fin u.methods.length} {x : String}

theorem mem_mentionedBy : x ∈ u.mentionedBy i ↔ x ∈ u.fieldNames ∧
    ∃ n ∈ u.methods[i].descendants, n.category = some .identifier ∧ n.tree.text = x := by
  simp only [mentionedBy, List.mem_toFinset, List.mem_filter, Node.identifiers, List.mem_map,
    decide_eq_true_eq]
  constructor
  · rintro ⟨⟨n, ⟨hn, hcategory⟩, htext⟩, hx⟩
    exact ⟨hx, n, hn, hcategory, htext⟩
  · rintro ⟨hx, n, hn, hcategory, htext⟩
    exact ⟨⟨n, ⟨hn, hcategory⟩, htext⟩, hx⟩

theorem not_disjoint_mentionedBy_iff :
    ¬ Disjoint (u.mentionedBy i) (u.mentionedBy j) ↔
      sharesField u.fieldNames (u.methods[i], u.methods[j]) = true := by
  rw [Finset.not_disjoint_iff, sharesField_iff]
  simp only [mentionedBy, List.mem_toFinset, List.mem_filter, decide_eq_true_eq]
  constructor
  · rintro ⟨x, ⟨hi, hx⟩, hj, _⟩
    exact ⟨x, hx, hi, hj⟩
  · rintro ⟨x, hx, hi, hj⟩
    exact ⟨x, ⟨hi, hx⟩, hj, hx⟩

theorem card_sharingMethods (u : ClassUnit) :
    u.sharingMethods.card = sharingPairs (mentions u) := by
  rw [sharingPairs_mentions, countP_pairs]
  congr 1
  apply Finset.filter_congr
  intro ij _
  rw [not_disjoint_mentionedBy_iff]

theorem card_disjointMethods (u : ClassUnit) :
    u.disjointMethods.card = disjointPairs (mentions u) := by
  rw [disjointPairs_mentions, countP_pairs]
  congr 1
  apply Finset.filter_congr
  intro ij _
  rw [Bool.not_eq_true', ← Bool.not_eq_true, ← not_disjoint_mentionedBy_iff, not_not]

/-- The lack of cohesion, with the pairs taken as pairs of positions. -/
theorem lackOfCohesion_eq_max (u : ClassUnit) :
    (lackOfCohesion u : ℤ) = max ((u.disjointMethods.card : ℤ) - u.sharingMethods.card) 0 := by
  rw [card_disjointMethods, card_sharingMethods, lackOfCohesion]
  omega

theorem card_disjointMethods_add (u : ClassUnit) :
    u.disjointMethods.card + u.sharingMethods.card =
      u.methods.length * (u.methods.length - 1) / 2 := by
  rw [card_disjointMethods, card_sharingMethods, disjointPairs_add_sharingPairs,
    Nat.choose_two_right]

end ClassUnit

/-- The lack of cohesion is the number of pairs of methods that mention no property in common, less
that of the pairs that do, and never below zero; every two methods make one such pair. It is the same
for the methods in any other order and for the properties in any other order and number, and it does
not grow when properties are added. -/
theorem lackOfCohesion_pairs (u : ClassUnit) :
    (∀ i x, x ∈ u.mentionedBy i ↔ x ∈ u.fieldNames ∧
      ∃ n ∈ u.methods[i].descendants, n.category = some .identifier ∧ n.tree.text = x) ∧
    (lackOfCohesion u : ℤ) = max ((u.disjointMethods.card : ℤ) - u.sharingMethods.card) 0 ∧
    u.disjointMethods.card + u.sharingMethods.card =
      u.methods.length * (u.methods.length - 1) / 2 ∧
    (∀ v : ClassUnit, v.methods.Perm u.methods → (∀ x, x ∈ v.fieldNames ↔ x ∈ u.fieldNames) →
      lackOfCohesion v = lackOfCohesion u) ∧
    ∀ v : ClassUnit, v.methods = u.methods → u.fieldNames ⊆ v.fieldNames →
      lackOfCohesion v ≤ lackOfCohesion u := by
  refine ⟨?_, u.lackOfCohesion_eq_max, u.card_disjointMethods_add, ?_, ?_⟩
  · intro i x
    exact ClassUnit.mem_mentionedBy
  · intro v hmethods hfields
    exact lackOfCohesion_congr hmethods hfields
  · intro v hmethods hfields
    exact lackOfCohesion_anti hmethods hfields

/-- A class with the properties `a` and `b` and three methods, two of which read `c` as well. -/
def threeReaders : ClassUnit :=
  let name (role : Option Role) (text : String) : Tree :=
    namedNode "property_identifier" role text []
  let property (text : String) : Tree :=
    namedNode "public_field_definition" none text [name (some .name) text]
  let read (text : String) : Tree :=
    namedNode "member_expression" none ("this." ++ text)
      [namedNode "this" none "this" [], tokenNode ".", name none text]
  let method (text : String) (reads : List String) : Tree :=
    namedNode "method_definition" none text
      [name (some .name) text, namedNode "statement_block" (some .body) "" (reads.map read)]
  let members := [property "a", property "b", method "first" ["a", "c"], method "second" ["b", "c"],
    method "third" ["a"]]
  unitOf "readers.ts" (namedNode "class_declaration" none "class Readers"
    [tokenNode "class", namedNode "type_identifier" (some .name) "Readers" [],
      namedNode "class_body" (some .body) "" members])

/-- One pair of methods shares a property and two do not, in whatever order, until `c` is declared as
well. -/
theorem lackOfCohesion_pairs_threeReaders :
    let reordered := { threeReaders with
      methods := threeReaders.methods.reverse, fields := threeReaders.fields ++ threeReaders.fields }
    let extended := { threeReaders with fields := ⟨"c", none⟩ :: threeReaders.fields }
    threeReaders.disjointMethods.card = 2 ∧ threeReaders.sharingMethods.card = 1 ∧
      lackOfCohesion threeReaders = 1 ∧ lackOfCohesion reordered = lackOfCohesion threeReaders ∧
      lackOfCohesion extended = 0 ∧ lackOfCohesion extended ≤ lackOfCohesion threeReaders := by
  rcases lackOfCohesion_pairs threeReaders with ⟨_, _, _, hcongr, hanti⟩
  refine ⟨by decide, by decide, by decide, ?_, by decide, ?_⟩
  · apply hcongr
    · exact threeReaders.methods.reverse_perm
    · simp [ClassUnit.fieldNames]
  · apply hanti
    · rfl
    · exact List.subset_cons_self _ _

/-! ## Which nodes mention a property -/

/-- The kinds of named nodes that count as identifiers. -/
def identifierKinds : List String :=
  ["identifier", "property_identifier", "type_identifier", "shorthand_property_identifier",
    "shorthand_property_identifier_pattern", "statement_identifier", "undefined"]

theorem ofToken_ne_identifier (parent : Option String) (kind : String) :
    Category.ofToken parent kind ≠ some .identifier := by
  unfold Category.ofToken
  split <;> simp

theorem ofNamed_eq_identifier_iff (parent : Option String) (kind : String) :
    Category.ofNamed parent kind = some .identifier ↔ kind ∈ identifierKinds := by
  unfold Category.ofNamed
  split <;> simp_all [identifierKinds]

/-- A node is an identifier if it is a named node of one of these kinds and not the name of a
constructor. -/
theorem category_eq_identifier_iff {n : Node} : n.category = some .identifier ↔
    n.tree.isToken = false ∧ n.tree.kind ∈ identifierKinds ∧ n.isConstructorName = false := by
  unfold Node.category
  cases n.tree.isToken with
  | true => simp [ofToken_ne_identifier]
  | false =>
    cases n.isConstructorName with
    | true => simp
    | false => simp [ofNamed_eq_identifier_iff]

/-- Below a method there is a named node of one of some kinds, and not the name of a constructor, whose
text is `x`. -/
def Syntax.Node.Names (kinds : List String) (method : Node) (x : String) : Prop :=
  ∃ n ∈ method.descendants, n.tree.isToken = false ∧ n.tree.kind ∈ kinds ∧
    n.isConstructorName = false ∧ n.tree.text = x

theorem Syntax.Node.Names.mono {kinds kinds' : List String} (h : kinds ⊆ kinds') {method : Node}
    {x : String} (hx : method.Names kinds x) : method.Names kinds' x := by
  rcases hx with ⟨n, hn, hnamed, hkind, hconstructor, htext⟩
  exact ⟨n, hn, hnamed, h hkind, hconstructor, htext⟩

theorem mem_identifiers_iff {method : Node} {x : String} :
    x ∈ method.identifiers ↔ method.Names identifierKinds x := by
  simp only [Node.identifiers, List.mem_map, List.mem_filter, decide_eq_true_eq, Node.Names,
    category_eq_identifier_iff]
  constructor
  · rintro ⟨n, ⟨hn, hnamed, hkind, hconstructor⟩, htext⟩
    exact ⟨n, hn, hnamed, hkind, hconstructor, htext⟩
  · rintro ⟨n, hn, hnamed, hkind, hconstructor, htext⟩
    exact ⟨n, ⟨hn, hnamed, hkind, hconstructor⟩, htext⟩

theorem mem_sharingMethods_iff {u : ClassUnit} {i j : Fin u.methods.length} :
    (i, j) ∈ u.sharingMethods ↔ i < j ∧ ∃ x ∈ u.fieldNames,
      u.methods[i].Names identifierKinds x ∧ u.methods[j].Names identifierKinds x := by
  rw [ClassUnit.sharingMethods, Finset.mem_filter, ClassUnit.not_disjoint_mentionedBy_iff,
    sharesField_iff]
  simp only [Finset.mem_univ, true_and, mem_identifiers_iff]

/-- Two methods count as sharing if the name of one property is the text of an identifier below both,
where identifiers are nodes of certain kinds. Plain identifiers and names of members are among these
kinds. Names of private members are not: a method whose only uses of properties are such names shares
nothing. -/
theorem sharingMethods_by_kind (u : ClassUnit) :
    (lackOfCohesion u : ℤ) = max ((u.disjointMethods.card : ℤ) - u.sharingMethods.card) 0 ∧
    ∀ i j, i < j →
      ((i, j) ∈ u.sharingMethods ↔ ∃ x ∈ u.fieldNames,
        u.methods[i].Names identifierKinds x ∧ u.methods[j].Names identifierKinds x) ∧
      (∀ x ∈ u.fieldNames, u.methods[i].Names ["identifier", "property_identifier"] x →
        u.methods[j].Names ["identifier", "property_identifier"] x → (i, j) ∈ u.sharingMethods) ∧
      ∀ k ∈ [i, j], (∀ n ∈ u.methods[k].descendants, n.tree.text ∈ u.fieldNames →
        n.tree.kind = "private_property_identifier") → (i, j) ∉ u.sharingMethods := by
  refine ⟨u.lackOfCohesion_eq_max, ?_⟩
  intro i j hij
  have hkinds : ["identifier", "property_identifier"] ⊆ identifierKinds := by decide
  have hprivate : "private_property_identifier" ∉ identifierKinds := by decide
  refine ⟨by simp [mem_sharingMethods_iff, hij], ?_, ?_⟩
  · -- Uses of a property that are ordinary identifiers are among those that count.
    intro x hx hi hj
    exact mem_sharingMethods_iff.mpr ⟨hij, x, hx, hi.mono hkinds, hj.mono hkinds⟩
  · -- If all uses are private names, the one that makes the pair share a property is one as well,
    -- and private names do not count.
    intro k hk honly hshares
    rcases mem_sharingMethods_iff.mp hshares with ⟨_, x, hx, hi, hj⟩
    have hnames : u.methods[k].Names identifierKinds x := by
      rcases List.mem_pair.mp hk with rfl | rfl
      · exact hi
      · exact hj
    rcases hnames with ⟨n, hn, _, hkind, _, rfl⟩
    rw [honly n hn hx] at hkind
    exact hprivate hkind

/-- The tree of a class with private members, of which two methods use the first:
`class C { #priv = 1; #m() { return this.#priv; } static #s = 2; get #g() { return 3; }
has(o) { return #priv in o; } }`. -/
def privateClass : Tree :=
  let hidden (role : Option Role) (text : String) : Tree :=
    namedNode "private_property_identifier" role text []
  let number (text : String) : Tree := namedNode "number" none text []
  let noParameters := namedNode "formal_parameters" (some .parameters) "()"
    [tokenNode "(", tokenNode ")"]
  let returning (text : String) (value : Tree) : Tree :=
    namedNode "statement_block" (some .body) text
      [tokenNode "\x7b", namedNode "return_statement" none ("return " ++ value.text ++ ";")
        [tokenNode "return", value, tokenNode ";"], tokenNode "\x7d"]
  let member := namedNode "member_expression" none "this.#priv"
    [namedNode "this" none "this" [], tokenNode ".", hidden none "#priv"]
  let parameter := namedNode "required_parameter" none "o"
    [namedNode "identifier" (some .pattern) "o" []]
  let test := namedNode "binary_expression" none "#priv in o"
    [hidden none "#priv", tokenNode "in", namedNode "identifier" none "o" []]
  let members :=
    [namedNode "public_field_definition" none "#priv = 1"
        [hidden (some .name) "#priv", tokenNode "=", number "1"],
      tokenNode ";",
      namedNode "method_definition" none "#m() \x7b return this.#priv; \x7d"
        [hidden (some .name) "#m", noParameters, returning "\x7b return this.#priv; \x7d" member],
      namedNode "public_field_definition" none "static #s = 2"
        [tokenNode "static", hidden (some .name) "#s", tokenNode "=", number "2"],
      tokenNode ";",
      namedNode "method_definition" none "get #g() \x7b return 3; \x7d"
        [tokenNode "get", hidden (some .name) "#g", noParameters,
          returning "\x7b return 3; \x7d" (number "3")],
      namedNode "method_definition" none "has(o) \x7b return #priv in o; \x7d"
        [namedNode "property_identifier" (some .name) "has" [],
          namedNode "formal_parameters" (some .parameters) "(o)"
            [tokenNode "(", parameter, tokenNode ")"],
          returning "\x7b return #priv in o; \x7d" test]]
  let body := "\x7b #priv = 1; #m() \x7b return this.#priv; \x7d static #s = 2; " ++
    "get #g() \x7b return 3; \x7d has(o) \x7b return #priv in o; \x7d \x7d"
  namedNode "class_declaration" none ("class C " ++ body)
    [tokenNode "class", namedNode "type_identifier" (some .name) "C" [],
      namedNode "class_body" (some .body) body
        ([tokenNode "\x7b"] ++ members ++ [tokenNode "\x7d"])]

/-- The class with private members as it is registered. -/
def privateReaders : ClassUnit :=
  unitOf "test.ts" privateClass

/-- Two methods share a property that both read by its plain name, and no two methods one that they
read by its private name. -/
theorem sharingMethods_by_kind_readers :
    ((0 : Fin 3), (2 : Fin 3)) ∈ threeReaders.sharingMethods ∧
      ((0 : Fin 2), (1 : Fin 2)) ∉ privateReaders.sharingMethods := by
  constructor
  · have hshared := (sharingMethods_by_kind threeReaders).2 (0 : Fin 3) (2 : Fin 3) (by decide)
    refine hshared.2.1 "a" (by decide) ?_ ?_
    · unfold Node.Names
      decide
    · unfold Node.Names
      decide
  · have hprivate := (sharingMethods_by_kind privateReaders).2 (0 : Fin 2) (1 : Fin 2) (by decide)
    exact hprivate.2.2 (0 : Fin 2) List.mem_cons_self (by decide)

/-- The two methods of the class use the property `#priv` both, and still the pair does not count as
sharing. -/
theorem sharingMethods_privateReaders :
    (Registry.build [fileOf "test.ts" privateClass]).toList = [privateReaders] ∧
      "#priv" ∈ privateReaders.fieldNames ∧ privateReaders.methods.length = 2 ∧
      (∀ m ∈ privateReaders.methods, ∃ n ∈ m.descendants, n.tree.isToken = false ∧
        n.tree.kind = "private_property_identifier" ∧ n.tree.text = "#priv") ∧
      privateReaders.sharingMethods = ∅ ∧ lackOfCohesion privateReaders = 1 := by
  refine ⟨rfl, by decide, rfl, by decide, by decide, by decide⟩

end ClassGauge
