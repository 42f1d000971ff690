import Mathlib.Data.List.Sort
import ClassGauge.Syntax.ClassDecl

/-! # Which members are methods

The members of a class are looked at from the first to the last, and the names of the signatures
that were taken are kept on the way. What is taken in the end can be said of each member by itself,
given the members in front of it and the names that the class implements somewhere.

* `LoneSignature`: a signature that no implementation of the class belongs to;
* `selectMethods_cons_cases`: what one member adds to the methods;
* `selectMethods_append`, `selectMethods_insert`: what rows of members add;
* `exists_positions_selectMethods`: at which positions the methods of a row of members stand;
* `SameHead`, `selectMethods_of_forall₂`: what of a member decides whether it is a method;
* `methods_at_positions`: the methods of a class by their positions among its members.
-/

namespace ClassGauge.Syntax

/-- A signature without a body that declares a method `name` for itself: it is neither a constructor
nor an accessor, and none of the names `implemented` is its name. -/
structure LoneSignature (implemented : List String) (m : Tree) (name : String) : Prop where
  kind_eq : m.kind = "method_signature"
  name_eq : m.nameText? = some name
  not_accessor : m.isAccessor = false
  ne_constructor : name ≠ "constructor"
  not_implemented : name ∉ implemented

/-- Whether a member is a method, where `seen` holds of the names that other signatures have taken.
-/
def IsMethod (implemented : List String) (seen : String → Prop) (m : Tree) : Prop :=
  (m.kind = "method_definition" ∧ m.nameText? ≠ some "constructor" ∧ m.isAccessor = false) ∨
  (m.kind = "abstract_method_signature" ∧ m.isAccessor = false) ∨
  ∃ name, LoneSignature implemented m name ∧ ¬ seen name

section OneMember

variable {implemented : List String} {seen : String → Prop} {m : Tree} {name : String}

theorem not_loneSignature (h : m.kind ≠ "method_signature") (x : String) :
    ¬ LoneSignature implemented m x := by
  intro hlone
  exact h hlone.kind_eq

theorem isMethod_definition (h : m.kind = "method_definition") :
    IsMethod implemented seen m ↔ m.isConstructor = false ∧ m.isAccessor = false := by
  have hlone : ∀ x, ¬ LoneSignature implemented m x := not_loneSignature (by simp [h])
  simp [IsMethod, h, hlone, Tree.isConstructor]

theorem isMethod_abstract (h : m.kind = "abstract_method_signature") :
    IsMethod implemented seen m ↔ m.isAccessor = false := by
  have hlone : ∀ x, ¬ LoneSignature implemented m x := not_loneSignature (by simp [h])
  simp [IsMethod, h, hlone]

theorem isMethod_signature (h : m.kind = "method_signature") :
    IsMethod implemented seen m ↔ ∃ x, LoneSignature implemented m x ∧ ¬ seen x := by
  simp [IsMethod, h]

theorem not_isMethod (hdefinition : m.kind ≠ "method_definition")
    (habstract : m.kind ≠ "abstract_method_signature") (h : m.kind ≠ "method_signature") :
    ¬ IsMethod implemented seen m := by
  have hlone : ∀ x, ¬ LoneSignature implemented m x := not_loneSignature h
  simp [IsMethod, hdefinition, habstract, hlone]

/-- A signature has one name, so it is a lone signature of that name or of none. -/
theorem LoneSignature.eq (h : LoneSignature implemented m name) {x : String}
    (hx : m.nameText? = some x) : x = name :=
  Option.some.inj (hx.symm.trans h.name_eq)

/-- What a member adds to the names that are taken: nothing if its name is taken already. -/
theorem mem_seen_iff {taken : List String} (h : ∀ x, LoneSignature implemented m x → x ∈ taken)
    (x : String) : x ∈ taken ↔ x ∈ taken ∨ LoneSignature implemented m x := by
  constructor
  · exact Or.inl
  · rintro (hx | hx)
    · exact hx
    · exact h x hx

/-- Otherwise it adds its name. -/
theorem mem_cons_seen_iff (h : LoneSignature implemented m name) (taken : List String) (x : String) :
    x ∈ name :: taken ↔ x ∈ taken ∨ LoneSignature implemented m x := by
  rw [List.mem_cons]
  constructor
  · rintro (rfl | hx)
    · exact Or.inr h
    · exact Or.inl hx
  · rintro (hx | hx)
    · exact Or.inr hx
    · exact Or.inl (h.eq hx.name_eq)

end OneMember

/-- A member is taken if it is a method. If it is a lone signature, its name is taken then. -/
theorem selectMethods_cons_cases (implemented seen : List String) (m : Tree) (ms : List Tree) :
    ∃ seen', (∀ x, x ∈ seen' ↔ x ∈ seen ∨ LoneSignature implemented m x) ∧
      ((IsMethod implemented (· ∈ seen) m ∧
          selectMethods implemented seen (m :: ms) = m :: selectMethods implemented seen' ms) ∨
        (¬ IsMethod implemented (· ∈ seen) m ∧
          selectMethods implemented seen (m :: ms) = selectMethods implemented seen' ms)) := by
  -- A member of any other kind than a signature leaves the names as they are.
  have hsame : m.kind ≠ "method_signature" →
      ∀ x, x ∈ seen ↔ x ∈ seen ∨ LoneSignature implemented m x := by
    intro hkind
    exact mem_seen_iff fun x hx => absurd hx (not_loneSignature hkind x)
  rw [selectMethods]
  split
  · next hkind =>
    refine ⟨seen, hsame (by simp [hkind]), ?_⟩
    rw [isMethod_definition hkind]
    split
    · next hskip => exact Or.inr ⟨by simpa [Decidable.or_iff_not_imp_left] using hskip, rfl⟩
    · next htake => exact Or.inl ⟨by simpa using htake, rfl⟩
  · next hkind =>
    refine ⟨seen, hsame (by simp [hkind]), ?_⟩
    rw [isMethod_abstract hkind]
    split
    · next hskip => exact Or.inr ⟨by simpa using hskip, rfl⟩
    · next htake => exact Or.inl ⟨by simpa using htake, rfl⟩
  · next hkind =>
    rw [isMethod_signature hkind]
    -- A signature is skipped as soon as its name, if it is its own, is taken.
    have hskipped : (∀ x, LoneSignature implemented m x → x ∈ seen) →
        ¬ ∃ x, LoneSignature implemented m x ∧ x ∉ seen := by
      rintro hlone ⟨x, hx, hnew⟩
      exact hnew (hlone x hx)
    split
    · next name hname =>
      split
      · next hskip =>
        have hlone : ∀ x, LoneSignature implemented m x → x ∈ seen := by
          intro x hx
          rw [hx.eq hname] at hskip
          simpa [hx.not_accessor, hx.ne_constructor, hx.not_implemented] using hskip
        exact ⟨seen, mem_seen_iff hlone, Or.inr ⟨hskipped hlone, rfl⟩⟩
      · next htake =>
        simp only [Bool.or_eq_true, decide_eq_true_eq, List.contains_iff_mem, not_or,
          Bool.not_eq_true] at htake
        rcases htake with ⟨⟨⟨haccessor, hconstructor⟩, himplemented⟩, hnew⟩
        have hlone : LoneSignature implemented m name :=
          ⟨hkind, hname, haccessor, hconstructor, himplemented⟩
        exact ⟨name :: seen, mem_cons_seen_iff hlone seen, Or.inl ⟨⟨name, hlone, hnew⟩, rfl⟩⟩
    · next hname =>
      have hlone : ∀ x, LoneSignature implemented m x → x ∈ seen := by
        intro x hx
        rw [hx.name_eq] at hname
        cases hname
      exact ⟨seen, mem_seen_iff hlone, Or.inr ⟨hskipped hlone, rfl⟩⟩
  · next hdefinition habstract hsignature =>
    exact ⟨seen, hsame hsignature, Or.inr ⟨not_isMethod hdefinition habstract hsignature, rfl⟩⟩

/-- What is taken is a method. -/
theorem isMethod_of_mem_selectMethods {implemented seen : List String} {ms : List Tree} {m : Tree}
    (h : m ∈ selectMethods implemented seen ms) : IsMethod implemented (· ∈ seen) m := by
  induction ms generalizing seen with
  | nil => cases h
  | cons n ms ih =>
    rcases selectMethods_cons_cases implemented seen n ms with ⟨taken, htaken, hcases⟩
    -- A member behind `n` that is a method with more names taken is one with those of `seen` alone.
    have hrest : m ∈ selectMethods implemented taken ms → IsMethod implemented (· ∈ seen) m := by
      intro hm
      rcases ih hm with hdefinition | habstract | ⟨x, hlone, hnew⟩
      · exact Or.inl hdefinition
      · exact Or.inr (Or.inl habstract)
      · exact Or.inr (Or.inr ⟨x, hlone, fun hx => hnew ((htaken x).mpr (Or.inl hx))⟩)
    rcases hcases with ⟨hmethod, htake⟩ | ⟨_, hskip⟩
    · rw [htake] at h
      rcases List.mem_cons.mp h with rfl | h
      · exact hmethod
      · exact hrest h
    · rw [hskip] at h
      exact hrest h

/-- Only which names are taken matters, not in which order they are kept. -/
theorem selectMethods_congr (implemented : List String) {seen seen' : List String}
    (h : ∀ x, x ∈ seen ↔ x ∈ seen') (ms : List Tree) :
    selectMethods implemented seen ms = selectMethods implemented seen' ms := by
  induction ms generalizing seen seen' with
  | nil => rfl
  | cons m ms ih =>
    have hcontains : ∀ name, seen.contains name = seen'.contains name := by
      intro name
      rw [Bool.eq_iff_iff, List.contains_iff_mem, List.contains_iff_mem, h]
    have hcons : ∀ name x, x ∈ name :: seen ↔ x ∈ name :: seen' := by
      intro name x
      rw [List.mem_cons, List.mem_cons, h]
    simp only [selectMethods, hcontains, ih h, ih (hcons _)]

/-! ## Rows of members -/

/-- The names that lone signatures among some members have. -/
def LoneName (implemented : List String) (ms : List Tree) (name : String) : Prop :=
  ∃ m ∈ ms, LoneSignature implemented m name

theorem loneName_cons {implemented : List String} {m : Tree} {ms : List Tree} {x : String} :
    LoneName implemented (m :: ms) x ↔
      LoneSignature implemented m x ∨ LoneName implemented ms x := by
  simp [LoneName]

/-- The methods of two rows laid end to end are those of the first and, with the names of its
signatures taken, those of the second. -/
theorem selectMethods_append (implemented seen : List String) (ms ns : List Tree) :
    ∃ seen', (∀ x, x ∈ seen' ↔ x ∈ seen ∨ LoneName implemented ms x) ∧
      selectMethods implemented seen (ms ++ ns) =
        selectMethods implemented seen ms ++ selectMethods implemented seen' ns := by
  induction ms generalizing seen with
  | nil => exact ⟨seen, by simp [LoneName], rfl⟩
  | cons m ms ih =>
    rcases selectMethods_cons_cases implemented seen m ms with ⟨taken, htaken, hfirst⟩
    rcases selectMethods_cons_cases implemented seen m (ms ++ ns) with ⟨taken', htaken', hboth⟩
    have hsame : ∀ x, x ∈ taken' ↔ x ∈ taken := by
      intro x
      rw [htaken, htaken']
    rcases ih taken with ⟨seen', hseen', happend⟩
    refine ⟨seen', ?_, ?_⟩
    · intro x
      rw [hseen', htaken, loneName_cons, or_assoc]
    · rw [selectMethods_congr implemented hsame, happend] at hboth
      rw [List.cons_append]
      -- What `m` is does not depend on what follows it, so two of the four cases are left.
      rcases hfirst with ⟨hmethod, hm⟩ | ⟨hmethod, hm⟩
      · rcases hboth with ⟨_, hall⟩ | ⟨hskip, _⟩
        · rw [hm, hall, List.cons_append]
        · exact absurd hmethod hskip
      · rcases hboth with ⟨htake, _⟩ | ⟨_, hall⟩
        · exact absurd htake hmethod
        · rw [hm, hall]

/-- A row of members that takes no new names, put behind some others, adds its own methods and
leaves all others as they were. -/
theorem selectMethods_insert {implemented : List String} {before row : List Tree}
    (h : ∀ x, LoneName implemented row x → LoneName implemented before x) (after : List Tree) :
    ∃ front seen back, (∀ x, x ∈ seen ↔ LoneName implemented before x) ∧
      selectMethods implemented [] (before ++ after) = front ++ back ∧
      selectMethods implemented [] (before ++ (row ++ after)) =
        front ++ (selectMethods implemented seen row ++ back) := by
  rcases selectMethods_append implemented [] before after with ⟨seen, hseen, hold⟩
  rcases selectMethods_append implemented [] before (row ++ after) with ⟨seen', hseen', hnew⟩
  rcases selectMethods_append implemented seen row after with ⟨taken, htaken, hrow⟩
  have hbefore : ∀ x, x ∈ seen' ↔ x ∈ seen := by
    intro x
    rw [hseen, hseen']
  -- The row takes no name that was not taken in front of it.
  have hbehind : ∀ x, x ∈ taken ↔ x ∈ seen := by
    intro x
    rw [htaken]
    constructor
    · rintro (hx | hx)
      · exact hx
      · exact (hseen x).mpr (Or.inr (h x hx))
    · exact Or.inl
  refine ⟨_, seen, _, by simpa using hseen, hold, ?_⟩
  rw [hnew, selectMethods_congr implemented hbefore, hrow, selectMethods_congr implemented hbehind]

/-! ## Positions of the methods -/

/-- Whether a method stands at position `i` of a row of members. -/
def MethodAt (implemented : List String) (seen : String → Prop) (ms : List Tree) (i : Nat) : Prop :=
  ∃ m, ms[i]? = some m ∧
    IsMethod implemented (fun x => seen x ∨ LoneName implemented (ms.take i) x) m

theorem methodAt_cons_zero {implemented : List String} {seen : String → Prop} {m : Tree}
    {ms : List Tree} :
    MethodAt implemented seen (m :: ms) 0 ↔ IsMethod implemented seen m := by
  simp [MethodAt, LoneName]

theorem methodAt_cons_succ {implemented : List String} {seen seen' : String → Prop} {m : Tree}
    {ms : List Tree} (h : ∀ x, seen' x ↔ seen x ∨ LoneSignature implemented m x) (i : Nat) :
    MethodAt implemented seen (m :: ms) (i + 1) ↔ MethodAt implemented seen' ms i := by
  have hseen : (fun x => seen x ∨ LoneName implemented ((m :: ms).take (i + 1)) x) =
      fun x => seen' x ∨ LoneName implemented (ms.take i) x := by
    funext x
    simp [LoneName, h, or_assoc]
  rw [MethodAt, MethodAt, hseen, List.getElem?_cons_succ]

/-- The methods of a row of members stand in the order of the row, at the positions of methods. -/
theorem exists_positions_selectMethods (implemented seen : List String) (ms : List Tree) :
    ∃ is : List Nat, is.Pairwise (· < ·) ∧ (∀ i, i ∈ is ↔ MethodAt implemented (· ∈ seen) ms i) ∧
      (selectMethods implemented seen ms).map some = is.map fun i => ms[i]? := by
  induction ms generalizing seen with
  | nil => exact ⟨[], .nil, by simp [MethodAt], rfl⟩
  | cons m ms ih =>
    -- The first member is taken or not, and the positions behind it go up by one.
    rcases selectMethods_cons_cases implemented seen m ms with ⟨seen', hseen, hcases⟩
    rcases ih seen' with ⟨is, hsorted, hmem, hselect⟩
    have hsorted' : (is.map (· + 1)).Pairwise (· < ·) := by
      rw [List.pairwise_map]
      exact hsorted.imp fun h => Nat.succ_lt_succ h
    have hselect' : (is.map (· + 1)).map (fun i => (m :: ms)[i]?) = is.map fun i => ms[i]? := by
      simp [Function.comp_def]
    have hmem' : ∀ i, i + 1 ∈ is.map (· + 1) ↔ MethodAt implemented (· ∈ seen) (m :: ms) (i + 1) := by
      intro i
      rw [methodAt_cons_succ hseen, ← hmem]
      simp
    rcases hcases with ⟨hmethod, htake⟩ | ⟨hmethod, hskip⟩
    · refine ⟨0 :: is.map (· + 1), ?_, ?_, ?_⟩
      · exact List.pairwise_cons.mpr ⟨by simp, hsorted'⟩
      · intro i
        cases i with
        | zero => simp [methodAt_cons_zero, hmethod]
        | succ i => rw [List.mem_cons, ← hmem']; simp
      · rw [htake, List.map_cons, List.map_cons, hselect', hselect]
        rfl
    · refine ⟨is.map (· + 1), hsorted', ?_, ?_⟩
      · intro i
        cases i with
        | zero => simp [methodAt_cons_zero, hmethod]
        | succ i => exact hmem' i
      · rw [hskip, hselect', hselect]

/-! ## Rows that look alike -/

/-- What decides whether a member is a method is the same for two members. -/
structure SameHead (m n : Tree) : Prop where
  kind_eq : m.kind = n.kind
  name_eq : m.nameText? = n.nameText?
  accessor_eq : m.isAccessor = n.isAccessor

namespace SameHead

variable {implemented : List String} {m n : Tree} (h : SameHead m n)

include h

theorem loneSignature_iff {name : String} :
    LoneSignature implemented m name ↔ LoneSignature implemented n name := by
  constructor
  · intro hm
    exact ⟨h.kind_eq ▸ hm.kind_eq, h.name_eq ▸ hm.name_eq, h.accessor_eq ▸ hm.not_accessor,
      hm.ne_constructor, hm.not_implemented⟩
  · intro hn
    exact ⟨h.kind_eq ▸ hn.kind_eq, h.name_eq ▸ hn.name_eq, h.accessor_eq ▸ hn.not_accessor,
      hn.ne_constructor, hn.not_implemented⟩

theorem isMethod_iff {seen : String → Prop} :
    IsMethod implemented seen m ↔ IsMethod implemented seen n := by
  simp only [IsMethod, h.kind_eq, h.name_eq, h.accessor_eq, h.loneSignature_iff]

end SameHead

theorem methodAt_of_forall₂ {implemented : List String} {seen : String → Prop} {ms ns : List Tree}
    (h : List.Forall₂ SameHead ms ns) (i : Nat) :
    MethodAt implemented seen ms i ↔ MethodAt implemented seen ns i := by
  induction h generalizing seen i with
  | nil => rfl
  | @cons m n ms ns hmn _ ih =>
    cases i with
    | zero => rw [methodAt_cons_zero, methodAt_cons_zero, hmn.isMethod_iff]
    | succ i =>
      -- Both take the same name, so what follows is looked at with the same names taken.
      have htaken : ∀ x, (seen x ∨ LoneSignature implemented m x) ↔
          seen x ∨ LoneSignature implemented n x := by
        intro x
        rw [hmn.loneSignature_iff]
      rw [methodAt_cons_succ (fun _ => Iff.rfl), methodAt_cons_succ htaken, ih]

/-- In rows whose members look alike the methods stand at the same positions. -/
theorem selectMethods_of_forall₂ (implemented seen : List String) {ms ns : List Tree}
    (h : List.Forall₂ SameHead ms ns) :
    ∃ is : List Nat, is.Pairwise (· < ·) ∧
      (selectMethods implemented seen ms).map some = is.map (fun i => ms[i]?) ∧
      (selectMethods implemented seen ns).map some = is.map fun i => ns[i]? := by
  rcases exists_positions_selectMethods implemented seen ms with ⟨is, hsorted, hmem, hms⟩
  rcases exists_positions_selectMethods implemented seen ns with ⟨js, hsorted', hmem', hns⟩
  have hsame : is = js := by
    apply hsorted.eq_of_mem_iff hsorted'
    intro i
    rw [hmem, hmem', methodAt_of_forall₂ h]
  exact ⟨is, hsorted, hms, hsame ▸ hns⟩

/-- A name is implemented if some member of the class, wherever it stands, is a definition of it. -/
theorem ClassDecl.mem_implementedNames {c : ClassDecl} {name : String} :
    name ∈ c.implementedNames ↔
      ∃ m ∈ c.members, m.kind = "method_definition" ∧ m.nameText? = some name := by
  simp [implementedNames, and_assoc]

/-- The methods of a class stand where they are selected from, in the body of the class. -/
theorem ClassDecl.map_some_methods {c : ClassDecl} {is : List Nat}
    (h : (selectMethods c.implementedNames [] c.members).map some = is.map fun i => c.members[i]?) :
    c.methods.map some =
      is.map fun i => c.members[i]?.map (Node.mk (c.body?.map Tree.kind)) := by
  have hnodes := congrArg (List.map (Option.map (Node.mk (c.body?.map Tree.kind)))) h
  rw [List.map_map, List.map_map] at hnodes
  rw [methods, List.map_map]
  exact hnodes

/-- The methods of a class are some of its members in their order: the definitions that are neither
a constructor nor an accessor, the abstract signatures that are no accessor, and of the signatures
that are neither, and whose name no definition among the members has, the first of each name. -/
theorem ClassDecl.methods_at_positions (c : ClassDecl) :
    ∃ is : List Nat, is.Pairwise (· < ·) ∧
      (c.methods.map some = is.map fun i => c.members[i]?.map (Node.mk (c.body?.map Tree.kind))) ∧
      (∀ i, i ∈ is ↔ ∃ m, c.members[i]? = some m ∧
        ((m.kind = "method_definition" ∧ m.nameText? ≠ some "constructor" ∧ m.isAccessor = false) ∨
          (m.kind = "abstract_method_signature" ∧ m.isAccessor = false) ∨
          ∃ name, LoneSignature c.implementedNames m name ∧
            ∀ s ∈ c.members.take i, ¬ LoneSignature c.implementedNames s name)) ∧
      ∀ name, name ∈ c.implementedNames ↔
        ∃ m ∈ c.members, m.kind = "method_definition" ∧ m.nameText? = some name := by
  rcases exists_positions_selectMethods c.implementedNames [] c.members with
    ⟨is, hsorted, hmem, hselect⟩
  refine ⟨is, hsorted, ?_, ?_, fun name => mem_implementedNames⟩
  · -- From the trees at the positions to the nodes, which carry the kind of the body.
    have hnodes := congrArg (List.map (Option.map (Node.mk (c.body?.map Tree.kind)))) hselect
    rw [List.map_map, List.map_map] at hnodes
    rw [methods, List.map_map]
    exact hnodes
  · intro i
    rw [hmem]
    simp [MethodAt, IsMethod, LoneName]

end ClassGauge.Syntax
