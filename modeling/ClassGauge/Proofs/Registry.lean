import Mathlib.Data.List.Induction
import ClassGauge.Proofs.Sorting
import ClassGauge.Registry

/-! # The tables of the registry

A registry is filled one class at a time, and each step brings the list of classes, the table of
first positions and the table of counts up to date together. This module relates the three.

* `Registry.registerAll`, `Registry.Consistent`: registrations one after the other, and the
  invariant that each of them keeps;
* `toList_build`: which classes a registry holds, and in which order;
* `Consistent.resolve?_eq_find?`, `Consistent.resolve?_eq_some_iff`: what a look-up answers, said of
  the list of classes alone;
* `mem_duplicateNames`, `pairwise_duplicateNames`: which names are reported, and in which order;
* `resolve?_append`, `subclassCount_append`: the registry of two lists of files laid end to end;
* `tables_agree`: all of this together;
* `emptyClasses`, `fileOf`, `unitOf`: small files and classes to try the theorems on.
-/

namespace ClassGauge

open Syntax

/-- The class declarations of some files, each with its file: file by file, and in each file in
the order of declaration. -/
def declarations (files : List SourceFile) : List (SourceFile × ClassDecl) :=
  files.flatMap fun f => f.classes.map fun c => (f, c)

theorem mem_declarations {files : List SourceFile} {d : SourceFile × ClassDecl} :
    d ∈ declarations files ↔ d.1 ∈ files ∧ d.2 ∈ d.1.classes := by
  rw [declarations, List.mem_flatMap]
  constructor
  · rintro ⟨f, hf, hd⟩
    obtain ⟨c, hc, rfl⟩ := List.mem_map.mp hd
    exact ⟨hf, hc⟩
  · rintro ⟨hf, hc⟩
    exact ⟨d.1, hf, List.mem_map.mpr ⟨d.2, hc, rfl⟩⟩

theorem declarations_append (fs gs : List SourceFile) :
    declarations (fs ++ gs) = declarations fs ++ declarations gs :=
  List.flatMap_append

/-- The declaration of a class is found in its statement. -/
theorem findClass_of_mem_classes {f : SourceFile} {c : ClassDecl} (h : c ∈ f.classes) :
    findClass c.statement.tree = some c.declaration := by
  obtain ⟨statement, _, hc⟩ := List.mem_filterMap.mp h
  obtain ⟨d, hd, rfl⟩ := Option.map_eq_some_iff.mp hc
  exact hd

namespace ClassUnit

/-- The class at another position. -/
def numbered (u : ClassUnit) (i : Nat) : ClassUnit :=
  { u with id := i }

@[simp] theorem id_ofDecl (i : Nat) (f : SourceFile) (c : ClassDecl) : (ofDecl i f c).id = i := rfl

@[simp] theorem numbered_ofDecl (i j : Nat) (f : SourceFile) (c : ClassDecl) :
    (ofDecl i f c).numbered j = ofDecl j f c := rfl

end ClassUnit

namespace Registry

/-! ## The tables by themselves -/

/-- A name that is known already stays where it is; any other name is added. -/
theorem lookup_addFirst (table : List (String × Nat)) (key name : String) (i : Nat) :
    (if (table.lookup key).isSome then table else (key, i) :: table).lookup name =
      (table.lookup name).or (if key = name then some i else none) := by
  by_cases h : key = name
  · -- An entry that is there already stays in front of the new one.
    subst h
    cases hkey : table.lookup key with
    | none => simp
    | some j => simp [hkey]
  · have hne : (name == key) = false := by simpa using Ne.symm h
    split
    · simp
    · simp [List.lookup_cons, hne]

/-- Counting `key` once more changes the count of `key` alone. -/
theorem lookup_increment (key base : String) (counts : List (String × Nat)) :
    ((increment key counts).lookup base).getD 0 =
      (counts.lookup base).getD 0 + if key = base then 1 else 0 := by
  induction counts with
  | nil =>
    by_cases h : key = base
    · simp [increment, h]
    · have hne : (base == key) = false := by simpa using Ne.symm h
      simp [increment, List.lookup_cons, h, hne]
  | cons entry counts ih =>
    obtain ⟨k, n⟩ := entry
    -- The entry that is looked up may be this one, and so may the one that is counted.
    by_cases hb : base = k
    · subst hb
      by_cases hk : base = key
      · simp [increment, hk]
      · simp [increment, hk, Ne.symm hk]
    · have hne : (base == k) = false := by simpa using hb
      by_cases hk : k = key
      · subst hk
        simp [increment, List.lookup_cons, hne, Ne.symm hb]
      · simpa [increment, hk, List.lookup_cons, hne] using ih

/-! ## What a registration does -/

variable {r : Registry} {file : SourceFile} {c : ClassDecl}

@[simp] theorem toList_empty : empty.toList = [] := rfl

@[simp] theorem size_empty : empty.size = 0 := rfl

@[simp] theorem size_register (r : Registry) (file : SourceFile) (c : ClassDecl) :
    (r.register file c).size = r.size + 1 := by
  simp [register, size]

theorem length_toList (r : Registry) : r.toList.length = r.size := rfl

theorem getElem?_toList (r : Registry) (i : Nat) : r.toList[i]? = r.units[i]? :=
  Array.getElem?_toList

theorem toList_register (r : Registry) (file : SourceFile) (c : ClassDecl) :
    (r.register file c).toList = r.toList ++ [ClassUnit.ofDecl r.size file c] := by
  simp [register, toList, size]

@[simp] theorem subclassCount_register (r : Registry) (file : SourceFile) (c : ClassDecl)
    (base : String) :
    (r.register file c).subclassCount base =
      r.subclassCount base + if c.base? = some base then 1 else 0 := by
  cases hbase : c.base? with
  | none => simp [subclassCount, register, ClassUnit.ofDecl, hbase]
  | some b =>
    have hcount := lookup_increment b base r.subclassCounts
    simpa [subclassCount, register, ClassUnit.ofDecl, hbase] using hcount

/-! ## Registrations one after the other -/

/-- The registry after some registrations, from the first to the last. -/
def registerAll (steps : List (SourceFile × ClassDecl)) : Registry :=
  steps.foldl (fun r d => r.register d.1 d.2) empty

theorem registerAll_concat (steps : List (SourceFile × ClassDecl)) (d : SourceFile × ClassDecl) :
    registerAll (steps ++ [d]) = (registerAll steps).register d.1 d.2 := by
  rw [registerAll, registerAll, List.foldl_append, List.foldl_cons, List.foldl_nil]

/-- Building a registry is registering the declarations one by one. -/
theorem build_eq_registerAll (files : List SourceFile) :
    build files = registerAll (declarations files) := by
  simp only [build, registerAll, declarations, List.foldl_flatMap, List.foldl_map]
  rfl

/-- A registry holds one class for each registration, at the position at which it was registered. -/
theorem toList_registerAll (steps : List (SourceFile × ClassDecl)) :
    (registerAll steps).toList = steps.mapIdx fun i d => ClassUnit.ofDecl i d.1 d.2 := by
  induction steps using List.reverseRecOn with
  | nil => rfl
  | append_singleton steps d ih =>
    have hsize : (registerAll steps).size = steps.length := by
      rw [← length_toList, ih, List.length_mapIdx]
    rw [registerAll_concat, toList_register, ih, hsize, List.mapIdx_concat]

/-- A registry holds one class for each declaration, at the position at which the declaration
comes. -/
theorem toList_build (files : List SourceFile) :
    (build files).toList =
      (declarations files).mapIdx fun i d => ClassUnit.ofDecl i d.1 d.2 := by
  rw [build_eq_registerAll, toList_registerAll]

/-- Every class of a registry comes from a declaration in some file. -/
theorem exists_decl_of_mem_build {files : List SourceFile} {u : ClassUnit}
    (hu : u ∈ (build files).toList) :
    ∃ i f c, f ∈ files ∧ c ∈ f.classes ∧ u = ClassUnit.ofDecl i f c := by
  rw [toList_build, List.mem_mapIdx] at hu
  obtain ⟨i, hi, rfl⟩ := hu
  obtain ⟨hf, hc⟩ := mem_declarations.mp (List.getElem_mem hi)
  exact ⟨i, _, _, hf, hc, rfl⟩

/-! ## The invariant -/

/-- The tables of a registry agree with its classes. -/
structure Consistent (r : Registry) : Prop where
  /-- A class stands at the position that is its `id`. -/
  id_eq : ∀ (i : Nat) (u : ClassUnit), r.units[i]? = some u → u.id = i
  /-- The table of names knows where the first class of a name stands. -/
  firstByName_eq : ∀ name, r.firstByName.lookup name = r.toList.findIdx? (·.name = name)
  /-- The table of bases knows how many classes name a base. -/
  subclassCounts_eq : ∀ base, r.subclassCount base = r.toList.countP (·.base = some base)

theorem consistent_empty : empty.Consistent where
  id_eq := by
    intro i u h
    simp [empty] at h
  firstByName_eq := fun _ => rfl
  subclassCounts_eq := fun _ => rfl

/-- Every registration keeps the tables in agreement with the classes. -/
theorem Consistent.register (h : r.Consistent) (file : SourceFile) (c : ClassDecl) :
    (r.register file c).Consistent where
  id_eq := by
    intro i u hu
    rw [← getElem?_toList, toList_register, List.getElem?_append] at hu
    split at hu
    · rw [getElem?_toList] at hu
      exact h.id_eq i u hu
    · next hi =>
      -- The position is that of the new class, which is the last one.
      rw [length_toList] at hi hu
      obtain ⟨hlt, rfl⟩ := List.getElem?_eq_some_iff.mp hu
      have hlast : i = r.size := by
        rw [List.length_singleton] at hlt
        omega
      simp [ClassUnit.ofDecl, hlast]
  firstByName_eq := by
    intro name
    rw [toList_register, List.findIdx?_append, ← h.firstByName_eq, List.findIdx?_singleton]
    refine (lookup_addFirst _ _ _ _).trans ?_
    by_cases hname : c.name?.getD unnamedClass = name
    · simp [ClassUnit.ofDecl, hname, size, toList]
    · simp [ClassUnit.ofDecl, hname]
  subclassCounts_eq := by
    intro base
    rw [toList_register, List.countP_append, ← h.subclassCounts_eq, List.countP_singleton,
      subclassCount_register]
    by_cases hbase : c.base? = some base
    · simp [ClassUnit.ofDecl, hbase]
    · simp [ClassUnit.ofDecl, hbase]

/-- The tables agree with the classes after any registrations. -/
theorem consistent_registerAll (steps : List (SourceFile × ClassDecl)) :
    (registerAll steps).Consistent := by
  induction steps using List.reverseRecOn with
  | nil => exact consistent_empty
  | append_singleton steps d ih =>
    rw [registerAll_concat]
    exact ih.register d.1 d.2

/-- The tables of every registry that is built from files agree with its classes. -/
theorem consistent_build (files : List SourceFile) : (build files).Consistent := by
  rw [build_eq_registerAll]
  exact consistent_registerAll (declarations files)

/-- The positions of the classes, in order, are all numbers below the number of classes. -/
theorem Consistent.map_id_toList (h : r.Consistent) :
    r.toList.map ClassUnit.id = List.range r.size := by
  apply List.ext_getElem?
  intro i
  rw [List.getElem?_map, getElem?_toList]
  cases hu : r.units[i]? with
  | none =>
    have hi : r.size ≤ i := Array.getElem?_eq_none_iff.mp hu
    simp [hi]
  | some u =>
    obtain ⟨hi, _⟩ := Array.getElem?_eq_some_iff.mp hu
    have hlt : i < r.size := hi
    simp [hlt, h.id_eq i u hu]

/-! ## What the look-ups answer -/

/-- A name resolves to the first class that carries it. -/
theorem Consistent.resolve?_eq_find? (h : r.Consistent) (name : String) :
    r.resolve? name = r.toList.find? (·.name = name) := by
  rw [resolve?, h.firstByName_eq, List.find?_eq_bind_findIdx?_getElem?]
  simp only [getElem?_toList]

/-- A base resolves to the first class of its name. -/
theorem Consistent.find?_of_parent? (h : r.Consistent) {u p : ClassUnit}
    (hp : r.parent? u = some p) :
    u.base = some p.name ∧ r.toList.find? (·.name = p.name) = some p := by
  obtain ⟨b, hb, hresolve⟩ := Option.bind_eq_some_iff.mp hp
  rw [h.resolve?_eq_find?] at hresolve
  have hname : p.name = b := by simpa using List.find?_some hresolve
  exact ⟨hname ▸ hb, hname ▸ hresolve⟩

/-- A base resolves exactly if some class carries it as its name. -/
theorem Consistent.parent?_eq_none_iff (h : r.Consistent) {u : ClassUnit} :
    r.parent? u = none ↔ ∀ b, u.base = some b → ∀ v ∈ r.toList, v.name ≠ b := by
  rw [parent?, Option.bind_eq_none_iff]
  refine forall₂_congr fun b _ => ?_
  rw [h.resolve?_eq_find?, List.find?_eq_none]
  simp

/-- The classes of a registry stand at different positions. -/
theorem Consistent.eq_of_id_eq (h : r.Consistent) {u v : ClassUnit} (hu : u ∈ r.toList)
    (hv : v ∈ r.toList) (hid : u.id = v.id) : u = v := by
  obtain ⟨i, hi⟩ := List.mem_iff_getElem?.mp hu
  obtain ⟨j, hj⟩ := List.mem_iff_getElem?.mp hv
  rw [getElem?_toList] at hi hj
  have hij : i = j := by rw [← h.id_eq i u hi, ← h.id_eq j v hj, hid]
  rw [hij, hj] at hi
  exact (Option.some.inj hi).symm

/-- A name resolves to the class that carries it and stands in front of all others that do. -/
theorem Consistent.resolve?_eq_some_iff (h : r.Consistent) {name : String} {p : ClassUnit} :
    r.resolve? name = some p ↔
      p ∈ r.toList ∧ p.name = name ∧ ∀ v ∈ r.toList, v.name = name → p.id ≤ v.id := by
  have hfirst : ∀ q, r.resolve? name = some q →
      q ∈ r.toList ∧ q.name = name ∧ ∀ v ∈ r.toList, v.name = name → q.id ≤ v.id := by
    intro q hq
    have hmem := mem_of_resolve? hq
    rw [h.resolve?_eq_find?, List.find?_eq_some_iff_append] at hq
    rcases hq with ⟨hname, before, after, hsplit, hbefore⟩
    refine ⟨hmem, of_decide_eq_true hname, ?_⟩
    intro v hv hvname
    -- The positions ascend along the list, so what comes behind `q` has a greater one.
    have hsorted : (r.toList.map ClassUnit.id).Pairwise (· < ·) := by
      rw [h.map_id_toList]
      exact List.pairwise_lt_range
    rw [hsplit, List.pairwise_map, List.pairwise_append] at hsorted
    rw [hsplit, List.mem_append, List.mem_cons] at hv
    rcases hv with hv | rfl | hv
    · have hnot := hbefore v hv
      simp [hvname] at hnot
    · exact Nat.le_refl _
    · exact Nat.le_of_lt ((List.pairwise_cons.mp hsorted.2.1).1 v hv)
  constructor
  · exact hfirst p
  · rintro ⟨hp, hname, hle⟩
    have hsome : (r.resolve? name).isSome = true := by
      rw [h.resolve?_eq_find?, List.find?_isSome]
      exact ⟨p, hp, by simpa using hname⟩
    rcases Option.isSome_iff_exists.mp hsome with ⟨q, hq⟩
    rcases hfirst q hq with ⟨hqmem, hqname, hqle⟩
    have hid : q.id = p.id := Nat.le_antisymm (hqle p hp hname) (hle q hqmem hqname)
    rw [hq, h.eq_of_id_eq hqmem hp hid]

/-! ## Names with several declarations -/

theorem count_name_eq_countP (r : Registry) (name : String) :
    (r.toList.map ClassUnit.name).count name = r.toList.countP (·.name = name) := by
  rw [List.count_eq_countP, List.countP_map]
  apply List.countP_congr
  intro u _
  simp

/-- Exactly the names with at least two declarations are reported. -/
theorem mem_duplicateNames {name : String} :
    name ∈ r.duplicateNames ↔ 2 ≤ r.toList.countP (·.name = name) := by
  simp only [duplicateNames, List.mem_mergeSort, List.mem_filter, List.mem_eraseDups, decide_eq_true_eq,
    count_name_eq_countP]
  constructor
  · intro h
    exact h.2
  · intro h
    refine ⟨?_, h⟩
    rw [← List.count_pos_iff, count_name_eq_countP]
    omega

/-- Names with several declarations are reported in ascending order, each once. -/
theorem pairwise_duplicateNames (r : Registry) : r.duplicateNames.Pairwise (· < ·) := by
  apply pairwise_lt_mergeSort id
  rw [List.map_id]
  exact (nodup_eraseDups _).filter _

/-! ## The names of the classes -/

/-- The names under which the classes of some files are registered, one for each class. -/
def classNames (files : List SourceFile) : List String :=
  (build files).toList.map ClassUnit.name

/-- Exactly the names of classes resolve. -/
theorem mem_classNames {files : List SourceFile} {name : String} :
    name ∈ classNames files ↔ ∃ u, (build files).resolve? name = some u := by
  rw [← Option.isSome_iff_exists, (consistent_build files).resolve?_eq_find?, List.find?_isSome,
    classNames, List.mem_map]
  simp only [decide_eq_true_eq]

/-! ## Files laid end to end -/

/-- The classes of files laid end to end are those of the first files, and behind them those of the
others, each as many positions further on as there are classes in the first files. -/
theorem toList_append (fs gs : List SourceFile) :
    (build (fs ++ gs)).toList =
      (build fs).toList ++ (build gs).toList.map fun u => u.numbered ((build fs).size + u.id) := by
  have hsize : (build fs).size = (declarations fs).length := by
    rw [← length_toList, toList_build, List.length_mapIdx]
  have hshift : (build gs).toList.map (fun u => u.numbered ((build fs).size + u.id)) =
      (declarations gs).mapIdx fun i d =>
        ClassUnit.ofDecl (i + (declarations fs).length) d.1 d.2 := by
    rw [toList_build gs, hsize]
    apply List.ext_getElem?
    intro i
    simp [Function.comp_def, Nat.add_comm]
  rw [hshift, toList_build, toList_build, declarations_append, List.mapIdx_append]

/-- A name resolves as in the first files, and if it does not occur there as in the others. -/
theorem resolve?_append (fs gs : List SourceFile) (name : String) :
    (build (fs ++ gs)).resolve? name =
      ((build fs).resolve? name).or
        (((build gs).resolve? name).map fun u => u.numbered ((build fs).size + u.id)) := by
  have hname : ((fun u => decide (u.name = name)) ∘
      fun u : ClassUnit => u.numbered ((build fs).size + u.id)) = fun u => decide (u.name = name) :=
    rfl
  rw [(consistent_build _).resolve?_eq_find?, (consistent_build fs).resolve?_eq_find?,
    (consistent_build gs).resolve?_eq_find?, toList_append, List.find?_append, List.find?_map,
    hname]

/-- The classes that write a base are counted in the first files and in the others. -/
theorem subclassCount_append (fs gs : List SourceFile) (base : String) :
    (build (fs ++ gs)).subclassCount base =
      (build fs).subclassCount base + (build gs).subclassCount base := by
  have hbase : ((fun u => decide (u.base = some base)) ∘
      fun u : ClassUnit => u.numbered ((build fs).size + u.id)) =
        fun u => decide (u.base = some base) :=
    rfl
  rw [(consistent_build _).subclassCounts_eq, (consistent_build fs).subclassCounts_eq,
    (consistent_build gs).subclassCounts_eq, toList_append, List.countP_append, List.countP_map,
    hbase]

/-- The tables agree with the classes. A registry is built by registering the declarations of the
files one after the other. After any registrations, those of some files or the first few of them,
the classes stand in the order of their registration, each at the position that is its `id`. A name
resolves to the first class that carries it, which is the first of its declarations; the number of
subclasses counts the classes whose base is written so; and the names reported, in ascending order,
are those that at least two classes carry. In the registry of two lists of files laid end to end a
name resolves as in the first and else as in the second, whose positions are shifted, and the
numbers of subclasses add up. -/
theorem tables_agree :
    (∀ files, build files = registerAll (declarations files)) ∧
    (∀ steps : List (SourceFile × ClassDecl),
      (registerAll steps).toList = (steps.mapIdx fun i d => ClassUnit.ofDecl i d.1 d.2) ∧
      (registerAll steps).toList.map ClassUnit.id = List.range (registerAll steps).size ∧
      (∀ name, (registerAll steps).resolve? name =
          (registerAll steps).toList.find? (·.name = name) ∧
        (registerAll steps).resolve? name = ((registerAll steps).declarationsOf name).head?) ∧
      (∀ text, (registerAll steps).subclassCount text =
        (registerAll steps).toList.countP (·.base = some text)) ∧
      (registerAll steps).duplicateNames.Pairwise (· < ·) ∧
      ∀ name, name ∈ (registerAll steps).duplicateNames ↔
        2 ≤ (registerAll steps).toList.countP (·.name = name)) ∧
    ∀ fs gs : List SourceFile,
      (∀ name, (build (fs ++ gs)).resolve? name =
        ((build fs).resolve? name).or
          (((build gs).resolve? name).map fun u => u.numbered ((build fs).size + u.id))) ∧
      ∀ text, (build (fs ++ gs)).subclassCount text =
        (build fs).subclassCount text + (build gs).subclassCount text := by
  refine ⟨build_eq_registerAll, ?_,
    fun fs gs => ⟨resolve?_append fs gs, subclassCount_append fs gs⟩⟩
  intro steps
  have hr := consistent_registerAll steps
  refine ⟨toList_registerAll steps, hr.map_id_toList, ?_, hr.subclassCounts_eq,
    pairwise_duplicateNames _, fun name => mem_duplicateNames⟩
  · -- The first class of a name stands at the head of its declarations.
    intro name
    have hfind := hr.resolve?_eq_find? name
    refine ⟨hfind, ?_⟩
    rw [hfind, declarationsOf, List.head?_filter]

end Registry

/-! ## Small files -/

/-- The tree of `class name extends base {}`, without `extends` if there is no base. -/
def emptyClass (line : Nat) (name : String) (base : Option String) : Tree :=
  let node (kind : String) (role : Option Role) (text : String) (cs : List Tree) : Tree :=
    .node ⟨kind, true, role, line, text⟩ cs
  let token (text : String) : Tree := .node ⟨text, false, none, line, text⟩ []
  let heritage (b : String) : Tree :=
    node "class_heritage" none ("extends " ++ b)
      [node "extends_clause" none ("extends " ++ b)
        [token "extends", node "identifier" (some .value) b []]]
  let body := node "class_body" (some .body) "{}" [token "\x7b", token "\x7d"]
  node "class_declaration" none ("class " ++ name ++ base.elim "" (" extends " ++ ·) ++ " {}")
    ([token "class", node "type_identifier" (some .name) name []] ++
      base.toList.map heritage ++ [body])

/-- A file of classes without members, one on each line, given by their names and bases. -/
def emptyClasses (path : String) (classes : List (String × Option String)) : SourceFile :=
  let trees := classes.mapIdx fun i c => emptyClass (i + 1) c.1 c.2
  let source := "\n".intercalate (trees.map Tree.text)
  { path, source, malformed := false, root := .node ⟨"program", true, none, 1, source⟩ trees }

/-- A file that declares a class whose base another file declares. -/
def childFile : SourceFile :=
  emptyClasses "child.ts" [("A", some "B")]

/-- The file that declares the base, and a class that extends the child. -/
def baseFile : SourceFile :=
  emptyClasses "base.ts" [("B", none), ("C", some "A")]

def namedNode (kind : String) (role : Option Role) (text : String) (children : List Tree) : Tree :=
  .node ⟨kind, true, role, 1, text⟩ children

def tokenNode (text : String) : Tree :=
  .node ⟨text, false, none, 1, text⟩ []

def fileOf (path : String) (statement : Tree) : SourceFile :=
  { path, source := statement.text, malformed := false
    root := namedNode "program" none statement.text [statement] }

/-- A class declaration that is a statement of its own. -/
def bareDecl (declaration : Tree) : ClassDecl :=
  ⟨⟨some "program", declaration⟩, declaration⟩

def unitOf (path : String) (declaration : Tree) : ClassUnit :=
  ClassUnit.ofDecl 0 (fileOf path declaration) ⟨⟨some "program", declaration⟩, declaration⟩

end ClassGauge
