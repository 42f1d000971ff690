import Mathlib.Algebra.GroupWithZero.Nat
import ClassGauge.Proofs.Analysis

/-! # The forest of classes

Resolved bases make the classes of a registry a forest, if no line of ancestors loops. The depth of
a class is found by a walk up its line, and the number of its subclasses by a table that is kept
apart; this module shows that records describe one forest with both.

* `sum_map_countP`: counting by base and summing up counts every base once;
* `depths_and_subclasses`: how the depths and the numbers of subclasses of an analysis fit together.
-/

namespace ClassGauge

open Syntax Registry

/-- The records that are the first of their class name. -/
def firstDeclared : List Record → List Record
  | [] => []
  | record :: rest => record :: (firstDeclared rest).filter (·.className ≠ record.className)

theorem mem_map_className_firstDeclared {name : String} {records : List Record} :
    name ∈ (firstDeclared records).map Record.className ↔ name ∈ records.map Record.className := by
  induction records with
  | nil => rfl
  | cons record rest ih =>
    simp only [firstDeclared, List.map_cons, List.mem_cons, ← ih]
    by_cases hname : name = record.className
    · simp only [hname, true_or]
    · simp only [hname, false_or, List.mem_map, List.mem_filter, decide_eq_true_eq]
      constructor
      · rintro ⟨x, ⟨hx, _⟩, hxname⟩
        exact ⟨x, hx, hxname⟩
      · rintro ⟨x, hx, hxname⟩
        exact ⟨x, ⟨hx, hxname ▸ hname⟩, hxname⟩

theorem firstDeclared_sublist (records : List Record) :
    (firstDeclared records).Sublist records := by
  induction records with
  | nil => exact List.Sublist.refl _
  | cons record rest ih => exact (List.filter_sublist.trans ih).cons_cons record

theorem nodup_map_className_firstDeclared (records : List Record) :
    ((firstDeclared records).map Record.className).Nodup := by
  induction records with
  | nil => exact List.Pairwise.nil
  | cons record rest ih =>
    rw [firstDeclared, List.map_cons, List.nodup_cons]
    refine ⟨?_, ih.sublist (List.filter_sublist.map _)⟩
    intro hmem
    obtain ⟨x, hx, hname⟩ := List.mem_map.mp hmem
    have hne := (List.mem_filter.mp hx).2
    simp [hname] at hne

/-! ## Counting by base -/

theorem countP_or_of_disjoint {α : Type} {p q : α → Bool} {xs : List α}
    (h : ∀ x ∈ xs, p x = true → q x = false) :
    xs.countP (fun x => p x || q x) = xs.countP p + xs.countP q := by
  induction xs with
  | nil => rfl
  | cons x xs ih =>
    have hx := h x List.mem_cons_self
    have hxs := ih fun y hy => h y (List.mem_cons_of_mem _ hy)
    rw [List.countP_cons, List.countP_cons, List.countP_cons, hxs]
    cases hp : p x with
    | false =>
      simp only [Bool.false_or, Bool.false_eq_true, if_false]
      omega
    | true =>
      simp only [hx hp, Bool.true_or, Bool.false_eq_true, if_true, if_false]
      omega

/-- Of different names, each base that is one of them counts once. -/
theorem sum_map_countP {names : List String} (hnodup : names.Nodup) (us : List ClassUnit) :
    (names.map fun name => us.countP (·.base = some name)).sum =
      us.countP fun u => u.base.any names.contains := by
  induction names with
  | nil =>
    symm
    rw [List.map_nil, List.sum_nil, List.countP_eq_zero]
    intro u _
    cases u.base <;> simp
  | cons name names ih =>
    obtain ⟨hnew, hnodup⟩ := List.nodup_cons.mp hnodup
    -- No class writes two bases, so what `name` counts is not counted again.
    rw [List.map_cons, List.sum_cons, ih hnodup, ← countP_or_of_disjoint]
    · apply List.countP_congr
      intro u _
      cases u.base with
      | none => simp
      | some b => simp
    · intro u _ hu
      rw [decide_eq_true_eq] at hu
      simpa [hu] using hnew

/-! ## Depths -/

variable {r : Registry} {u p : ClassUnit}

/-- The depth of a class is one more than that of its parent, and zero without one. -/
theorem depthOfInheritance_of_parent? (hr : r.Consistent) (hu : u ∈ r.toList) {d : Nat}
    (hd : depthOfInheritance r u = .ok d) (hp : r.parent? u = some p) :
    ∃ e, depthOfInheritance r p = .ok e ∧ d = e + 1 := by
  have hends := (depthOfInheritance_eq_ok_iff hr hu).mp hd
  cases d with
  | zero =>
    rw [endsAt_zero_iff.mp hends] at hp
    cases hp
  | succ e =>
    exact ⟨e, (depthOfInheritance_eq_ok_iff hr (mem_of_parent? hp)).mpr
      ((endsAt_succ_iff hp).mp hends), rfl⟩

theorem depth_pos_iff (hr : r.Consistent) (hu : u ∈ r.toList) {d : Nat}
    (hd : depthOfInheritance r u = .ok d) : 1 ≤ d ↔ (r.parent? u).isSome = true := by
  cases hp : r.parent? u with
  | none =>
    have hzero : d = 0 := ((depthOfInheritance_eq_ok_iff hr hu).mp hd).unique
      (endsAt_zero_iff.mpr hp)
    simp [hzero]
  | some p =>
    obtain ⟨e, _, rfl⟩ := depthOfInheritance_of_parent? hr hu hd hp
    simp

/-! ## Records -/

variable {records : List Record}

/-- The first record of the name of a parent is the record of the parent, one level higher. -/
theorem find?_className_of_parent? (hr : r.Consistent) (hall : r.measureAll = .ok records)
    (hu : u ∈ r.toList) {d : Nat} (hd : depthOfInheritance r u = .ok d)
    (hp : r.parent? u = some p) :
    ∃ e, records.find? (·.className = p.name) = some (r.recordOf p e) ∧ d = e + 1 := by
  obtain ⟨e, he, rfl⟩ := depthOfInheritance_of_parent? hr hu hd hp
  have hname : ∀ v record, (∃ d, depthOfInheritance r v = .ok d ∧ record = r.recordOf v d) →
      decide (v.name = p.name) = decide (record.className = p.name) := by
    rintro v _ ⟨_, _, rfl⟩
    rfl
  obtain ⟨above, habove, e', he', rfl⟩ := find?_of_forall₂ ((measureAll_eq_ok_iff hr).mp hall)
    hname (hr.find?_of_parent? hp).2
  rw [he] at he'
  cases he'
  exact ⟨e, habove, rfl⟩

/-- The first records of the names count together every class whose base resolves. -/
theorem sum_nosi_firstDeclared (hr : r.Consistent) (hall : r.measureAll = .ok records) :
    ((firstDeclared records).map Record.nosi).sum =
      r.toList.countP fun u => (r.parent? u).isSome := by
  -- The number of a record is that of the classes whose base is written as its name.
  have hnosi : (firstDeclared records).map Record.nosi =
      ((firstDeclared records).map Record.className).map fun name =>
        r.toList.countP (·.base = some name) := by
    rw [List.map_map]
    apply List.map_congr_left
    intro record hrecord
    obtain ⟨u, _, d, _, rfl⟩ :=
      exists_class_of_mem hr hall ((firstDeclared_sublist records).subset hrecord)
    rfl
  have hdeclared : ∀ name, ((firstDeclared records).map Record.className).contains name = true ↔
      ∃ v ∈ r.toList, v.name = name := by
    intro name
    rw [List.contains_iff_mem, mem_map_className_firstDeclared, map_className_of_measureAll hr hall,
      List.mem_map]
  -- Since no name occurs twice, each class with a base among the names is counted once.
  rw [hnosi, sum_map_countP (nodup_map_className_firstDeclared records)]
  apply List.countP_congr
  intro u _
  rw [Option.isSome_iff_ne_none, ne_eq, hr.parent?_eq_none_iff, Option.any_eq_true]
  simp only [hdeclared]
  push Not
  rfl

/-- A class with a parent has a record of the parent, and the record counts the class. -/
theorem one_le_nosi_of_parent? (hr : r.Consistent) (hu : u ∈ r.toList) (hp : r.parent? u = some p)
    (d : Nat) : 1 ≤ (r.recordOf p d).nosi := by
  have hbase := (hr.find?_of_parent? hp).1
  show 1 ≤ r.toList.countP (·.base = some p.name)
  rw [List.one_le_countP_iff]
  exact ⟨u, hu, by simpa using hbase⟩

/-- The depths and the numbers of subclasses that an analysis gives describe one forest. A class
whose base resolves lies one level below the first record of the name of its parent, and any other
class at level zero. The numbers of subclasses in the first records of the names come together to
the number of classes below level zero. Above each of these stands a record one level higher that
counts a subclass. -/
theorem depths_and_subclasses (files : List SourceFile) (records : List Record)
    (h : (analyze files).records = .ok records) :
    List.Forall₂ (fun u record => record.className = u.name ∧
        match (build files).parent? u with
        | some p => ∃ above, records.find? (·.className = p.name) = some above ∧
            record.dit = above.dit + 1
        | none => record.dit = 0)
      (build files).toList records ∧
    ((firstDeclared records).map Record.nosi).sum = records.countP (1 ≤ ·.dit) ∧
    ∀ record ∈ records, 1 ≤ record.dit →
      ∃ above ∈ records, above.dit = record.dit - 1 ∧ 1 ≤ above.nosi := by
  have hr := consistent_build files
  have hstep := (measureAll_eq_ok_iff hr).mp h
  refine ⟨?_, ?_, ?_⟩
  · -- The record of the class above is the first of its name, which is the one a base resolves to.
    have hmem := (List.forall₂_and_left (p := (· ∈ (build files).toList)) _ _).mpr
      ⟨fun u hu => hu, hstep⟩
    refine hmem.imp ?_
    rintro u _ ⟨hu, d, hd, rfl⟩
    refine ⟨rfl, ?_⟩
    cases hp : (build files).parent? u with
    | none =>
      exact ((depthOfInheritance_eq_ok_iff hr hu).mp hd).unique (endsAt_zero_iff.mpr hp)
    | some p =>
      obtain ⟨e, habove, hde⟩ := find?_className_of_parent? hr h hu hd hp
      exact ⟨_, habove, hde⟩
  · -- A class has a depth exactly if its base resolves.
    rw [sum_nosi_firstDeclared hr h]
    apply countP_of_forall₂ hstep
    rintro u hu _ ⟨d, hd, rfl⟩
    rw [Bool.eq_iff_iff, ← depth_pos_iff hr hu hd, decide_eq_true_eq]
    rfl
  · intro record hrecord hdit
    obtain ⟨u, hu, d, hd, rfl⟩ := exists_class_of_mem hr h hrecord
    obtain ⟨p, hp⟩ := Option.isSome_iff_exists.mp ((depth_pos_iff hr hu hd).mp hdit)
    obtain ⟨e, habove, rfl⟩ := find?_className_of_parent? hr h hu hd hp
    exact ⟨_, List.mem_of_find?_eq_some habove, rfl, one_le_nosi_of_parent? hr hu hp e⟩

/-- Two files that declare one name twice, and one class whose base is declared nowhere. -/
def twiceDeclared : List SourceFile :=
  [emptyClasses "a.ts" [("A", some "B"), ("B", some "Missing"), ("B", some "A")],
    emptyClasses "b.ts" [("C", some "B")]]

/-- Of the two classes `B` the first is the parent of `A` and `C`, and both show two subclasses. -/
theorem depths_and_subclasses_twiceDeclared :
    ∃ records, (analyze twiceDeclared).records = .ok records ∧
      records.map (fun record => (record.className, record.dit, record.nosi)) =
        [("A", 1, 1), ("B", 0, 2), ("B", 2, 2), ("C", 1, 0)] ∧
      ((firstDeclared records).map Record.nosi).sum = 3 := by
  have hends : List.Forall₂ (build twiceDeclared).EndsAt (build twiceDeclared).toList
      [1, 0, 2, 1] :=
    .cons ⟨_, rfl, rfl⟩ (.cons ⟨_, rfl, rfl⟩ (.cons ⟨_, rfl, rfl⟩ (.cons ⟨_, rfl, rfl⟩ .nil)))
  have hrecords := records_of_endsAt hends
  exact ⟨_, hrecords, rfl, (depths_and_subclasses _ _ hrecords).2.1⟩

end ClassGauge
