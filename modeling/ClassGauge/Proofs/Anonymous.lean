import Mathlib.Data.Finset.Card
import ClassGauge.Proofs.Analysis

/-! # Classes without a name

A class that is declared without a name is registered under a placeholder, and the placeholder is a
name like any other: a base that is written like it is found, and an identifier that is written like
it is left out of the coupling of the class. Nothing but the placeholder leads to such a class.

* `Anonymous`: a class of some files whose declaration has no name;
* `anonymous_through_placeholder`: when an anonymous class is a parent, counts for a depth or lies on
  a cycle, and what its coupling is;
* `anonymous_reached`: an anonymous class that is its own parent, and one that is the parent of a class
  with a name.
-/

namespace ClassGauge

open Syntax

/-- A class of some files whose declaration has no name. -/
def Anonymous (files : List SourceFile) (u : ClassUnit) : Prop :=
  ∃ i f c, (declarations files)[i]? = some (f, c) ∧ u = ClassUnit.ofDecl i f c ∧ c.name? = none

open Registry

namespace Anonymous

variable {files : List SourceFile} {u p : ClassUnit} (hp : Anonymous files p)

include hp

theorem mem : p ∈ (build files).toList := by
  rcases hp with ⟨i, f, c, hi, rfl, _⟩
  rw [toList_build]
  apply List.mem_of_getElem? (i := i)
  rw [List.getElem?_mapIdx, hi]
  rfl

theorem name_eq : p.name = unnamedClass := by
  rcases hp with ⟨i, f, c, _, rfl, hname⟩
  show c.name?.getD unnamedClass = unnamedClass
  rw [hname, Option.getD_none]

/-- An anonymous class is a parent of the classes that extend the placeholder, if it is the first
class of that name, and of no others. -/
theorem parent?_iff : (build files).parent? u = some p ↔ u.base = some unnamedClass ∧
    ∀ v ∈ (build files).toList, v.name = unnamedClass → p.id ≤ v.id := by
  have hr := consistent_build files
  rw [parent?, Option.bind_eq_some_iff]
  simp only [hr.resolve?_eq_some_iff]
  constructor
  · rintro ⟨b, hb, _, hname, hfirst⟩
    obtain rfl : b = unnamedClass := hname.symm.trans hp.name_eq
    exact ⟨hb, hfirst⟩
  · rintro ⟨hb, hfirst⟩
    exact ⟨unnamedClass, hb, hp.mem, hp.name_eq, hfirst⟩

/-- The class in front of it on a line writes the placeholder as its base. -/
theorem exists_base_of_ancestor? {n : Nat} (h : (build files).ancestor? u (n + 1) = some p) :
    ∃ v, (build files).ancestor? u n = some v ∧ v.base = some unnamedClass := by
  rw [ancestor?_succ] at h
  rcases Option.bind_eq_some_iff.mp h with ⟨v, hv, hparent⟩
  exact ⟨v, hv, (hp.parent?_iff.mp hparent).1⟩

/-- Its coupling counts all its identifiers but the placeholder. -/
theorem coupling_eq : couplingBetweenObjects p =
    (p.node.identifiers.toFinset.erase unnamedClass).card := by
  have hset : (p.node.identifiers.filter (· ≠ p.name)).eraseDups.toFinset =
      p.node.identifiers.toFinset.erase unnamedClass := by
    ext x
    simp [List.mem_eraseDups, hp.name_eq, and_comm]
  rw [couplingBetweenObjects, ← hset, List.toFinset_card_of_nodup (nodup_eraseDups _)]

theorem coupling_eq_card_iff : couplingBetweenObjects p = p.node.identifiers.toFinset.card ↔
    unnamedClass ∉ p.node.identifiers := by
  rw [hp.coupling_eq]
  constructor
  · intro hcard hmem
    have hlt := Finset.card_erase_lt_of_mem (List.mem_toFinset.mpr hmem)
    omega
  · intro hmem
    rw [Finset.erase_eq_of_notMem (by simpa using hmem)]

end Anonymous

/-- Nothing but the placeholder leads to a class without a name. Such a class is a parent of exactly
the classes whose base is written like the placeholder, if no class of that name comes before it. So
it stands on a line of ancestors only behind such a class: where no class on the way up has that
base, none of the ancestors that make up a depth is anonymous, and a cycle on which no class has that
base has no anonymous class on it. The coupling of an anonymous class is the number of different
identifiers in it, the placeholder apart. -/
theorem anonymous_through_placeholder (files : List SourceFile) (p : ClassUnit)
    (hp : Anonymous files p) :
    (∀ u, (build files).parent? u = some p ↔ u.base = some unnamedClass ∧
      ∀ v ∈ (build files).toList, v.name = unnamedClass → p.id ≤ v.id) ∧
    (∀ u d, u ∈ (build files).toList → depthOfInheritance (build files) u = .ok d →
      ((build files).line u (d + 1)).tail.length = d ∧
      ((∀ v ∈ (build files).line u d, v.base ≠ some unnamedClass) →
        p ∉ ((build files).line u (d + 1)).tail)) ∧
    (∀ n, (∀ v ∈ (build files).line p (n + 1), v.base ≠ some unnamedClass) →
      (build files).ancestor? p (n + 1) ≠ some p) ∧
    couplingBetweenObjects p = (p.node.identifiers.toFinset.erase unnamedClass).card ∧
    (couplingBetweenObjects p = p.node.identifiers.toFinset.card ↔
      unnamedClass ∉ p.node.identifiers) := by
  have hr := consistent_build files
  refine ⟨fun u => hp.parent?_iff, ?_, ?_, hp.coupling_eq, hp.coupling_eq_card_iff⟩
  · intro u d hu hd
    rcases (depthOfInheritance_eq_ok_iff hr hu).mp hd with ⟨v, hv, _⟩
    have hlength : ((build files).line u (d + 1)).length = d + 1 := by
      rw [line_succ hv, List.length_append, length_line hv, List.length_singleton]
    refine ⟨by rw [List.length_tail, hlength, Nat.add_sub_cancel], ?_⟩
    intro hbases hmem
    rcases List.mem_iff_getElem?.mp hmem with ⟨i, hi⟩
    rw [List.getElem?_tail] at hi
    have hlt : i + 1 < d + 1 := hlength ▸ (List.getElem?_eq_some_iff.mp hi).1
    -- The class right in front of it on the line has the base that is ruled out.
    rcases hp.exists_base_of_ancestor? (ancestor?_of_getElem?_line hi) with ⟨w, hw, hbase⟩
    exact hbases w (mem_line.mpr ⟨i, by omega, hw⟩) hbase
  · intro n hbases hcycle
    rcases hp.exists_base_of_ancestor? hcycle with ⟨w, hw, hbase⟩
    exact hbases w (mem_line.mpr ⟨n, by omega, hw⟩) hbase

/-- The tree of `export default class extends base {}`, without `extends` if there is no base. -/
def exportedClass (base : Option String) : Tree :=
  let heritage (b : String) : Tree :=
    namedNode "class_heritage" none ("extends " ++ b)
      [namedNode "extends_clause" none ("extends " ++ b)
        [tokenNode "extends", namedNode "identifier" (some .value) b []]]
  let body := namedNode "class_body" (some .body) "{}" [tokenNode "\x7b", tokenNode "\x7d"]
  let text := "class" ++ base.elim "" (" extends " ++ ·) ++ " {}"
  namedNode "export_statement" none ("export default " ++ text)
    [tokenNode "export", tokenNode "default",
      namedNode "class" (some .value) text ([tokenNode "class"] ++ base.toList.map heritage ++ [body])]

/-- Files with an anonymous class that extends `B`, and with `B`, another class that extends it, and a
class whose base is written like the placeholder. -/
def placeholderBase : List SourceFile :=
  [fileOf "a.ts" (exportedClass (some "B")),
    emptyClasses "b.ts" [("B", none), ("C", some "B"), ("K", some "Unnamed")]]

/-- The anonymous class is the parent of the class with that base; it is no ancestor of the other one,
lies on no cycle, and all its identifiers count. -/
theorem anonymous_through_placeholder_extended :
    ∃ p c k, Anonymous placeholderBase p ∧ c ∈ (build placeholderBase).toList ∧
      (build placeholderBase).parent? k = some p ∧
      depthOfInheritance (build placeholderBase) c = .ok 1 ∧
      p ∉ ((build placeholderBase).line c 2).tail ∧
      (build placeholderBase).ancestor? p 1 ≠ some p ∧
      p.node.identifiers = ["B"] ∧ couplingBetweenObjects p = p.node.identifiers.toFinset.card := by
  obtain ⟨p, b, c, k, hp, hunits, hcb, hb, hpbase, hcbase, hkbase, hid, hidentifiers⟩ :
      ∃ p b c k, Anonymous placeholderBase p ∧ (build placeholderBase).toList = [p, b, c, k] ∧
        (build placeholderBase).parent? c = some b ∧ (build placeholderBase).parent? b = none ∧
        p.base = some "B" ∧ c.base = some "B" ∧ k.base = some "Unnamed" ∧ p.id = 0 ∧
        p.node.identifiers = ["B"] :=
    ⟨_, _, _, _, ⟨0, _, _, rfl, rfl, rfl⟩, rfl, rfl, rfl, rfl, rfl, rfl, rfl, rfl⟩
  rcases anonymous_through_placeholder placeholderBase p hp with
    ⟨hparent, hdepth, hcycle, _, hcoupling⟩
  have hc : c ∈ (build placeholderBase).toList := by simp [hunits]
  have hcdepth : depthOfInheritance (build placeholderBase) c = .ok 1 := by
    rw [depthOfInheritance_eq_ok_iff (consistent_build _) hc, endsAt_succ_iff hcb]
    exact endsAt_zero_iff.mpr hb
  -- The base `B` of a single class is not the placeholder.
  have hbase : ∀ u : ClassUnit, u.base = some "B" →
      ∀ v ∈ (build placeholderBase).line u 1, v.base ≠ some unnamedClass := by
    intro u hu v hv
    obtain rfl : v = u := List.mem_singleton.mp hv
    rw [hu]
    decide
  refine ⟨p, c, k, hp, hc, (hparent k).mpr ⟨hkbase, fun v _ _ => hid ▸ Nat.zero_le v.id⟩, hcdepth,
    (hdepth c 1 hc hcdepth).2 (hbase c hcbase), hcycle 0 (hbase p hpbase), hidentifiers,
    hcoupling.mpr ?_⟩
  rw [hidentifiers]
  decide

/-- A file with an anonymous class that writes the placeholder as its base. -/
def placeholderExtended : List SourceFile :=
  [fileOf "a.ts" (exportedClass (some "Unnamed"))]

/-- Classes without a name can be reached by the placeholder. One whose base is written like it is its
own parent, which ends the analysis, and the identifier does not count for its coupling; and one adds
a level to the depth of a class with a name. -/
theorem anonymous_reached :
    (∃ u, Anonymous placeholderExtended u ∧ (build placeholderExtended).parent? u = some u ∧
      (analyze placeholderExtended).records = .error ⟨["Unnamed", "Unnamed"]⟩ ∧
      u.node.identifiers = ["Unnamed"] ∧ couplingBetweenObjects u = 0) ∧
    ∃ p k, Anonymous placeholderBase p ∧ k ∈ (build placeholderBase).toList ∧ k.name = "K" ∧
      (build placeholderBase).parent? k = some p ∧
      depthOfInheritance (build placeholderBase) p = .ok 1 ∧
      depthOfInheritance (build placeholderBase) k = .ok 2 := by
  constructor
  · -- A class without a name that extends itself, since its base is written as the placeholder.
    obtain ⟨u, hu, hunits, hparent, hid, hname, hidentifiers, hcoupling⟩ :
        ∃ u, Anonymous placeholderExtended u ∧ (build placeholderExtended).toList = [u] ∧
          (build placeholderExtended).parent? u = some u ∧ u.id = 0 ∧ u.name = "Unnamed" ∧
          u.node.identifiers = ["Unnamed"] ∧ couplingBetweenObjects u = 0 :=
      ⟨_, ⟨0, _, _, rfl, rfl, rfl⟩, rfl, rfl, rfl, rfl, rfl, by decide⟩
    have herror : depthOfInheritance (build placeholderExtended) u =
        .error ⟨["Unnamed", "Unnamed"]⟩ := by
      rw [depthOfInheritance, climb_of_mem hparent (by simp), hname]
      rfl
    refine ⟨u, hu, hparent, ?_, hidentifiers, hcoupling⟩
    have hr := consistent_build placeholderExtended
    exact (measureAll_eq_error_iff hr).mpr ⟨[], u, [], hunits, by simp, herror⟩
  · -- A class that names the placeholder as its base stands below the anonymous class.
    obtain ⟨p, b, k, hp, hk, hname, hkp, hpb, hb, hids⟩ :
        ∃ p b k, Anonymous placeholderBase p ∧ k ∈ (build placeholderBase).toList ∧ k.name = "K" ∧
          (build placeholderBase).parent? k = some p ∧ (build placeholderBase).parent? p = some b ∧
          (build placeholderBase).parent? b = none ∧ (p.id = 0 ∧ b.id = 1 ∧ k.id = 3) :=
      ⟨_, _, _, ⟨0, _, _, rfl, rfl, rfl⟩, List.mem_of_getElem? (i := 3) rfl, rfl, rfl, rfl, rfl,
        rfl, rfl, rfl⟩
    have hr := consistent_build placeholderBase
    have hpends : (build placeholderBase).EndsAt p 1 :=
      (endsAt_succ_iff hpb).mpr (endsAt_zero_iff.mpr hb)
    have hkends : (build placeholderBase).EndsAt k 2 := (endsAt_succ_iff hkp).mpr hpends
    exact ⟨p, k, hp, hk, hname, hkp, (depthOfInheritance_eq_ok_iff hr hp.mem).mpr hpends,
      (depthOfInheritance_eq_ok_iff hr hk).mpr hkends⟩

end ClassGauge
