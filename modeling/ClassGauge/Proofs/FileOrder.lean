import Mathlib.Data.List.Nodup
import Mathlib.Data.List.Find
import ClassGauge.Proofs.Analysis

/-! # The order of files

The order in which files are read decides where their classes stand in the registry, and which of
several classes of one name is the first. If no name is declared twice only the positions are left,
and no record shows them.

* `ClassUnit.SameDecl`, `Registry.Agrees`: classes and look-ups that are the same but for positions;
* `Agrees.endsAt`: lines of ancestors do not depend on positions;
* `Describes`, `records_eq_ok_iff_describes`: the records of an analysis, said of declarations;
* `analyze_perm`: files in another order give the same records, file by file.
-/

namespace ClassGauge

open Syntax Registry

/-- Two classes come from the same declaration: only their positions may differ. -/
def ClassUnit.SameDecl (u v : ClassUnit) : Prop :=
  u.numbered 0 = v.numbered 0

theorem ClassUnit.SameDecl.base_eq {u v : ClassUnit} (h : u.SameDecl v) : u.base = v.base := by
  have hbase : (u.numbered 0).base = (v.numbered 0).base := congrArg ClassUnit.base h
  exact hbase

theorem ClassUnit.sameDecl_numbered (u : ClassUnit) (i : Nat) : u.SameDecl (u.numbered i) :=
  rfl

namespace Registry

variable {r s : Registry} {u v p : ClassUnit}

/-! ## Look-ups that are the same but for positions -/

/-- Two registries answer every look-up with classes of the same declaration. -/
def Agrees (r s : Registry) : Prop :=
  ∀ name, (r.resolve? name).map (·.numbered 0) = (s.resolve? name).map (·.numbered 0)

theorem Agrees.refl (r : Registry) : r.Agrees r :=
  fun _ => rfl

theorem Agrees.parent? (h : r.Agrees s) (huv : u.SameDecl v) :
    (r.parent? u).map (·.numbered 0) = (s.parent? v).map (·.numbered 0) := by
  rw [Registry.parent?, Registry.parent?, huv.base_eq]
  cases v.base with
  | none => rfl
  | some base => exact h base

/-- Classes of the same declaration have parents of the same declaration. -/
theorem Agrees.exists_parent? (h : r.Agrees s) (huv : u.SameDecl v) (hp : r.parent? u = some p) :
    ∃ q, s.parent? v = some q ∧ p.SameDecl q := by
  have hparent := h.parent? huv
  rw [hp, Option.map_some] at hparent
  obtain ⟨q, hq, hpq⟩ := Option.map_eq_some_iff.mp hparent.symm
  exact ⟨q, hq, hpq.symm⟩

/-- Lines of classes of the same declaration end at the same level. -/
theorem Agrees.endsAt (h : r.Agrees s) (huv : u.SameDecl v) {d : Nat} (hd : r.EndsAt u d) :
    s.EndsAt v d := by
  induction d generalizing u v with
  | zero =>
    have hparent := h.parent? huv
    rw [endsAt_zero_iff.mp hd, Option.map_none] at hparent
    exact endsAt_zero_iff.mpr (Option.map_eq_none_iff.mp hparent.symm)
  | succ d ih =>
    cases hp : r.parent? u with
    | none =>
      -- The line is longer, so there is a class above.
      have hzero : d + 1 = 0 := hd.unique (endsAt_zero_iff.mpr hp)
      omega
    | some p =>
      -- The class above has a counterpart above `v`, from which the line is one shorter.
      obtain ⟨q, hq, hpq⟩ := h.exists_parent? huv hp
      have hends : s.EndsAt q d := ih hpq ((endsAt_succ_iff hp).mp hd)
      exact (endsAt_succ_iff hq).mpr hends

/-! ## Classes without their positions -/

/-- A look-up finds the first class of a name whether or not positions are kept. -/
theorem Consistent.map_numbered_resolve? (hr : r.Consistent) (name : String) :
    (r.resolve? name).map (·.numbered 0) =
      (r.toList.map (·.numbered 0)).find? (·.name = name) := by
  have hname : ((fun u => decide (u.name = name)) ∘ fun u : ClassUnit => u.numbered 0) =
      fun u => decide (u.name = name) :=
    rfl
  rw [hr.resolve?_eq_find?, List.find?_map, hname]

/-- Without their positions the classes are the declarations. -/
theorem map_numbered_toList_build (files : List SourceFile) :
    (build files).toList.map (·.numbered 0) =
      (declarations files).map fun d => ClassUnit.ofDecl 0 d.1 d.2 := by
  rw [toList_build]
  apply List.ext_getElem?
  intro i
  simp [Function.comp_def]

theorem classNames_eq_map_numbered (files : List SourceFile) :
    classNames files = ((build files).toList.map (·.numbered 0)).map ClassUnit.name := by
  rw [List.map_map]
  rfl

theorem countP_base_eq_map_numbered (r : Registry) (name : String) :
    r.toList.countP (·.base = some name) =
      (r.toList.map (·.numbered 0)).countP (·.base = some name) := by
  rw [List.countP_map]
  rfl

section Perm

variable {files files' : List SourceFile} (hperm : files.Perm files')

include hperm

/-- In another order the files have the same classes, at other positions. -/
theorem perm_map_numbered_toList :
    ((build files).toList.map (·.numbered 0)).Perm ((build files').toList.map (·.numbered 0)) := by
  rw [map_numbered_toList_build, map_numbered_toList_build]
  exact (hperm.flatMap_right _).map _

theorem countP_base_of_perm (name : String) :
    (build files).toList.countP (·.base = some name) =
      (build files').toList.countP (·.base = some name) := by
  rw [countP_base_eq_map_numbered, countP_base_eq_map_numbered]
  exact (perm_map_numbered_toList hperm).countP_eq _

/-- If no name is declared twice, a look-up cannot tell in which order the files came. -/
theorem agrees_of_perm (hnames : (classNames files).Nodup) :
    (build files).Agrees (build files') := by
  intro name
  rw [(consistent_build files).map_numbered_resolve?,
    (consistent_build files').map_numbered_resolve?]
  apply List.find?_eq_find?_of_perm (perm_map_numbered_toList hperm)
  -- Here the names come in: at most one class carries the name.
  rw [classNames_eq_map_numbered] at hnames
  rintro u ⟨hu, huname⟩ v ⟨hv, hvname⟩
  rw [decide_eq_true_eq] at huname hvname
  exact List.inj_on_of_nodup_map hnames hu hv (huname.trans hvname.symm)

end Perm

end Registry

/-! ## Records, said of declarations -/

/-- What the record of a declaration is, in a registry that holds a class for it. -/
def Describes (r : Registry) (d : SourceFile × ClassDecl) (record : Record) : Prop :=
  ∃ n, r.EndsAt (ClassUnit.ofDecl 0 d.1 d.2) n ∧
    record = r.recordOf (ClassUnit.ofDecl 0 d.1 d.2) n

/-- The records of an analysis that succeeds are those of the declarations, one by one. -/
theorem records_eq_ok_iff_describes {files : List SourceFile} {records : List Record} :
    (analyze files).records = .ok records ↔
      List.Forall₂ (Describes (build files)) (declarations files) records := by
  have hends : ∀ u d, (build files).EndsAt u d ↔ (build files).EndsAt (u.numbered 0) d :=
    fun u d => ⟨(Agrees.refl _).endsAt (u.sameDecl_numbered 0),
      (Agrees.refl _).endsAt (u.sameDecl_numbered 0).symm⟩
  have hnumbered : List.Forall₂ (fun u record => ∃ d, (build files).EndsAt u d ∧
        record = (build files).recordOf u d) (build files).toList records ↔
      List.Forall₂ (fun u record => ∃ d, (build files).EndsAt u d ∧
        record = (build files).recordOf u d) ((build files).toList.map (·.numbered 0)) records := by
    rw [List.forall₂_map_left_iff]
    simp only [← hends]
    rfl
  rw [records_eq_ok_iff, hnumbered, map_numbered_toList_build, List.forall₂_map_left_iff]
  rfl

/-- If every declaration has a record, these are the records of the analysis. -/
theorem records_of_describes {files : List SourceFile} {g : SourceFile × ClassDecl → Record}
    (h : ∀ d ∈ declarations files, Describes (build files) d (g d)) :
    (analyze files).records = .ok ((declarations files).map g) := by
  rw [records_eq_ok_iff_describes, List.forall₂_map_right_iff, List.forall₂_same]
  exact h

/-- A record carries the name of the class and the path of the file. -/
theorem Describes.className_filePath {r : Registry} {f : SourceFile} {c : ClassDecl}
    {record : Record} (h : Describes r (f, c) record) :
    (record.className, record.filePath) = (c.name?.getD unnamedClass, f.path) := by
  obtain ⟨n, _, rfl⟩ := h
  rfl

section Perm

variable {files files' : List SourceFile} (hperm : files.Perm files')
  (hnames : (classNames files).Nodup)

include hperm hnames

/-- In another order of the files a declaration has the same record. -/
theorem describes_of_perm {d : SourceFile × ClassDecl} {record : Record}
    (h : Describes (build files) d record) : Describes (build files') d record := by
  obtain ⟨n, hn, rfl⟩ := h
  refine ⟨n, (agrees_of_perm hperm hnames).endsAt rfl hn, ?_⟩
  rw [recordOf, recordOf, countP_base_of_perm hperm]

/-- The records of an analysis that succeeds come in blocks, one for each file, and these are the
blocks of the files in any other order. -/
theorem exists_blocks_of_perm {records : List Record}
    (h : (analyze files).records = .ok records) :
    ∃ block : SourceFile → List Record,
      (∀ f ∈ files, (block f).map (fun record => (record.className, record.filePath)) =
        f.classes.map fun c => (c.name?.getD unnamedClass, f.path)) ∧
      records = files.flatMap block ∧
      (analyze files').records = .ok (files'.flatMap block) := by
  have hrecord : ∀ d, ∃ record, d ∈ declarations files → Describes (build files) d record := by
    intro d
    by_cases hd : d ∈ declarations files
    · obtain ⟨record, _, hrecord⟩ := mem_of_forall₂ (records_eq_ok_iff_describes.mp h) hd
      exact ⟨record, fun _ => hrecord⟩
    · exact ⟨(build files).recordOf (ClassUnit.ofDecl 0 d.1 d.2) 0, fun hmem => absurd hmem hd⟩
  choose g hg using hrecord
  have hblocks : ∀ fs : List SourceFile, (declarations fs).map g =
      fs.flatMap fun f => f.classes.map fun c => g (f, c) := by
    intro fs
    rw [declarations, List.map_flatMap]
    simp only [List.map_map, Function.comp_def]
  refine ⟨fun f => f.classes.map fun c => g (f, c), ?_, ?_, ?_⟩
  · intro f hf
    rw [List.map_map]
    apply List.map_congr_left
    intro c hc
    exact (hg (f, c) (mem_declarations.mpr ⟨hf, hc⟩)).className_filePath
  · have hall : (analyze files).records = .ok ((declarations files).map g) :=
      records_of_describes hg
    rw [h, hblocks] at hall
    exact Except.ok.inj hall
  · rw [← hblocks]
    apply records_of_describes
    intro d hd
    -- The same declarations stand in the files in either order.
    have hmem : d ∈ declarations files := (hperm.flatMap_right _).mem_iff.mpr hd
    exact describes_of_perm hperm hnames (hg d hmem)

end Perm

/-- The order of files decides nothing but the order of the records, if no name is declared twice.
The analysis of the files in another order succeeds if and only if the analysis of the files does.
Then each file has a block of records, one for each class in the order of declaration; in either
order of the files the records are the blocks of the files in this order, and no block differs. -/
theorem analyze_perm {files files' : List SourceFile} (hperm : files.Perm files')
    (hnames : (classNames files).Nodup) :
    ((∃ records, (analyze files).records = .ok records) ↔
      ∃ records, (analyze files').records = .ok records) ∧
    ∀ records, (analyze files).records = .ok records →
      ∃ block : SourceFile → List Record,
        (∀ f ∈ files, (block f).map (fun record => (record.className, record.filePath)) =
          f.classes.map fun c => (c.name?.getD unnamedClass, f.path)) ∧
        records = files.flatMap block ∧
        (analyze files').records = .ok (files'.flatMap block) := by
  refine ⟨⟨?_, ?_⟩, fun records h => exists_blocks_of_perm hperm hnames h⟩
  · rintro ⟨records, h⟩
    obtain ⟨block, _, _, h'⟩ := exists_blocks_of_perm hperm hnames h
    exact ⟨_, h'⟩
  · rintro ⟨records, h⟩
    -- Both directions are one statement, since the other list has distinct names as well.
    have hnames' : (classNames files').Nodup := by
      rw [classNames_eq_map_numbered] at hnames ⊢
      exact ((perm_map_numbered_toList hperm).map _).nodup_iff.mp hnames
    obtain ⟨block, _, _, h'⟩ := exists_blocks_of_perm hperm.symm hnames' h
    exact ⟨_, h'⟩

/-- In the other order the two files have the same records, whatever their classes extend. -/
theorem analyze_perm_swapped :
    [childFile, baseFile].Perm [baseFile, childFile] ∧
    (classNames [childFile, baseFile]).Nodup ∧
    ∃ a b c, (analyze [childFile, baseFile]).records = .ok [a, b, c] ∧
      [a.dit, b.dit, c.dit] = [1, 0, 2] ∧
      (analyze [baseFile, childFile]).records = .ok [b, c, a] := by
  have hperm : [childFile, baseFile].Perm [baseFile, childFile] := List.Perm.swap _ _ _
  have hclasses : classNames [childFile, baseFile] = ["A", "B", "C"] := rfl
  have hnames : (classNames [childFile, baseFile]).Nodup := by
    rw [hclasses]
    decide
  have hends : List.Forall₂ (build [childFile, baseFile]).EndsAt
      (build [childFile, baseFile]).toList [1, 0, 2] :=
    .cons ⟨_, rfl, rfl⟩ (.cons ⟨_, rfl, rfl⟩ (.cons ⟨_, rfl, rfl⟩ .nil))
  have hrecords := records_of_endsAt hends
  refine ⟨hperm, hnames, _, _, _, hrecords, rfl, ?_⟩
  obtain ⟨block, hlabels, hblocks, hswapped⟩ := (analyze_perm hperm hnames).2 _ hrecords
  -- The block of the child is the first record, so that of the base is all the others.
  have hchild : (block childFile).length = 1 := by
    have hlength := congrArg List.length (hlabels childFile (.head _))
    rw [List.length_map] at hlength
    exact hlength
  obtain ⟨record, hrecord⟩ := List.length_eq_one_iff.mp hchild
  rw [List.flatMap_cons, hrecord, List.flatMap_singleton, List.singleton_append] at hblocks
  obtain ⟨hfirst, hrest⟩ := List.cons.inj hblocks
  rw [hswapped, List.flatMap_cons, List.flatMap_singleton, hrecord, ← hfirst, ← hrest]
  rfl

end ClassGauge
