import ClassGauge.Proofs.Analysis

/-! # More files

Files that are added behind others declare classes behind theirs. A base that did not resolve before
may resolve now, but what resolved before resolves to the same class still. So the lines of
ancestors go on where they ended, and never another way.

* `Registry.Extends`: one registry answers every look-up that another answers, and alike;
* `Extends.loops`, `Extends.le_of_endsAt`: lines that loop do so still, and lines that end do not
  end any sooner;
* `analyze_append`: what added files change in the records of the files in front of them.
-/

namespace ClassGauge

open Syntax Registry

namespace Registry

variable {r s : Registry} {u v : ClassUnit}

/-- Whatever resolves in `r` resolves in `s`, to the same class. -/
def Extends (s r : Registry) : Prop :=
  ∀ name u, r.resolve? name = some u → s.resolve? name = some u

/-! ## Lines of ancestors -/

theorem Extends.parent? (h : s.Extends r) (hp : r.parent? u = some v) : s.parent? u = some v := by
  obtain ⟨base, hbase, hresolve⟩ := Option.bind_eq_some_iff.mp hp
  exact Option.bind_eq_some_iff.mpr ⟨base, hbase, h base v hresolve⟩

/-- A line goes the same way as far as it went. -/
theorem Extends.ancestor? (h : s.Extends r) {n : Nat} (hv : r.ancestor? u n = some v) :
    s.ancestor? u n = some v := by
  induction n generalizing v with
  | zero => exact hv
  | succ n ih =>
    rw [ancestor?_succ] at hv
    obtain ⟨w, hw, hp⟩ := Option.bind_eq_some_iff.mp hv
    rw [ancestor?_succ, ih hw, Option.bind_some]
    exact h.parent? hp

/-- A line that comes back to a class does so still. -/
theorem Extends.loops (h : s.Extends r) (hu : r.Loops u) : s.Loops u := by
  obtain ⟨i, j, v, hij, hi, hj⟩ := hu
  exact ⟨i, j, v, hij, h.ancestor? hi, h.ancestor? hj⟩

/-- A line that ends does not end any sooner. -/
theorem Extends.le_of_endsAt (h : s.Extends r) {d e : Nat} (hd : r.EndsAt u d)
    (he : s.EndsAt u e) : d ≤ e := by
  obtain ⟨v, hv, _⟩ := hd
  have hsv : s.ancestor? u d = some v := h.ancestor? hv
  apply Nat.le_of_not_lt
  intro hlt
  -- The line would have to reach the level behind its end.
  obtain ⟨w, hw⟩ := exists_ancestor?_of_le (m := e + 1) (by omega) hsv
  rw [he.ancestor?_succ_eq_none] at hw
  cases hw

/-! ## Files laid end to end -/

theorem extends_append (fs gs : List SourceFile) : (build (fs ++ gs)).Extends (build fs) := by
  intro name u hu
  rw [resolve?_append, hu, Option.some_or]

/-- If the files behind declare no new name, no look-up has a new answer either. -/
theorem extends_of_classNames_subset {fs gs : List SourceFile}
    (h : classNames gs ⊆ classNames fs) : (build fs).Extends (build (fs ++ gs)) := by
  intro name u hu
  rw [resolve?_append] at hu
  cases hfirst : (build fs).resolve? name with
  | some v => simpa [hfirst] using hu
  | none =>
    -- The name could only resolve in the files behind, where no class carries it.
    rw [hfirst, Option.none_or, Option.map_eq_some_iff] at hu
    obtain ⟨w, hw, _⟩ := hu
    have hname : name ∈ classNames gs := mem_classNames.mpr ⟨w, hw⟩
    obtain ⟨v, hv⟩ := mem_classNames.mp (h hname)
    rw [hfirst] at hv
    cases hv

/-- No base is counted less often in more files. -/
theorem countP_base_le (fs gs : List SourceFile) (name : String) :
    (build fs).toList.countP (·.base = some name) ≤
      (build (fs ++ gs)).toList.countP (·.base = some name) := by
  rw [toList_append, List.countP_append]
  exact Nat.le_add_right _ _

end Registry

/-! ## Records -/

/-- A record in front of added files: it is what it was, but for its depth and its number of
subclasses, which may have grown. -/
structure Record.Grown (old new : Record) : Prop where
  same : new = { old with dit := new.dit, nosi := new.nosi }
  dit_le : old.dit ≤ new.dit
  nosi_le : old.nosi ≤ new.nosi

theorem recordOf_grown (fs gs : List SourceFile) {u : ClassUnit} {d e : Nat}
    (hd : (build fs).EndsAt u d) (he : (build (fs ++ gs)).EndsAt u e) :
    ((build fs).recordOf u d).Grown ((build (fs ++ gs)).recordOf u e) where
  same := rfl
  dit_le := (extends_append fs gs).le_of_endsAt hd he
  nosi_le := countP_base_le fs gs u.name

/-- Files that are added behind others never disturb what was found in those. If the analysis of
the files fails, it fails with more files behind them. If both succeed, the first records are those
of the files by themselves, in the same order; in each of them only the depth and the number of
subclasses may differ, and neither is smaller than before. If the added files declare only names
that the files declare, the depths are the same, too. -/
theorem analyze_append (fs gs : List SourceFile) :
    ((∃ e, (analyze fs).records = .error e) → ∃ e, (analyze (fs ++ gs)).records = .error e) ∧
    ∀ records all, (analyze fs).records = .ok records → (analyze (fs ++ gs)).records = .ok all →
      List.Forall₂ (fun old new => Record.Grown old new ∧
          (classNames gs ⊆ classNames fs → new.dit = old.dit))
        records (all.take records.length) := by
  constructor
  · intro hfail
    obtain ⟨u, hu, hloops⟩ := (measureAll_error_iff (consistent_build fs)).mp hfail
    have hmem : u ∈ (build (fs ++ gs)).toList := by
      rw [toList_append]
      exact List.mem_append_left _ hu
    exact (measureAll_error_iff (consistent_build _)).mpr
      ⟨u, hmem, (extends_append fs gs).loops hloops⟩
  · intro records all hrecords hall
    have hstep := records_eq_ok_iff.mp hrecords
    have hstepAll := records_eq_ok_iff.mp hall
    -- The classes of the first files are the first classes, so their records come first.
    rw [toList_append] at hstepAll
    have hfirst := forall₂_take_of_append hstepAll
    rw [hstep.length_eq] at hfirst
    refine forall₂_of_common ?_ hstep hfirst
    rintro u _ _ ⟨d, hd, rfl⟩ ⟨e, he, rfl⟩
    refine ⟨recordOf_grown fs gs hd he, ?_⟩
    intro hnames
    have hle : d ≤ e := (extends_append fs gs).le_of_endsAt hd he
    have hge : e ≤ d := (extends_of_classNames_subset hnames).le_of_endsAt he hd
    exact Nat.le_antisymm hge hle

/-- A file that declares the child once more, with no base this time. -/
def childAgain : SourceFile :=
  emptyClasses "again.ts" [("A", none)]

/-- A file with a class that extends itself. -/
def selfExtending : SourceFile :=
  emptyClasses "self.ts" [("S", some "S")]

/-- The base behind the child makes the child deeper, the child declared again does not, and a class
that extends itself fails the analysis wherever it stands. -/
theorem analyze_append_baseBehind :
    (∃ old new base below, (analyze [childFile]).records = .ok [old] ∧
      (analyze [childFile, baseFile]).records = .ok [new, base, below] ∧
      old.Grown new ∧ old.dit = 0 ∧ new.dit = 1 ∧ old.nosi = 0 ∧ new.nosi = 1) ∧
    (∃ old new again, (analyze [childFile]).records = .ok [old] ∧
      (analyze [childFile, childAgain]).records = .ok [new, again] ∧ new.dit = old.dit) ∧
    (∃ e, (analyze [selfExtending]).records = .error e) ∧
    ∃ e, (analyze [selfExtending, baseFile]).records = .error e := by
  -- The lines of ancestors in the three lists of files, which give the records.
  have hfront : List.Forall₂ (build [childFile]).EndsAt (build [childFile]).toList [0] :=
    .cons ⟨_, rfl, rfl⟩ .nil
  have hbase : List.Forall₂ (build [childFile, baseFile]).EndsAt
      (build [childFile, baseFile]).toList [1, 0, 2] :=
    .cons ⟨_, rfl, rfl⟩ (.cons ⟨_, rfl, rfl⟩ (.cons ⟨_, rfl, rfl⟩ .nil))
  have hagain : List.Forall₂ (build [childFile, childAgain]).EndsAt
      (build [childFile, childAgain]).toList [0, 0] :=
    .cons ⟨_, rfl, rfl⟩ (.cons ⟨_, rfl, rfl⟩ .nil)
  have hself : ∃ e, (analyze [selfExtending]).records = .error e :=
    (measureAll_error_iff (consistent_build [selfExtending])).mpr
      ⟨_, .head _, 0, 1, _, Nat.zero_lt_one, rfl, rfl⟩
  have h₁ := records_of_endsAt hfront
  have h₂ := records_of_endsAt hbase
  have h₃ := records_of_endsAt hagain
  refine ⟨⟨_, _, _, _, h₁, h₂, ?_, rfl, rfl, rfl, rfl⟩, ⟨_, _, _, h₁, h₃, ?_⟩, hself, ?_⟩
  · cases (analyze_append [childFile] [baseFile]).2 _ _ h₁ h₂ with
    | cons hgrown _ => exact hgrown.1
  · have hnames : classNames [childAgain] ⊆ classNames [childFile] := List.Subset.refl ["A"]
    cases (analyze_append [childFile] [childAgain]).2 _ _ h₁ h₃ with
    | cons hgrown _ => exact hgrown.2 hnames
  · exact (analyze_append [selfExtending] [baseFile]).1 hself

end ClassGauge
