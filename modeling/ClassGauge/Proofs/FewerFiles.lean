import ClassGauge.Proofs.FileOrder

/-! # Some of the files

If some of the files are left out, wherever they stand, a base may resolve to another class than it
does with them, or to none. So lines of ancestors may end anywhere, but a class has no more
subclasses than it has with all files, and everything else that its record says it says still.

* `recordsOf`: the records of the classes of some files, among the records of more;
* `Record.Kept`: what more files leave unchanged in a record;
* `kept_of_filter`: they do so in each record of the files, in the same order.
-/

namespace ClassGauge

open Syntax Registry

/-! ## The classes of some of the files -/

section Filter

variable (p : SourceFile → Bool) (files : List SourceFile)

/-- Leaving out files leaves out their classes. -/
theorem declarations_filter :
    declarations (files.filter p) = (declarations files).filter (p ·.1) := by
  -- A test on files takes all classes of a file or none.
  have hfile : ∀ f : SourceFile, (f.classes.map fun c => (f, c)).filter (p ·.1) =
      if p f then f.classes.map fun c => (f, c) else [] := by
    intro f
    rw [List.filter_map]
    cases hp : p f <;> simp [Function.comp_def, hp]
  induction files with
  | nil => rfl
  | cons f files ih =>
    rw [declarations, declarations, List.flatMap_cons, List.filter_append, hfile f]
    cases hp : p f with
    | true =>
      rw [List.filter_cons_of_pos hp, List.flatMap_cons]
      exact congrArg (_ ++ ·) ih
    | false =>
      rw [List.filter_cons_of_neg (by simp [hp])]
      exact ih

/-- No base is counted more often without some of the files. -/
theorem countP_base_filter_le (name : String) :
    (build (files.filter p)).toList.countP (·.base = some name) ≤
      (build files).toList.countP (·.base = some name) := by
  have hdecls : (declarations (files.filter p)).Sublist (declarations files) := by
    rw [declarations_filter]
    exact List.filter_sublist
  rw [countP_base_eq_map_numbered, countP_base_eq_map_numbered, map_numbered_toList_build,
    map_numbered_toList_build]
  exact (hdecls.map _).countP_le

end Filter

/-! ## Their records -/

/-- The records of the classes of those files that pass a test, among the records of all files. -/
def recordsOf (p : SourceFile → Bool) (files : List SourceFile) (records : List Record) :
    List Record :=
  whereFirst (p ·.1) (declarations files) records

/-- A record with more files around its own: it is what it was, but for its depth, which may be any,
and its number of subclasses, which may have grown. -/
structure Record.Kept (old new : Record) : Prop where
  same : new = { old with dit := new.dit, nosi := new.nosi }
  nosi_le : old.nosi ≤ new.nosi

variable {p : SourceFile → Bool} {files : List SourceFile}

theorem Describes.kept {d : SourceFile × ClassDecl} {old new : Record}
    (hold : Describes (build (files.filter p)) d old) (hnew : Describes (build files) d new) :
    old.Kept new := by
  obtain ⟨n, _, rfl⟩ := hold
  obtain ⟨m, _, rfl⟩ := hnew
  exact ⟨rfl, countP_base_filter_le p files _⟩

variable {records all : List Record}

/-- The records of the classes of some files stand among the others in their order. -/
theorem recordsOf_sublist (hall : (analyze files).records = .ok all) :
    (recordsOf p files all).Sublist all :=
  whereFirst_sublist (records_eq_ok_iff_describes.mp hall) _

/-- The records of some of the files are kept when the others are analysed with them. -/
theorem kept_of_filter (hrecords : (analyze (files.filter p)).records = .ok records)
    (hall : (analyze files).records = .ok all) :
    List.Forall₂ Record.Kept records (recordsOf p files all) := by
  have hfew := records_eq_ok_iff_describes.mp hrecords
  have hmore := forall₂_whereFirst (records_eq_ok_iff_describes.mp hall) (p ·.1)
  -- Both lists are in step with the classes of the files that pass.
  rw [declarations_filter] at hfew
  refine forall₂_of_common ?_ hfew hmore
  intro d old new hold hnew
  exact hold.kept hnew

end ClassGauge
