import ClassGauge.Analysis
import ClassGauge.Proofs.Ancestry
import ClassGauge.Proofs.Runs

/-! # Records and warnings of an analysis

An analysis measures the classes of the registry one after the other and stops at the first whose
line of ancestors loops; the numbers of subclasses are filled in when all other metrics are known.

* `Registry.recordOf`: the record of a class, put together from the separate metrics;
* `measureAll_eq_ok_iff`, `measureAll_eq_error_iff`: what a measurement of all classes comes to;
* `records_eq_ok_iff`: the same for files, said with the lines of ancestors;
* `analyze_outcome`: classes, records, error and warnings of the analysis of some files.
-/

namespace ClassGauge

open Syntax Registry

/-! ## The record of one class -/

/-- The record of a class whose depth is `dit`: each metric of the class by itself, and how many
classes of the registry write its name as their base. -/
def Registry.recordOf (r : Registry) (u : ClassUnit) (dit : Nat) : Record where
  className := u.name
  filePath := u.file.path
  loc := u.file.lineCount
  cbo := couplingBetweenObjects u
  wmc := weightedMethods u
  dit := dit
  rfc := responseForClass u
  lcom := lackOfCohesion u
  totalMethods := u.methods.length
  totalFields := totalFields u
  nosi := r.toList.countP (·.base = some u.name)
  returnQty := (Tally.ofNode u.node).returns
  loopQty := (Tally.ofNode u.node).loops
  comparisonsQty := (Tally.ofNode u.node).comparisons
  tryCatchQty := (Tally.ofNode u.node).tryCatches
  parenthesizedExpsQty := (Tally.ofNode u.node).parenthesized
  stringLiteralsQty := (Tally.ofNode u.node).stringLiterals
  numbersQty := (Tally.ofNode u.node).numbers
  assignmentsQty := (Tally.ofNode u.node).assignments
  mathOperationsQty := (Tally.ofNode u.node).mathOperations
  variablesQty := u.fields.length
  maxNestedBlocks := maxNestedBlocks u
  uniqueWordsQty := uniqueWords u.node.tree.text

variable {r : Registry} {u : ClassUnit}

/-- Measuring a class finds its record, the number of subclasses apart. -/
theorem measure_eq_map (r : Registry) (u : ClassUnit) :
    Record.measure r u =
      (depthOfInheritance r u).map fun d => { r.recordOf u d with nosi := 0 } := by
  rw [Record.measure]
  cases depthOfInheritance r u with
  | error e => rfl
  | ok d => rfl

/-- All classes are measured by going through their depths in order. -/
theorem measureAll_eq_mapM (hr : r.Consistent) :
    r.measureAll = r.toList.mapM fun u => (depthOfInheritance r u).map (r.recordOf u) := by
  have hall : r.measureAll =
      (r.toList.mapM (Record.measure r)).map (List.map (Record.withSubclasses r)) := by
    rw [measureAll]
    cases r.toList.mapM (Record.measure r) with
    | error e => rfl
    | ok records => rfl
  rw [hall, map_map_mapM]
  congr 1
  funext u
  rw [measure_eq_map]
  cases depthOfInheritance r u with
  | error e => rfl
  | ok d => simp only [Except.map, Record.withSubclasses, recordOf, hr.subclassCounts_eq]

/-- A measurement that succeeds gives, class by class, the record for the depth of the class. -/
theorem measureAll_eq_ok_iff (hr : r.Consistent) {records : List Record} :
    r.measureAll = .ok records ↔
      List.Forall₂ (fun u record => ∃ d, depthOfInheritance r u = .ok d ∧ record = r.recordOf u d)
        r.toList records := by
  rw [measureAll_eq_mapM hr, mapM_eq_ok_iff]
  simp only [map_eq_ok_iff]

/-- Every record of a measurement is the record of some class. -/
theorem exists_class_of_mem (hr : r.Consistent) {records : List Record}
    (hall : r.measureAll = .ok records) {record : Record} (hrecord : record ∈ records) :
    ∃ u ∈ r.toList, ∃ d, depthOfInheritance r u = .ok d ∧ record = r.recordOf u d := by
  have hstep : List.Forall₂ (fun record u => ∃ d, depthOfInheritance r u = .ok d ∧
      record = r.recordOf u d) records r.toList :=
    List.Forall₂.flip ((measureAll_eq_ok_iff hr).mp hall)
  exact mem_of_forall₂ hstep hrecord

/-- The names of the records are those of the classes, in the same order. -/
theorem map_className_of_measureAll (hr : r.Consistent) {records : List Record}
    (hall : r.measureAll = .ok records) :
    records.map Record.className = r.toList.map ClassUnit.name := by
  have hstep : List.Forall₂ (· = ·) (r.toList.map ClassUnit.name)
      (records.map Record.className) := by
    rw [List.forall₂_map_left_iff, List.forall₂_map_right_iff]
    refine ((measureAll_eq_ok_iff hr).mp hall).imp ?_
    rintro u _ ⟨d, _, rfl⟩
    rfl
  rw [List.forall₂_eq_eq_eq] at hstep
  exact hstep.symm

/-- A measurement that fails does so at the first class whose line loops. -/
theorem measureAll_eq_error_iff (hr : r.Consistent) {e : CyclicInheritance} :
    r.measureAll = .error e ↔ ∃ before u after, r.toList = before ++ u :: after ∧
      (∀ v ∈ before, ¬ r.Loops v) ∧ depthOfInheritance r u = .error e := by
  have hbefore : ∀ before u after, r.toList = before ++ u :: after →
      ((∀ v ∈ before, ∃ record, (depthOfInheritance r v).map (r.recordOf v) = .ok record) ↔
        ∀ v ∈ before, ¬ r.Loops v) := by
    intro before u after hsplit
    refine forall₂_congr fun v hv => ?_
    have hmem : v ∈ r.toList := hsplit ▸ List.mem_append_left _ hv
    rw [← exists_depthOfInheritance_iff hr hmem]
    cases depthOfInheritance r v with
    | error e => simp [Except.map]
    | ok d => simp [Except.map]
  -- In front of that class all lines end, so none of them loops.
  rw [measureAll_eq_mapM hr, mapM_eq_error_iff]
  simp only [map_eq_error_iff]
  constructor
  · rintro ⟨before, u, after, hsplit, h, he⟩
    exact ⟨before, u, after, hsplit, (hbefore before u after hsplit).mp h, he⟩
  · rintro ⟨before, u, after, hsplit, h, he⟩
    exact ⟨before, u, after, hsplit, (hbefore before u after hsplit).mpr h, he⟩

/-- The measurement of all classes fails exactly if some line loops. -/
theorem measureAll_error_iff (hr : r.Consistent) :
    (∃ e, r.measureAll = .error e) ↔ ∃ u ∈ r.toList, r.Loops u := by
  constructor
  · rintro ⟨e, he⟩
    obtain ⟨before, u, after, hsplit, _, hu⟩ := (measureAll_eq_error_iff hr).mp he
    have hmem : u ∈ r.toList := by simp [hsplit]
    exact ⟨u, hmem, (depthOfInheritance_error_iff hr hmem).mp ⟨e, hu⟩⟩
  · rintro ⟨u, hu, hloops⟩
    cases hall : r.measureAll with
    | error e => exact ⟨e, rfl⟩
    | ok records =>
      obtain ⟨_, _, d, hd, _⟩ := mem_of_forall₂ ((measureAll_eq_ok_iff hr).mp hall) hu
      exact absurd hloops ((exists_depthOfInheritance_iff hr hu).mp ⟨d, hd⟩)

/-! ## The analysis of files -/

/-- An analysis that succeeds gives, class by class, the record for the level at which the line of
the class ends. -/
theorem records_eq_ok_iff {files : List SourceFile} {records : List Record} :
    (analyze files).records = .ok records ↔
      List.Forall₂ (fun u record => ∃ d, (build files).EndsAt u d ∧
        record = (build files).recordOf u d) (build files).toList records := by
  have hr := consistent_build files
  have hdepth : ∀ u ∈ (build files).toList, ∀ record,
      (∃ d, depthOfInheritance (build files) u = .ok d ∧ record = (build files).recordOf u d) ↔
        ∃ d, (build files).EndsAt u d ∧ record = (build files).recordOf u d := by
    intro u hu record
    simp only [depthOfInheritance_eq_ok_iff hr hu]
  refine (measureAll_eq_ok_iff hr).trans ⟨?_, ?_⟩
  · exact forall₂_imp_of_mem fun u hu record => (hdepth u hu record).mp
  · exact forall₂_imp_of_mem fun u hu record => (hdepth u hu record).mpr

/-- If all lines end, the records are those for the levels at which they do. -/
theorem records_of_endsAt {files : List SourceFile} {depths : List Nat}
    (h : List.Forall₂ (build files).EndsAt (build files).toList depths) :
    (analyze files).records =
      .ok (List.zipWith (build files).recordOf (build files).toList depths) := by
  refine records_eq_ok_iff.mpr (forall₂_zipWith ?_ h)
  intro u d hends
  exact ⟨d, hends, rfl⟩

/-- What the analysis of any files comes to. The registry holds the classes in file order, and for
one file in the order of declaration. The analysis fails if and only if some line of ancestors
loops, with the error of the first class whose line does. Otherwise it gives one record for each
class in the same order: every metric is the separate metric of the class, and the number of
subclasses counts the classes whose base is written as the name of the class. There is one warning
for each name with several declarations, in ascending order of the names, and it lists the
declarations in the order of the registry. -/
theorem analyze_outcome (files : List SourceFile) :
    (build files).toList =
        (files.flatMap fun f => f.classes.map fun c => (f, c)).mapIdx
          (fun i d => ClassUnit.ofDecl i d.1 d.2) ∧
      ((∃ e, (analyze files).records = .error e) ↔
        ∃ u ∈ (build files).toList, (build files).Loops u) ∧
      (∀ e, (analyze files).records = .error e ↔
        ∃ before u after, (build files).toList = before ++ u :: after ∧
          (∀ v ∈ before, ¬ (build files).Loops v) ∧
          depthOfInheritance (build files) u = .error e) ∧
      (∀ records, (analyze files).records = .ok records ↔
        List.Forall₂ (fun u record => ∃ d, depthOfInheritance (build files) u = .ok d ∧
          record = (build files).recordOf u d) (build files).toList records) ∧
      ∃ names : List String, names.Pairwise (· < ·) ∧
        (∀ name, name ∈ names ↔ 2 ≤ (build files).toList.countP (·.name = name)) ∧
        (analyze files).warnings = names.map fun name =>
          .duplicateName name
            (((build files).toList.filter (·.name = name)).map fun u => (u.file.path, u.line)) := by
  have hr := consistent_build files
  refine ⟨toList_build files, measureAll_error_iff hr, fun e => measureAll_eq_error_iff hr,
    fun records => measureAll_eq_ok_iff hr, (build files).duplicateNames, ?_, ?_, rfl⟩
  · exact pairwise_duplicateNames _
  · exact fun name => mem_duplicateNames

end ClassGauge
