import ClassGauge.Report.Assessment
import Mathlib.Algebra.Order.Field.Basic
import Mathlib.Algebra.Order.Ring.Rat

/-! # What the checks make of a record

Each check comes to a verdict on a record: the record passes, fails, or, with the check of variables
alone, neither. The strengths and the risks are the checks with one verdict and with the other, so
everything that is said of them is said of verdicts.

* `Check.verdict?`: the verdict of one check;
* `variableDensity_eq_some_true_iff`, `variableDensity_eq_some_false_iff`: the check of variables in
  exact fractions;
* `passed_ofRecord`, `failed_ofRecord`: the checks of the two lists as filters of all checks;
* `Check.verdict?_mono`: a record that is no better fails no fewer checks;
* `assessment_of_values`: all of this for the assessment of a record.
-/

namespace ClassGauge

variable {record other : Record} {c : Check} {n m loc : Nat}

/-! ## Variables -/

/-- A ratio to the lines of a file, compared with a fraction by multiplication. -/
theorem div_le_one_div_iff {k : Nat} (hloc : loc ≠ 0) (hk : k ≠ 0) :
    (n / loc : ℚ) ≤ 1 / k ↔ n * k ≤ loc := by
  have hlocpos : (0 : ℚ) < loc := by exact_mod_cast Nat.pos_of_ne_zero hloc
  have hkpos : (0 : ℚ) < k := by exact_mod_cast Nat.pos_of_ne_zero hk
  rw [div_le_div_iff₀ hlocpos hkpos, one_mul]
  exact_mod_cast Iff.rfl

/-- Variables are favourable if there are any, but no more than one for ten lines. -/
theorem variableDensity_eq_some_true_iff :
    variableDensity n loc = some true ↔ 1 ≤ n ∧ (n / loc : ℚ) ≤ 1 / 10 := by
  by_cases hloc : loc = 0
  · subst hloc
    simp [variableDensity, Nat.one_le_iff_ne_zero]
  · have hten : (n / loc : ℚ) ≤ 1 / 10 ↔ n * 10 ≤ loc := div_le_one_div_iff hloc (by decide)
    rw [hten]
    unfold variableDensity
    split_ifs <;> simp <;> omega

/-- Variables are unfavourable if there are more than one for five lines. -/
theorem variableDensity_eq_some_false_iff :
    variableDensity n loc = some false ↔ (1 / 5 : ℚ) < n / loc := by
  by_cases hloc : loc = 0
  · subst hloc
    simp [variableDensity]
  · have hfive : (n / loc : ℚ) ≤ 1 / 5 ↔ n * 5 ≤ loc := div_le_one_div_iff hloc (by decide)
    rw [← not_le, hfive]
    unfold variableDensity
    split_ifs <;> simp <;> omega

/-- More variables in as many lines are no better. -/
theorem variableDensity_mono (hle : n ≤ m) (h : variableDensity n loc = some false) :
    variableDensity m loc = some false := by
  rw [variableDensity_eq_some_false_iff] at h ⊢
  have hcast : (n : ℚ) ≤ m := by exact_mod_cast hle
  exact h.trans_le (div_le_div_of_nonneg_right hcast (Nat.cast_nonneg loc))

/-! ## Verdicts -/

/-- The verdict of a check: whether the record passes it, `none` if it neither passes nor fails. -/
def Check.verdict? (c : Check) (record : Record) : Option Bool :=
  match c.threshold? with
  | some threshold => some (decide (c.metric.value record ≤ threshold))
  | none => variableDensity (c.metric.value record) record.loc

theorem Check.verdict?_variables :
    Check.variables.verdict? record = variableDensity record.variablesQty record.loc := rfl

/-- A finding is the verdict of a check, with the check and the value that it looks at. -/
theorem Finding.ofCheck?_eq_map_verdict? (record : Record) (c : Check) :
    Finding.ofCheck? record c = (c.verdict? record).map (⟨c, c.metric.value record, ·⟩) := by
  unfold Finding.ofCheck? Check.verdict?
  cases c.threshold? <;> rfl

/-- A record with as many lines and with values that are no lower fails what the other one fails. -/
theorem Check.verdict?_mono (hloc : record.loc = other.loc)
    (hle : ∀ m : Metric, m.value record ≤ m.value other) (h : c.verdict? record = some false) :
    c.verdict? other = some false := by
  unfold Check.verdict? at h ⊢
  cases hthreshold : c.threshold? with
  | some t =>
    simp only [hthreshold, Option.some.injEq, decide_eq_false_iff_not] at h ⊢
    have hvalue := hle c.metric
    omega
  | none =>
    simp only [hthreshold] at h ⊢
    rw [← hloc]
    exact variableDensity_mono (hle c.metric) h

/-! ## Strengths and risks -/

namespace Assessment

/-- The checks of the risks, in the order of the list. -/
def failed (a : Assessment) : List Check := a.risks.map (·.check)

/-- The checks of the strengths, in the order of the list. -/
def passed (a : Assessment) : List Check := a.strengths.map (·.check)

/-- The findings with one of the two verdicts, as a filter of the checks. -/
theorem filter_findings (record : Record) (checks : List Check) (b : Bool) :
    (checks.filterMap (Finding.ofCheck? record)).filter (fun f => f.favourable = b) =
      (checks.filter fun c => c.verdict? record = some b).map
        fun c => ⟨c, c.metric.value record, b⟩ := by
  induction checks with
  | nil => rfl
  | cons c cs ih =>
    rw [List.filterMap_cons, Finding.ofCheck?_eq_map_verdict?, List.filter_cons]
    cases c.verdict? record with
    | none => simpa using ih
    | some v =>
      by_cases hv : v = b
      · subst hv
        simpa using ih
      · simpa [hv] using ih

theorem risks_ofRecord (record : Record) : (ofRecord record).risks =
    (Check.all.filter fun c => c.verdict? record = some false).map
      fun c => ⟨c, c.metric.value record, false⟩ := by
  rw [← filter_findings]
  simp [ofRecord]

theorem strengths_ofRecord (record : Record) : (ofRecord record).strengths =
    (Check.all.filter fun c => c.verdict? record = some true).map
      fun c => ⟨c, c.metric.value record, true⟩ := by
  rw [← filter_findings]
  simp [ofRecord]

theorem failed_ofRecord (record : Record) :
    (ofRecord record).failed = Check.all.filter fun c => c.verdict? record = some false := by
  rw [failed, risks_ofRecord, List.map_map]
  exact List.map_id _

theorem passed_ofRecord (record : Record) :
    (ofRecord record).passed = Check.all.filter fun c => c.verdict? record = some true := by
  rw [passed, strengths_ofRecord, List.map_map]
  exact List.map_id _

theorem mem_failed_iff : c ∈ (ofRecord record).failed ↔ c.verdict? record = some false := by
  simp [failed_ofRecord, Check.mem_all]

theorem mem_passed_iff : c ∈ (ofRecord record).passed ↔ c.verdict? record = some true := by
  simp [passed_ofRecord, Check.mem_all]

/-- No check is listed twice, neither in one of the lists nor in both. -/
theorem nodup_passed_append_failed (record : Record) :
    ((ofRecord record).passed ++ (ofRecord record).failed).Nodup := by
  refine List.nodup_append.mpr ⟨?_, ?_, ?_⟩
  · rw [passed_ofRecord]
    exact Check.nodup_all.filter _
  · rw [failed_ofRecord]
    exact Check.nodup_all.filter _
  · rintro c hpassed _ hfailed rfl
    rw [mem_passed_iff] at hpassed
    rw [mem_failed_iff, hpassed] at hfailed
    cases hfailed

/-- Every check with a threshold makes a point, the check of variables if it has a verdict. -/
theorem risk_add_quality (record : Record) :
    (ofRecord record).risk + (ofRecord record).quality =
      7 + if (variableDensity record.variablesQty record.loc).isSome then 1 else 0 := by
  have hsplit (findings : List Finding) :
      (findings.filter (!·.favourable)).length + (findings.filter (·.favourable)).length =
        findings.length := by
    have hcount := findings.length_eq_countP_add_countP (·.favourable)
    simp only [List.countP_eq_length_filter, Bool.not_eq_true] at hcount
    simp [hcount, Nat.add_comm]
  rw [risk, quality, ofRecord, hsplit, List.length_filterMap_eq_countP]
  simp [Check.all, List.countP_cons, Finding.ofCheck?_eq_map_verdict?, Check.verdict?,
    Check.threshold?, Check.metric, Metric.value]
  omega

/-- The checks with a threshold in order, each with the value that it looks at and the largest value
that is a strength. -/
def thresholdChecks (record : Record) : List (Check × Nat × Nat) :=
  [(.size, record.loc, 150), (.methodWeight, record.wmc, 8), (.response, record.rfc, 15),
    (.nesting, record.maxNestedBlocks, 3), (.loops, record.loopQty, 5),
    (.comparisons, record.comparisonsQty, 20), (.tryCatch, record.tryCatchQty, 3)]

theorem verdict?_of_mem_thresholdChecks {value threshold : Nat}
    (h : (c, value, threshold) ∈ thresholdChecks record) :
    c.verdict? record = some (decide (value ≤ threshold)) := by
  simp only [thresholdChecks, List.mem_cons, Prod.mk.injEq, List.not_mem_nil, or_false] at h
  rcases h with ⟨rfl, rfl, rfl⟩ | ⟨rfl, rfl, rfl⟩ | ⟨rfl, rfl, rfl⟩ | ⟨rfl, rfl, rfl⟩ |
    ⟨rfl, rfl, rfl⟩ | ⟨rfl, rfl, rfl⟩ | ⟨rfl, rfl, rfl⟩
  all_goals rfl

end Assessment

open Assessment

/-- The strengths and risks of a record. Each check with a threshold is in exactly one of the lists: it
is a strength if the value is at most the threshold, and a risk otherwise. The check of variables is a
strength if there are any but at most one for ten lines, a risk if there are more than one for five
lines, and in neither list otherwise; a file without lines has the ratio zero. No check is listed
twice, both lists keep the order of the checks, and each finding has the value of its check. So the
two numbers are 7 or 8 together. A record with as many lines and no lower values has all the risks
of the other one. Numbers have no bound here, so all of this holds however many variables there are. -/
theorem assessment_of_values (record : Record) :
    (∀ c value threshold, (c, value, threshold) ∈ thresholdChecks record →
      (c ∈ (ofRecord record).passed ↔ value ≤ threshold) ∧
      (c ∈ (ofRecord record).failed ↔ threshold < value)) ∧
    (.variables ∈ (ofRecord record).passed ↔
      1 ≤ record.variablesQty ∧ (record.variablesQty / record.loc : ℚ) ≤ 1 / 10) ∧
    (.variables ∈ (ofRecord record).failed ↔ (1 / 5 : ℚ) < record.variablesQty / record.loc) ∧
    ((ofRecord record).passed ++ (ofRecord record).failed).Nodup ∧
    (ofRecord record).passed.Sublist ((thresholdChecks record).map (·.1) ++ [.variables]) ∧
    (ofRecord record).failed.Sublist ((thresholdChecks record).map (·.1) ++ [.variables]) ∧
    (∀ f ∈ (ofRecord record).strengths, f = ⟨f.check, f.check.metric.value record, true⟩) ∧
    (∀ f ∈ (ofRecord record).risks, f = ⟨f.check, f.check.metric.value record, false⟩) ∧
    ((ofRecord record).risk + (ofRecord record).quality = 7 ∨
      (ofRecord record).risk + (ofRecord record).quality = 8) ∧
    ∀ other : Record, record.loc = other.loc →
      (∀ m : Metric, m.value record ≤ m.value other) →
      ∀ c ∈ (ofRecord record).failed, c ∈ (ofRecord other).failed := by
  refine ⟨?_, ?_, ?_, nodup_passed_append_failed record, ?_, ?_, ?_, ?_, ?_, ?_⟩
  · intro c value threshold hmem
    rw [mem_passed_iff, mem_failed_iff, verdict?_of_mem_thresholdChecks hmem]
    simp
  · -- The check of variables is made with products here and with fractions in the statement.
    rw [mem_passed_iff, Check.verdict?_variables]
    exact variableDensity_eq_some_true_iff
  · rw [mem_failed_iff, Check.verdict?_variables]
    exact variableDensity_eq_some_false_iff
  · -- Both lists are filtered from the list of all checks, so their order is that of the checks.
    rw [passed_ofRecord]
    exact List.filter_sublist
  · rw [failed_ofRecord]
    exact List.filter_sublist
  · rw [strengths_ofRecord, List.forall_mem_map]
    exact fun _ _ => rfl
  · rw [risks_ofRecord, List.forall_mem_map]
    exact fun _ _ => rfl
  · -- Only the check of variables may have no verdict.
    rw [risk_add_quality]
    split
    · exact Or.inr rfl
    · exact Or.inl rfl
  · intro other hloc hle c hc
    rw [mem_failed_iff] at hc ⊢
    exact Check.verdict?_mono hloc hle hc

/-- A class with too much weight, and with 21 variables in 100 lines. -/
def crowded : Record :=
  Record.ofValues "Crowded" "src/crowded.ts" fun
    | .loc => 100
    | .wmc => 9
    | .variablesQty => 21
    | _ => 0

/-- A class in as many lines that does more besides. -/
def moreCrowded : Record :=
  Record.ofValues "Crowded" "src/crowded.ts" fun
    | .loc => 100
    | .wmc => 12
    | .rfc => 16
    | .variablesQty => 30
    | _ => 0

/-- The second class has the risks of the first, and one more. -/
theorem assessment_of_values_crowded :
    crowded.loc = moreCrowded.loc ∧ (∀ m : Metric, m.value crowded ≤ m.value moreCrowded) ∧
      (.methodWeight, 9, 8) ∈ thresholdChecks crowded ∧
      (.methodWeight ∈ (ofRecord crowded).failed ↔ 8 < 9) ∧
      (ofRecord crowded).failed = [.methodWeight, .variables] ∧
      (∀ c ∈ (ofRecord crowded).failed, c ∈ (ofRecord moreCrowded).failed) ∧
      (ofRecord moreCrowded).failed = [.methodWeight, .response, .variables] := by
  rcases assessment_of_values crowded with ⟨hthresholds, _, _, _, _, _, _, _, _, hmono⟩
  have hloc : crowded.loc = moreCrowded.loc := rfl
  have hle : ∀ m : Metric, m.value crowded ≤ m.value moreCrowded := by
    intro m
    cases m <;> decide
  have hmem : (.methodWeight, 9, 8) ∈ thresholdChecks crowded := by decide
  exact ⟨hloc, hle, hmem, (hthresholds _ _ _ hmem).2, by decide, hmono moreCrowded hloc hle,
    by decide⟩

end ClassGauge
