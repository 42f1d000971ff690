import ClassGauge.Proofs.Sorting
import ClassGauge.Report.Ranking
import Mathlib.Data.Fin.Basic
import Mathlib.Data.List.FinRange

/-! # The records at the top of a ranking

A ranking is said with positions in the list of records, since the same record may stand there more
than once. The positions with a value are put in order, the higher value first and of equal values
the one that stands first, and cut to length. Nothing is left open by that: the order of positions is
strict, so there is one such list only. That the order of the report decides between equal values is
the stability of the sort (`pairwise_mergeSort_stable`).

* `IsRanking`: what a ranking is, said without sorting;
* `rankedPositions`, `isRanking_iff`: the ranking is the beginning of one list of positions;
* `topBy_isRanking`: the records that a report has at the top.
-/

namespace ClassGauge

/-! ## Positions in the order of a ranking -/

section Positions

variable {records : List Record} {metric : Record → Nat} {limit : Nat}
  {i j : Fin records.length} {picks : List (Fin records.length)}

/-- Of some records, `picks` are the positions of at most `limit` with the highest values of a metric,
the highest first. -/
structure IsRanking (records : List Record) (metric : Record → Nat) (limit : Nat)
    (picks : List (Fin records.length)) : Prop where
  /-- No position is listed twice. -/
  nodup : picks.Nodup
  /-- Only records with a value are listed. -/
  positive : ∀ i ∈ picks, 0 < metric records[i]
  /-- As many are listed as there are, up to the limit. -/
  length_eq : picks.length = min limit (records.countP fun x => 0 < metric x)
  /-- Values do not increase along the list. -/
  descending : picks.Pairwise fun i j => metric records[j] ≤ metric records[i]
  /-- Records of equal value keep their order. -/
  ties : picks.Pairwise fun i j => metric records[i] = metric records[j] → i < j
  /-- What is left out has no higher value than anything that is listed, and with an equal value it
  stands behind it. -/
  leftOut : ∀ i, 0 < metric records[i] → i ∉ picks → ∀ j ∈ picks,
    metric records[i] ≤ metric records[j] ∧ (metric records[i] = metric records[j] → j < i)

/-- The record at `i` ranks higher than that at `j`: by its value, or by its place. -/
def Outranks (records : List Record) (metric : Record → Nat) (i j : Fin records.length) : Prop :=
  metric records[j] ≤ metric records[i] ∧ (metric records[i] = metric records[j] → i < j)

theorem Outranks.antisymm (hij : Outranks records metric i j) (hji : Outranks records metric j i) :
    i = j := by
  have heq : metric records[i] = metric records[j] := Nat.le_antisymm hji.1 hij.1
  exact absurd (hji.2 heq.symm) (hij.2 heq).asymm

/-- The positions of all records with a value, in the order of their ranks. -/
def rankedPositions (records : List Record) (metric : Record → Nat) : List (Fin records.length) :=
  ((List.finRange records.length).filter fun i => 0 < metric records[i]).mergeSort
    fun i j => metric records[j] ≤ metric records[i]

theorem mem_rankedPositions : i ∈ rankedPositions records metric ↔ 0 < metric records[i] := by
  simp [rankedPositions]

theorem nodup_rankedPositions (records : List Record) (metric : Record → Nat) :
    (rankedPositions records metric).Nodup :=
  (List.mergeSort_perm _ _).nodup_iff.mpr ((List.nodup_finRange _).filter _)

/-- The higher value stands first, and of equal values the first in the list of records. -/
theorem pairwise_rankedPositions (records : List Record) (metric : Record → Nat) :
    (rankedPositions records metric).Pairwise (Outranks records metric) := by
  have htrans : ∀ i j k : Fin records.length,
      decide (metric records[j] ≤ metric records[i]) = true →
      decide (metric records[k] ≤ metric records[j]) = true →
      decide (metric records[k] ≤ metric records[i]) = true := by
    intro i j k hij hjk
    simp only [decide_eq_true_eq] at hij hjk ⊢
    exact hjk.trans hij
  have htotal : ∀ i j : Fin records.length, (decide (metric records[j] ≤ metric records[i]) ||
      decide (metric records[i] ≤ metric records[j])) = true := by
    intro i j
    simpa using Nat.le_total _ _
  have hpositions : ((List.finRange records.length).filter fun i => 0 < metric records[i]).Pairwise
      (· < ·) := (List.pairwise_lt_finRange _).filter _
  -- The sort puts higher values first and, being stable, level ones in the order of their
  -- positions.
  refine ((List.pairwise_mergeSort htrans htotal _).and
    (pairwise_mergeSort_stable htrans htotal hpositions)).imp ?_
  rintro i j ⟨hle, htie⟩
  rw [decide_eq_true_eq] at hle htie
  exact ⟨hle, fun heq => htie heq.le⟩

/-- The records with a value are those at the positions with a value. -/
theorem filter_eq_map_finRange (records : List Record) (p : Record → Bool) :
    records.filter p =
      ((List.finRange records.length).filter fun i => p records[i]).map fun i => records[i] := by
  conv_lhs => rw [← List.map_get_finRange records, List.filter_map]
  rfl

theorem length_rankedPositions (records : List Record) (metric : Record → Nat) :
    (rankedPositions records metric).length = records.countP fun x => 0 < metric x := by
  rw [rankedPositions, (List.mergeSort_perm _ _).length_eq, List.countP_eq_length_filter,
    filter_eq_map_finRange, List.length_map]

/-- The beginning of the list of all positions is a ranking. -/
theorem isRanking_take (records : List Record) (metric : Record → Nat) (limit : Nat) :
    IsRanking records metric limit ((rankedPositions records metric).take limit) where
  nodup := (nodup_rankedPositions records metric).sublist (List.take_sublist _ _)
  positive := fun _ hi => mem_rankedPositions.mp (List.mem_of_mem_take hi)
  length_eq := by rw [List.length_take, length_rankedPositions]
  descending := ((pairwise_rankedPositions records metric).sublist (List.take_sublist _ _)).imp And.left
  ties := ((pairwise_rankedPositions records metric).sublist (List.take_sublist _ _)).imp And.right
  leftOut := by
    intro i hi hnot j hj
    have hsplit := pairwise_rankedPositions records metric
    have hmem := mem_rankedPositions.mpr hi
    rw [← List.take_append_drop limit (rankedPositions records metric)] at hsplit hmem
    have hdrop := (List.mem_append.mp hmem).resolve_left hnot
    have hji : Outranks records metric j i := (List.pairwise_append.mp hsplit).2.2 j hj i hdrop
    exact ⟨hji.1, fun heq => hji.2 heq.symm⟩

/-- A ranking and what it leaves out are all positions in the order of their ranks. -/
theorem IsRanking.append_eq (h : IsRanking records metric limit picks) :
    picks ++ (rankedPositions records metric).filter (· ∉ picks) = rankedPositions records metric := by
  have hranked := pairwise_rankedPositions records metric
  have hnodup := nodup_rankedPositions records metric
  -- Both sides are in the order of ranks, which is strict, so it is enough that they have the same
  -- members.
  have hpicks : picks.Pairwise (Outranks records metric) := h.descending.and h.ties
  have hall : (picks ++ (rankedPositions records metric).filter (· ∉ picks)).Pairwise
      (Outranks records metric) := by
    refine List.pairwise_append.mpr ⟨hpicks, hranked.filter _, ?_⟩
    intro j hj i hi
    simp only [List.mem_filter, decide_eq_true_eq, mem_rankedPositions] at hi
    obtain ⟨hle, htie⟩ := h.leftOut i hi.1 hi.2 j hj
    exact ⟨hle, fun heq => htie heq.symm⟩
  refine List.Perm.eq_of_pairwise (fun _ _ _ _ hij hji => hij.antisymm hji) hall hranked ?_
  refine (List.perm_ext_iff_of_nodup ?_ hnodup).mpr ?_
  · refine List.nodup_append.mpr ⟨h.nodup, hnodup.filter _, ?_⟩
    rintro i hi _ hfilter rfl
    simp [hi] at hfilter
  · intro i
    simp only [List.mem_append, List.mem_filter, decide_eq_true_eq]
    constructor
    · rintro (hi | hi)
      · exact mem_rankedPositions.mpr (h.positive i hi)
      · exact hi.1
    · intro hi
      by_cases hpick : i ∈ picks
      · exact Or.inl hpick
      · exact Or.inr ⟨hi, hpick⟩

/-- There is one ranking only. -/
theorem isRanking_iff :
    IsRanking records metric limit picks ↔ picks = (rankedPositions records metric).take limit := by
  constructor
  · intro h
    have hprefix : picks <+: rankedPositions records metric := ⟨_, h.append_eq⟩
    rw [List.take_eq_take_min, length_rankedPositions, ← h.length_eq]
    exact List.prefix_iff_eq_take.mp hprefix
  · rintro rfl
    exact isRanking_take records metric limit

theorem topBy_eq_map_rankedPositions (r : Report) (metric : Record → Nat) (limit : Nat) :
    r.topBy metric limit =
      ((rankedPositions r.records metric).take limit).map fun i => r.records[i] := by
  have hsort := List.map_mergeSort (f := fun i : Fin r.records.length => r.records[i])
    (s := fun a b => metric b ≤ metric a)
    (l := (List.finRange r.records.length).filter fun i => 0 < metric r.records[i])
    fun _ _ _ _ => rfl
  rw [Report.topBy, filter_eq_map_finRange, List.map_take, rankedPositions, hsort]

end Positions

/-- The records that a report has at the top by a metric are those at the positions of a ranking: at
different positions, all with a value, as many as there are up to the limit, in descending order of
values, those of equal value in their order in the report; and nothing that is left out belongs in
front of anything that is listed. No other list of positions has these properties. With a limit of one
more the list begins in the same way. -/
theorem topBy_isRanking (r : Report) (metric : Record → Nat) (limit : Nat) :
    (∃ picks : List (Fin r.records.length), r.topBy metric limit = picks.map (fun i => r.records[i]) ∧
      IsRanking r.records metric limit picks ∧
      ∀ others, IsRanking r.records metric limit others → others = picks) ∧
    r.topBy metric limit <+: r.topBy metric (limit + 1) := by
  constructor
  · refine ⟨_, topBy_eq_map_rankedPositions r metric limit, isRanking_take r.records metric limit, ?_⟩
    exact fun _ => isRanking_iff.mp
  · have hle : limit ≤ limit + 1 := Nat.le_succ limit
    exact List.take_prefix_take_left hle

/-- Four classes, of which two are level and one has no weight. -/
def levelClasses : Report where
  records :=
    [("A", 2), ("B", 6), ("C", 0), ("B", 6)].map fun (name, weight) =>
      Record.ofValues name "src/a.ts" fun m => if m = .wmc then weight else 0
  totalFiles := 1
  skipped := []

/-- Of the two records that are level, though they are the same, the first is at the top; both come in
front of the lighter one. -/
theorem topBy_isRanking_levelClasses :
    IsRanking levelClasses.records (·.wmc) 1 [⟨1, by decide⟩] ∧
      (∀ others, IsRanking levelClasses.records (·.wmc) 1 others → others = [⟨1, by decide⟩]) ∧
      (levelClasses.topBy (·.wmc) 4).map (·.className) = ["B", "B", "A"] ∧
      levelClasses.topBy (·.wmc) 1 <+: levelClasses.topBy (·.wmc) 2 := by
  rcases topBy_isRanking levelClasses (·.wmc) 1 with ⟨⟨picks, _, _, hunique⟩, hprefix⟩
  have hranking : IsRanking levelClasses.records (·.wmc) 1 [⟨1, by decide⟩] :=
    ⟨by decide, by decide, by decide, by decide, by decide, by decide⟩
  have hall : (levelClasses.topBy (·.wmc) 4).map (·.className) = ["B", "B", "A"] := by
    rcases topBy_isRanking levelClasses (·.wmc) 4 with ⟨⟨picks, htop, _, hunique⟩, _⟩
    have hranking : IsRanking levelClasses.records (·.wmc) 4
        [⟨1, by decide⟩, ⟨3, by decide⟩, ⟨0, by decide⟩] :=
      ⟨by decide, by decide, by decide, by decide, by decide, by decide⟩
    rw [htop, ← hunique _ hranking]
    rfl
  refine ⟨hranking, ?_, hall, hprefix⟩
  intro others hothers
  rw [hunique others hothers, hunique _ hranking]

end ClassGauge
