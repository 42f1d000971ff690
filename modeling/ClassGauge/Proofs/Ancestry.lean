import ClassGauge.Measure.Inheritance
import ClassGauge.Proofs.Registry

/-! # Lines of ancestors

The line of ancestors of a class is what comes of resolving bases again and again. It either ends,
at a class without a base or with one that does not resolve, or it comes back to a class that it has
met before; with a tail in front of the cycle, if the class itself lies on none.

* `Registry.ancestor?`, `Registry.line`: the line, said without a set of visited classes;
* `Climbing`: the invariant of the walk along the line;
* `depthOfInheritance_eq_ok_iff`, `depthOfInheritance_error`: what the walk finds.
-/

namespace ClassGauge

open Syntax

namespace Registry

variable {r : Registry} {u v : ClassUnit}

/-- The class `n` levels above `u` on its line of ancestors, if the line goes that far. -/
def ancestor? (r : Registry) (u : ClassUnit) : Nat → Option ClassUnit
  | 0 => some u
  | n + 1 => (r.ancestor? u n).bind r.parent?

/-- The first `n` classes on the line of `u`, itself included; fewer if the line ends before. -/
def line (r : Registry) (u : ClassUnit) (n : Nat) : List ClassUnit :=
  (List.range n).filterMap (r.ancestor? u)

/-- The line of `u` ends `d` levels above it, at a class without a base or with one that does not
resolve. -/
def EndsAt (r : Registry) (u : ClassUnit) (d : Nat) : Prop :=
  ∃ v, r.ancestor? u d = some v ∧ r.parent? v = none

/-- Some class stands twice on the line of `u`. -/
def Loops (r : Registry) (u : ClassUnit) : Prop :=
  ∃ i j v, i < j ∧ r.ancestor? u i = some v ∧ r.ancestor? u j = some v

/-- The class `again`, `n` levels above `u`, is the first that stands on the line a second time. -/
structure ReturnsAt (r : Registry) (u : ClassUnit) (n : Nat) (again : ClassUnit) : Prop where
  here : r.ancestor? u n = some again
  met : again ∈ r.line u n
  distinct : (r.line u n).Nodup

/-! ## Going up the line -/

@[simp] theorem ancestor?_zero (r : Registry) (u : ClassUnit) : r.ancestor? u 0 = some u := rfl

theorem ancestor?_succ (r : Registry) (u : ClassUnit) (n : Nat) :
    r.ancestor? u (n + 1) = (r.ancestor? u n).bind r.parent? := rfl

/-- The ancestors of an ancestor are ancestors. -/
theorem ancestor?_add {n : Nat} (h : r.ancestor? u n = some v) (k : Nat) :
    r.ancestor? u (n + k) = r.ancestor? v k := by
  induction k with
  | zero => exact h
  | succ k ih => rw [← Nat.add_assoc, ancestor?_succ, ih, ancestor?_succ]

/-- A line that goes up to some level goes up to every level below. -/
theorem exists_ancestor?_of_le {m n : Nat} (hmn : m ≤ n) (h : r.ancestor? u n = some v) :
    ∃ w, r.ancestor? u m = some w := by
  induction n generalizing v with
  | zero =>
    have hm : m = 0 := by omega
    exact ⟨v, hm ▸ h⟩
  | succ n ih =>
    by_cases hm : m = n + 1
    · exact ⟨v, hm ▸ h⟩
    · rw [ancestor?_succ] at h
      obtain ⟨w, hw, _⟩ := Option.bind_eq_some_iff.mp h
      exact ih (by omega) hw

theorem mem_of_ancestor? {n : Nat} (hu : u ∈ r.toList) (h : r.ancestor? u n = some v) :
    v ∈ r.toList := by
  cases n with
  | zero =>
    rw [ancestor?_zero, Option.some.injEq] at h
    exact h ▸ hu
  | succ n =>
    obtain ⟨_, _, hp⟩ := Option.bind_eq_some_iff.mp h
    exact mem_of_parent? hp

/-- A line that has come back to a class goes round for ever. -/
theorem Loops.exists_ancestor? (h : r.Loops u) (n : Nat) : ∃ v, r.ancestor? u n = some v := by
  obtain ⟨i, j, v, hij, hi, hj⟩ := h
  induction n using Nat.strongRecOn with
  | ind n ih =>
    by_cases hn : n ≤ j
    · exact exists_ancestor?_of_le hn hj
    · -- One round lower the line stands at the same class.
      have hround : r.ancestor? u n = r.ancestor? u (i + (n - j)) := by
        rw [ancestor?_add hi, ← ancestor?_add hj]
        congr 1
        omega
      obtain ⟨w, hw⟩ := ih (i + (n - j)) (by omega)
      exact ⟨w, hround.trans hw⟩

theorem EndsAt.ancestor?_succ_eq_none {d : Nat} (h : r.EndsAt u d) :
    r.ancestor? u (d + 1) = none := by
  obtain ⟨v, hv, hnone⟩ := h
  rw [ancestor?_succ, hv, Option.bind_some, hnone]

/-- A line that ends does not come back to a class. -/
theorem EndsAt.not_loops {d : Nat} (h : r.EndsAt u d) : ¬ r.Loops u := by
  intro hloops
  obtain ⟨v, hv⟩ := hloops.exists_ancestor? (d + 1)
  rw [h.ancestor?_succ_eq_none] at hv
  cases hv

/-- A line ends at one level only. -/
theorem EndsAt.unique {d e : Nat} (hd : r.EndsAt u d) (he : r.EndsAt u e) : d = e := by
  have hle : ∀ {d e : Nat}, r.EndsAt u d → r.EndsAt u e → e ≤ d := by
    intro d e hd he
    apply Nat.le_of_not_lt
    intro hlt
    obtain ⟨v, hv, _⟩ := he
    obtain ⟨w, hw⟩ := exists_ancestor?_of_le (m := d + 1) (by omega) hv
    rw [hd.ancestor?_succ_eq_none] at hw
    cases hw
  exact Nat.le_antisymm (hle he hd) (hle hd he)

theorem endsAt_zero_iff : r.EndsAt u 0 ↔ r.parent? u = none := by
  constructor
  · rintro ⟨v, hv, hnone⟩
    cases hv
    exact hnone
  · intro h
    exact ⟨u, rfl, h⟩

/-- The line of a class ends one level higher above it than above its parent. -/
theorem endsAt_succ_iff (hp : r.parent? u = some v) {d : Nat} :
    r.EndsAt u (d + 1) ↔ r.EndsAt v d := by
  have hone : r.ancestor? u 1 = some v := hp
  rw [EndsAt, EndsAt, Nat.add_comm, ancestor?_add hone]

/-! ## The classes on a line -/

theorem mem_line {n : Nat} : v ∈ r.line u n ↔ ∃ i < n, r.ancestor? u i = some v := by
  simp [line]

theorem line_succ {n : Nat} (h : r.ancestor? u n = some v) :
    r.line u (n + 1) = r.line u n ++ [v] := by
  simp [line, List.range_succ, h]

theorem length_line {n : Nat} (h : r.ancestor? u n = some v) : (r.line u n).length = n := by
  induction n generalizing v with
  | zero => rfl
  | succ n ih =>
    obtain ⟨w, hw⟩ := exists_ancestor?_of_le (m := n) (by omega) h
    rw [line_succ hw, List.length_append, ih hw, List.length_singleton]

/-- The classes on a line stand in the order of their levels. -/
theorem ancestor?_of_getElem?_line {n i : Nat} (h : (r.line u n)[i]? = some v) :
    r.ancestor? u i = some v := by
  induction n with
  | zero => cases h
  | succ n ih =>
    cases hn : r.ancestor? u n with
    | none =>
      have hline : r.line u (n + 1) = r.line u n := by simp [line, List.range_succ, hn]
      exact ih (hline ▸ h)
    | some w =>
      rw [line_succ hn, List.getElem?_append] at h
      split at h
      · exact ih h
      · next hi =>
        -- Behind the first `n` classes stands only the one at level `n`.
        rw [length_line hn] at h hi
        obtain ⟨hlt, rfl⟩ := List.getElem?_eq_some_iff.mp h
        rw [List.length_singleton] at hlt
        have hin : i = n := by omega
        simpa [hin] using hn

/-- No more different classes stand on a line than there are classes. -/
theorem length_line_le {n : Nat} (hu : u ∈ r.toList) (hnodup : (r.line u n).Nodup) :
    (r.line u n).length ≤ r.size := by
  -- Pigeonhole: everything on the line is in the registry.
  rw [← length_toList]
  apply hnodup.length_le_of_subset
  intro v hv
  obtain ⟨i, _, hi⟩ := mem_line.mp hv
  exact mem_of_ancestor? hu hi

theorem ReturnsAt.loops {n : Nat} (h : r.ReturnsAt u n v) : r.Loops u := by
  obtain ⟨i, hi, hv⟩ := mem_line.mp h.met
  exact ⟨i, n, v, hi, hv, h.here⟩

end Registry

/-! ## The walk along a line -/

open Registry

variable {r : Registry} {origin u p : ClassUnit} {visited : List Nat} {chain : List String}
  {depth : Nat}

/-- What holds while the line of `origin` is walked and the walk has come to `u`: no class has been
met twice, `visited` are the positions of the classes met so far and `chain` are their names. -/
structure Climbing (r : Registry) (origin : ClassUnit) (visited : List Nat) (chain : List String)
    (u : ClassUnit) (depth : Nat) : Prop where
  here : r.ancestor? origin depth = some u
  distinct : (r.line origin (depth + 1)).Nodup
  visited_iff : ∀ p ∈ r.toList, p.id ∈ visited ↔ p ∈ r.line origin (depth + 1)
  chain_eq : chain = (r.line origin (depth + 1)).map ClassUnit.name

theorem climbing_self (hr : r.Consistent) (hu : u ∈ r.toList) :
    Climbing r u [u.id] [u.name] u 0 where
  here := rfl
  distinct := by simp [line]
  visited_iff := by
    intro p hp
    simp only [line, List.range_succ, List.range_zero, List.nil_append, List.filterMap_cons,
      List.filterMap_nil, ancestor?_zero, List.mem_singleton]
    constructor
    · exact hr.eq_of_id_eq hp hu
    · intro h
      rw [h]
  chain_eq := by simp [line]

/-- A step to a class that has not been met keeps the invariant. -/
theorem Climbing.step (hr : r.Consistent) (h : Climbing r origin visited chain u depth)
    (hp : r.parent? u = some p) (hnew : p.id ∉ visited) :
    Climbing r origin (p.id :: visited) (chain ++ [p.name]) p (depth + 1) := by
  have hmem : p ∈ r.toList := mem_of_parent? hp
  have hhere : r.ancestor? origin (depth + 1) = some p := by
    rw [ancestor?_succ, h.here, Option.bind_some, hp]
  have hline := line_succ hhere
  -- What is not among the visited positions does not stand on the line so far.
  have hnotmet : p ∉ r.line origin (depth + 1) := fun hmet => hnew ((h.visited_iff p hmem).mpr hmet)
  refine ⟨hhere, ?_, ?_, ?_⟩
  · rw [hline, List.nodup_append]
    refine ⟨h.distinct, List.pairwise_singleton _ p, ?_⟩
    intro v hv w hw
    rw [List.mem_singleton.mp hw]
    intro heq
    exact hnotmet (heq ▸ hv)
  · intro q hq
    rw [hline, List.mem_cons, List.mem_append, List.mem_singleton, h.visited_iff q hq]
    -- A position determines the class, so the new position stands for `p` alone.
    constructor
    · rintro (hid | hmet)
      · exact Or.inr (hr.eq_of_id_eq hq hmem hid)
      · exact Or.inl hmet
    · rintro (hmet | rfl)
      · exact Or.inr hmet
      · exact Or.inl rfl
  · rw [hline, h.chain_eq, List.map_append, List.map_singleton]

/-- A walk finds the end of the line, or else the first class that stands on it twice. -/
theorem Climbing.outcome (hr : r.Consistent) (h : Climbing r origin visited chain u depth) :
    (∃ d, climb r visited chain u depth = .ok d ∧ r.EndsAt origin d ∧
      (r.line origin (d + 1)).Nodup) ∨
    ∃ n again, climb r visited chain u depth =
      .error ⟨(r.line origin n ++ [again]).map ClassUnit.name⟩ ∧ r.ReturnsAt origin n again := by
  fun_induction climb r visited chain u depth with
  | case1 visited chain u depth hnone =>
    -- No parent: the line ends here.
    exact Or.inl ⟨depth, rfl, ⟨u, h.here, hnone⟩, h.distinct⟩
  | case2 visited chain u depth p hp hmet =>
    -- The parent has been met: it is the first class that stands on the line twice.
    have hhere : r.ancestor? origin (depth + 1) = some p := by
      rw [ancestor?_succ, h.here, Option.bind_some, hp]
    have hmem : p ∈ r.line origin (depth + 1) :=
      (h.visited_iff p (mem_of_parent? hp)).mp (by simpa using hmet)
    refine Or.inr ⟨depth + 1, p, ?_, hhere, hmem, h.distinct⟩
    rw [h.chain_eq, List.map_append, List.map_singleton]
  | case3 visited chain u depth p hp hnew ih =>
    -- The parent is new: the walk goes on there.
    exact ih (h.step hr hp (by simpa using hnew))

/-! ## The depth of inheritance -/

theorem depthOfInheritance_outcome (hr : r.Consistent) (hu : u ∈ r.toList) :
    (∃ d, depthOfInheritance r u = .ok d ∧ r.EndsAt u d ∧ (r.line u (d + 1)).Nodup) ∨
    ∃ n again, depthOfInheritance r u =
      .error ⟨(r.line u n ++ [again]).map ClassUnit.name⟩ ∧ r.ReturnsAt u n again :=
  (climbing_self hr hu).outcome hr

/-- The depth of a class is the level at which its line ends. -/
theorem depthOfInheritance_eq_ok_iff (hr : r.Consistent) (hu : u ∈ r.toList) {d : Nat} :
    depthOfInheritance r u = .ok d ↔ r.EndsAt u d := by
  rcases depthOfInheritance_outcome hr hu with ⟨e, he, hends, _⟩ | ⟨n, again, herror, hreturns⟩
  · rw [he, Except.ok.injEq]
    constructor
    · intro h
      exact h ▸ hends
    · intro h
      exact hends.unique h
  · rw [herror]
    constructor
    · intro h
      cases h
    · intro h
      exact absurd hreturns.loops h.not_loops

/-- The walk fails exactly if the line comes back to a class. -/
theorem depthOfInheritance_error_iff (hr : r.Consistent) (hu : u ∈ r.toList) :
    (∃ e, depthOfInheritance r u = .error e) ↔ r.Loops u := by
  rcases depthOfInheritance_outcome hr hu with ⟨d, hd, hends, _⟩ | ⟨n, again, herror, hreturns⟩
  · rw [hd]
    constructor
    · rintro ⟨e, he⟩
      cases he
    · intro h
      exact absurd h hends.not_loops
  · exact ⟨fun _ => hreturns.loops, fun _ => ⟨_, herror⟩⟩

/-- The walk succeeds exactly if the line does not come back to a class. -/
theorem exists_depthOfInheritance_iff (hr : r.Consistent) (hu : u ∈ r.toList) :
    (∃ d, depthOfInheritance r u = .ok d) ↔ ¬ r.Loops u := by
  rw [← depthOfInheritance_error_iff hr hu]
  cases depthOfInheritance r u with
  | error e => simp
  | ok d => simp

/-- The end of a line is fewer levels up than there are classes. -/
theorem Registry.EndsAt.lt_size (hr : r.Consistent) (hu : u ∈ r.toList) {d : Nat}
    (h : r.EndsAt u d) : d < r.size := by
  rcases depthOfInheritance_outcome hr hu with ⟨e, _, hends, hnodup⟩ | ⟨n, again, _, hreturns⟩
  · have hde : d = e := h.unique hends
    obtain ⟨v, hv, _⟩ := hends
    have hlength : (r.line u (e + 1)).length = e + 1 := by
      rw [line_succ hv, List.length_append, length_line hv, List.length_singleton]
    have hle := length_line_le hu hnodup
    omega
  · exact absurd hreturns.loops h.not_loops

/-- The error of a walk shows the line up to the first class that stands on it twice. -/
theorem depthOfInheritance_error (hr : r.Consistent) (hu : u ∈ r.toList) {e : CyclicInheritance}
    (h : depthOfInheritance r u = .error e) :
    ∃ n again, r.ReturnsAt u n again ∧
      e.chain = (r.line u n ++ [again]).map ClassUnit.name ∧ n ≤ r.size := by
  rcases depthOfInheritance_outcome hr hu with ⟨d, hd, _, _⟩ | ⟨n, again, herror, hreturns⟩
  · rw [hd] at h
    cases h
  · rw [herror, Except.error.injEq] at h
    refine ⟨n, again, hreturns, by rw [← h], ?_⟩
    rw [← length_line hreturns.here]
    exact length_line_le hu hreturns.distinct

/-- The walk from any class of any files comes to a result. It answers with the level at which the
line of ancestors ends, which is less than the number of classes, and it fails if and only if the
line comes back to a class. The error then names the classes of the line from the first one up to
the first that has been met before: those in front of it are all different, it is one of them, and
there are at most as many as there are classes. -/
theorem depthOfInheritance_of_build (files : List SourceFile) (u : ClassUnit)
    (hu : u ∈ (build files).toList) :
    (∀ d, depthOfInheritance (build files) u = .ok d ↔ (build files).EndsAt u d) ∧
    (∀ d, depthOfInheritance (build files) u = .ok d → d < (build files).size) ∧
    ((∃ e, depthOfInheritance (build files) u = .error e) ↔ (build files).Loops u) ∧
    ∀ e, depthOfInheritance (build files) u = .error e →
      ∃ met again, e.chain = (met ++ [again]).map ClassUnit.name ∧
        (∀ i v, (met ++ [again])[i]? = some v → (build files).ancestor? u i = some v) ∧
        met.Nodup ∧ again ∈ met ∧ e.chain.length ≤ (build files).size + 1 := by
  have hr := consistent_build files
  refine ⟨fun d => depthOfInheritance_eq_ok_iff hr hu, ?_, depthOfInheritance_error_iff hr hu, ?_⟩
  · intro d hd
    exact ((depthOfInheritance_eq_ok_iff hr hu).mp hd).lt_size hr hu
  · intro e he
    obtain ⟨n, again, hreturns, hchain, hle⟩ := depthOfInheritance_error hr hu he
    refine ⟨(build files).line u n, again, hchain, ?_, hreturns.distinct, hreturns.met, ?_⟩
    · rw [← line_succ hreturns.here]
      exact fun i v => ancestor?_of_getElem?_line
    · -- The chain has one class more than the line on which no class stands twice.
      rw [hchain, List.length_map, List.length_append, List.length_singleton,
        length_line hreturns.here]
      omega

/-- A file in which `A` extends a class that lies on a cycle, but lies on none itself. -/
def tailIntoCycle : SourceFile :=
  emptyClasses "a.ts" [("A", some "B"), ("B", some "C"), ("C", some "B")]

/-- The error for a class in front of a cycle names the way to the cycle and once round it. -/
theorem depthOfInheritance_of_tailIntoCycle :
    ∃ u ∈ (build [tailIntoCycle]).toList,
      depthOfInheritance (build [tailIntoCycle]) u = .error ⟨["A", "B", "C", "B"]⟩ ∧
        (build [tailIntoCycle]).Loops u := by
  obtain ⟨a, b, c, hunits, ha, hb, hc, hids, hnames⟩ : ∃ a b c,
      (build [tailIntoCycle]).toList = [a, b, c] ∧
      (build [tailIntoCycle]).parent? a = some b ∧
      (build [tailIntoCycle]).parent? b = some c ∧
      (build [tailIntoCycle]).parent? c = some b ∧
      (a.id = 0 ∧ b.id = 1 ∧ c.id = 2) ∧ a.name = "A" ∧ b.name = "B" ∧ c.name = "C" :=
    ⟨_, _, _, rfl, rfl, rfl, rfl, ⟨rfl, rfl, rfl⟩, rfl, rfl, rfl⟩
  have hmem : a ∈ (build [tailIntoCycle]).toList := by simp [hunits]
  -- From `A` up to `C` every class is new, and the base of `C` is not.
  have herror : depthOfInheritance (build [tailIntoCycle]) a = .error ⟨["A", "B", "C", "B"]⟩ := by
    rw [depthOfInheritance, climb_of_notMem ha, climb_of_notMem hb, climb_of_mem hc] <;>
      simp [hids, hnames]
  exact ⟨a, hmem, herror, (depthOfInheritance_of_build _ a hmem).2.2.1.mp ⟨_, herror⟩⟩

end ClassGauge
