import Mathlib.Data.List.Perm.Subperm

/-! # Sorted lists and lists without repetitions

Lists are sorted by `List.mergeSort` and lose their repetitions in `List.eraseDups`.

* `nodup_eraseDups`, `length_eraseDups_le`: what is left has no repetitions, and is no longer;
* `pairwise_mergeSort_stable`: members that the order puts level stay as they were;
* `pairwise_lt_mergeSort`: sorted by keys that are all different, the keys ascend strictly;
* `mergeSort_eq_of_perm`: so the sorted list is known from its members.
-/

namespace ClassGauge

variable {α : Type}

section Repetitions

variable [BEq α] [LawfulBEq α]

/-- Behind the first of its kind a member is filtered out. -/
theorem nodup_eraseDups (xs : List α) : xs.eraseDups.Nodup := by
  -- Each step takes one member off and filters, so the induction is on the length.
  induction hn : xs.length using Nat.strongRecOn generalizing xs with
  | ind n ih =>
    cases xs with
    | nil => exact List.nodup_nil
    | cons x xs =>
      have hshorter : (xs.filter fun y => !y == x).length < n := by
        rw [← hn]
        exact Nat.lt_succ_of_le (List.length_filter_le _ _)
      have hx : x ∉ (xs.filter fun y => !y == x).eraseDups := by
        intro hmem
        simpa using List.of_mem_filter (List.mem_eraseDups.mp hmem)
      rw [List.eraseDups_cons]
      exact List.nodup_cons.mpr ⟨hx, ih _ hshorter _ rfl⟩

theorem length_eraseDups_le (xs : List α) : xs.eraseDups.length ≤ xs.length :=
  (List.Nodup.subperm (nodup_eraseDups xs) fun _ => List.mem_eraseDups.mp).length_le

end Repetitions

/-- If the order puts two members level, then they stand as they stood before. -/
theorem pairwise_mergeSort_stable {le : α → α → Bool} {R : α → α → Prop} {xs : List α}
    (htrans : ∀ a b c, le a b → le b c → le a c) (htotal : ∀ a b, le a b || le b a)
    (h : xs.Pairwise R) : (xs.mergeSort le).Pairwise fun x y => le y x = true → R x y := by
  -- The sort is one of members with their positions, in which positions decide between level members.
  rw [← List.mergeSort_zipIdx, List.pairwise_map]
  have hsorted := List.pairwise_mergeSort (List.zipIdxLE_trans htrans) (List.zipIdxLE_total htotal)
    xs.zipIdx
  have hpositions : (xs.zipIdx.map Prod.snd).Nodup := by
    rw [List.zipIdx_map_snd]
    exact List.nodup_range'
  have hdistinct : (xs.zipIdx.mergeSort (List.zipIdxLE le)).Pairwise fun a b => a.2 ≠ b.2 :=
    List.pairwise_map.mp (((List.mergeSort_perm _ _).map Prod.snd).nodup_iff.mpr hpositions)
  refine (hsorted.and hdistinct).imp_of_mem ?_
  rintro ⟨x, i⟩ ⟨y, j⟩ hx hy ⟨hle, hne⟩ hyx
  have hi : xs[i]? = some x := List.mk_mem_zipIdx_iff_getElem?.mp (List.mem_mergeSort.mp hx)
  have hj : xs[j]? = some y := List.mk_mem_zipIdx_iff_getElem?.mp (List.mem_mergeSort.mp hy)
  rcases List.getElem?_eq_some_iff.mp hi with ⟨hi, rfl⟩
  rcases List.getElem?_eq_some_iff.mp hj with ⟨hj, rfl⟩
  have hij : le xs[i] xs[j] = true ∧ i ≤ j := by simpa [List.zipIdxLE, hyx] using hle
  exact List.pairwise_iff_getElem.mp h i j _ _ (Nat.lt_of_le_of_ne hij.2 hne)

/-- Members with different keys, sorted by their keys, stand in strictly ascending order of the
keys. -/
theorem pairwise_lt_mergeSort (key : α → String) {xs : List α} (h : (xs.map key).Nodup) :
    (xs.mergeSort fun a b => key a ≤ key b).Pairwise (key · < key ·) := by
  have hsorted : (xs.mergeSort fun a b => key a ≤ key b).Pairwise
      fun a b => decide (key a ≤ key b) = true := by
    apply List.pairwise_mergeSort
    · intro a b c hab hbc
      simp only [decide_eq_true_eq] at hab hbc ⊢
      exact String.le_trans hab hbc
    · intro a b
      simpa using String.le_total (key a) (key b)
  have hdistinct : (xs.mergeSort fun a b => key a ≤ key b).Pairwise fun a b => key a ≠ key b :=
    List.pairwise_map.mp (((List.mergeSort_perm xs _).map key).nodup_iff.mpr h)
  refine (hsorted.and hdistinct).imp ?_
  rintro a b ⟨hle, hne⟩
  rw [decide_eq_true_eq] at hle
  apply Decidable.byContradiction
  intro hlt
  exact hne (String.le_antisymm hle (String.not_lt.mp hlt))

/-- Sorted by keys, a list becomes the one with the same members whose keys ascend strictly. -/
theorem mergeSort_eq_of_perm (key : α → String) {xs ys : List α} (h : xs.Perm ys)
    (hys : ys.Pairwise (key · < key ·)) : (xs.mergeSort fun a b => key a ≤ key b) = ys := by
  have hkeys : (xs.map key).Nodup := by
    refine (h.map key).nodup_iff.mpr (List.pairwise_map.mpr (hys.imp ?_))
    intro a b hab heq
    exact String.lt_irrefl (key a) (heq ▸ hab)
  refine ((List.mergeSort_perm xs _).trans h).eq_of_pairwise ?_ (pairwise_lt_mergeSort key hkeys) hys
  intro a b _ _ hab hba
  exact absurd hba (String.lt_asymm hab)

end ClassGauge
