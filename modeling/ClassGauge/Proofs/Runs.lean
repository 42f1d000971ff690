import Mathlib.Data.List.Forall2

/-! # Lists in step and runs along a list

Some operations take a list step by step and give one result for each member, or stop at the first
that fails. Then the list and the results are in step (`List.Forall₂`).

* `rel_find?`, `findSome?_of_forall₂`, `countP_of_forall₂`: searching and counting in lists in step;
* `map_of_forall₂`, `filterMap_of_forall₂`, `any_of_forall₂`: what is read off lists in step;
* `forall₂_of_common`, `forall₂_take_of_append`: lists that are in step with parts of others;
* `whereFirst`: the part of a list that is in step with the part of another that passes a test;
* `mapM_eq_ok_iff`, `mapM_eq_error_iff`: when a run along a list succeeds, and how it fails.
-/

namespace ClassGauge

/-! ## Lists in step -/

section Step

variable {α β : Type} {R : α → β → Prop} {xs : List α} {ys : List β}

/-- Of two lists in step, each member of the first has a partner in the second. -/
theorem mem_of_forall₂ (h : List.Forall₂ R xs ys) {x : α} (hx : x ∈ xs) : ∃ y ∈ ys, R x y := by
  induction h with
  | nil => cases hx
  | @cons a b as bs hab _ ih =>
    rcases List.mem_cons.mp hx with rfl | hx
    · exact ⟨b, List.mem_cons_self, hab⟩
    · obtain ⟨y, hy, hxy⟩ := ih hx
      exact ⟨y, List.mem_cons_of_mem _ hy, hxy⟩

/-- A search in lists in step comes to a halt at the same place in both. -/
theorem rel_find? (h : List.Forall₂ R xs ys) {p : α → Bool} {q : β → Bool} {Q : α → β → Prop}
    (hpq : ∀ x y, R x y → p x = q y) (hQ : ∀ x y, R x y → p x = true → Q x y) :
    Option.Rel Q (xs.find? p) (ys.find? q) := by
  induction h with
  | nil => exact .none
  | @cons a b as bs hab _ ih =>
    by_cases ha : p a = true
    · rw [List.find?_cons_of_pos ha, List.find?_cons_of_pos (hpq a b hab ▸ ha)]
      exact .some (hQ a b hab ha)
    · rw [List.find?_cons_of_neg ha, List.find?_cons_of_neg (hpq a b hab ▸ ha)]
      exact ih

theorem find?_of_forall₂ (h : List.Forall₂ R xs ys) {p : α → Bool} {q : β → Bool}
    (hpq : ∀ x y, R x y → p x = q y) {x : α} (hx : xs.find? p = some x) :
    ∃ y, ys.find? q = some y ∧ R x y := by
  have hfound := rel_find? h hpq fun _ _ hxy _ => hxy
  rw [hx] at hfound
  generalize ys.find? q = found at hfound
  cases hfound with
  | some hxy => exact ⟨_, rfl, hxy⟩

/-- A search for the first result finds the same in lists whose partners have the same results. -/
theorem findSome?_of_forall₂ {γ : Type} (h : List.Forall₂ R xs ys) {f : α → Option γ}
    {g : β → Option γ} (hfg : ∀ x y, R x y → f x = g y) : xs.findSome? f = ys.findSome? g := by
  induction h with
  | nil => rfl
  | @cons a b as bs hab _ ih => rw [List.findSome?_cons, List.findSome?_cons, hfg a b hab, ih]

theorem map_of_forall₂ {γ : Type} (h : List.Forall₂ R xs ys) {f : α → γ} {g : β → γ}
    (hfg : ∀ x y, R x y → f x = g y) : xs.map f = ys.map g := by
  induction h with
  | nil => rfl
  | @cons a b as bs hab _ ih => rw [List.map_cons, List.map_cons, hfg a b hab, ih]

theorem filterMap_of_forall₂ {γ : Type} (h : List.Forall₂ R xs ys) {f : α → Option γ}
    {g : β → Option γ} (hfg : ∀ x y, R x y → f x = g y) : xs.filterMap f = ys.filterMap g := by
  induction h with
  | nil => rfl
  | @cons a b as bs hab _ ih => rw [List.filterMap_cons, List.filterMap_cons, hfg a b hab, ih]

theorem any_of_forall₂ (h : List.Forall₂ R xs ys) {p : α → Bool} {q : β → Bool}
    (hpq : ∀ x y, R x y → p x = q y) : xs.any p = ys.any q := by
  induction h with
  | nil => rfl
  | @cons a b as bs hab _ ih => rw [List.any_cons, List.any_cons, hpq a b hab, ih]

/-- What is read off two results is the same if it is the same for related ones. -/
theorem map_of_rel {γ : Type} {x : Option α} {y : Option β} {f : α → γ} {g : β → γ}
    (h : Option.Rel (fun a b => f a = g b) x y) : x.map f = y.map g := by
  cases h with
  | some hab => exact congrArg some hab
  | none => rfl

theorem findSome?_congr {f g : α → Option β} (h : ∀ x ∈ xs, f x = g x) :
    xs.findSome? f = xs.findSome? g := by
  have hsame : List.Forall₂ (fun x y => f x = g y) xs xs := List.forall₂_same.mpr h
  exact findSome?_of_forall₂ hsame fun _ _ hxy => hxy

/-- Lists in step stay so if the relation is weakened between their members. -/
theorem forall₂_imp_of_mem {Q : α → β → Prop} (hRQ : ∀ x ∈ xs, ∀ y, R x y → Q x y)
    (h : List.Forall₂ R xs ys) : List.Forall₂ Q xs ys := by
  have hmem : List.Forall₂ (fun x y => x ∈ xs ∧ R x y) xs ys :=
    (List.forall₂_and_left (p := (· ∈ xs)) xs ys).mpr ⟨fun _ hx => hx, h⟩
  refine hmem.imp ?_
  rintro x y ⟨hx, hxy⟩
  exact hRQ x hx y hxy

theorem countP_of_forall₂ (h : List.Forall₂ R xs ys) {p : α → Bool} {q : β → Bool}
    (hpq : ∀ x ∈ xs, ∀ y, R x y → p x = q y) : xs.countP p = ys.countP q := by
  induction h with
  | nil => rfl
  | @cons a b as bs hab _ ih =>
    rw [List.countP_cons, List.countP_cons, hpq a List.mem_cons_self b hab,
      ih fun x hx => hpq x (List.mem_cons_of_mem _ hx)]

theorem forall₂_zipWith {γ : Type} {Q : α → γ → Prop} {f : α → β → γ}
    (hf : ∀ x y, R x y → Q x (f x y)) (h : List.Forall₂ R xs ys) :
    List.Forall₂ Q xs (List.zipWith f xs ys) := by
  induction h with
  | nil => exact .nil
  | cons hxy _ ih => exact .cons (hf _ _ hxy) ih

/-- Two lists that are in step with a third one are in step with one another. -/
theorem forall₂_of_common {γ : Type} {Q : α → γ → Prop} {S : β → γ → Prop} {zs : List γ}
    (hS : ∀ x y z, R x y → Q x z → S y z) (hR : List.Forall₂ R xs ys) (hQ : List.Forall₂ Q xs zs) :
    List.Forall₂ S ys zs := by
  induction hR generalizing zs with
  | nil =>
    cases hQ
    exact .nil
  | cons hxy _ ih =>
    cases hQ with
    | cons hxz hrest => exact .cons (hS _ _ _ hxy hxz) (ih hrest)

/-- The first members of a list in step are in step with the first part of the other. -/
theorem forall₂_take_of_append {xs' : List α} (h : List.Forall₂ R (xs ++ xs') ys) :
    List.Forall₂ R xs (ys.take xs.length) := by
  have hflip : List.Forall₂ (flip R) ys (xs ++ xs') := List.Forall₂.flip h
  exact List.Forall₂.flip (List.forall₂_take_append ys xs xs' hflip)

/-- The members of a list that are in step with the members of another that pass a test. -/
def whereFirst (p : α → Bool) (xs : List α) (ys : List β) : List β :=
  ((xs.zip ys).filter (p ·.1)).map Prod.snd

/-- What passes a test in one list is in step with its partners in the other. -/
theorem forall₂_whereFirst (h : List.Forall₂ R xs ys) (p : α → Bool) :
    List.Forall₂ R (xs.filter p) (whereFirst p xs ys) := by
  induction h with
  | nil => exact .nil
  | @cons a b as bs hab _ ih =>
    -- A pair stays or goes with its first member.
    cases hp : p a with
    | true =>
      have hpartners : whereFirst p (a :: as) (b :: bs) = b :: whereFirst p as bs := by
        simp [whereFirst, hp]
      rw [hpartners, List.filter_cons_of_pos hp]
      exact .cons hab ih
    | false =>
      have hpartners : whereFirst p (a :: as) (b :: bs) = whereFirst p as bs := by
        simp [whereFirst, hp]
      rw [hpartners, List.filter_cons_of_neg (by simp [hp])]
      exact ih

/-- The partners keep their order, and none of them is taken twice. -/
theorem whereFirst_sublist (h : List.Forall₂ R xs ys) (p : α → Bool) :
    (whereFirst p xs ys).Sublist ys := by
  have hsnd : (xs.zip ys).map Prod.snd = ys := List.map_snd_zip (Nat.le_of_eq h.length_eq.symm)
  have hsublist : (whereFirst p xs ys).Sublist ((xs.zip ys).map Prod.snd) :=
    List.filter_sublist.map Prod.snd
  rwa [hsnd] at hsublist

end Step

/-! ## Runs along a list -/

section Runs

variable {ε α β : Type}

theorem map_eq_ok_iff {f : α → β} {x : Except ε α} {y : β} :
    x.map f = .ok y ↔ ∃ a, x = .ok a ∧ y = f a := by
  cases x <;> simp [Except.map, eq_comm]

theorem map_eq_error_iff {f : α → β} {x : Except ε α} {e : ε} :
    x.map f = .error e ↔ x = .error e := by
  cases x <;> simp [Except.map]

theorem mapError_eq_ok_iff {δ : Type} {f : ε → δ} {x : Except ε α} {a : α} :
    x.mapError f = .ok a ↔ x = .ok a := by
  cases x <;> simp [Except.mapError]

theorem mapError_eq_error_iff {δ : Type} {f : ε → δ} {x : Except ε α} {d : δ} :
    x.mapError f = .error d ↔ ∃ e, x = .error e ∧ d = f e := by
  cases x <;> simp [Except.mapError, eq_comm]

variable {f : α → Except ε β} {xs : List α}

theorem mapM_cons_eq_ok_iff {x : α} {ys : List β} :
    (x :: xs).mapM f = .ok ys ↔ ∃ y zs, f x = .ok y ∧ xs.mapM f = .ok zs ∧ ys = y :: zs := by
  rw [List.mapM_cons]
  cases hx : f x <;> cases hxs : xs.mapM f <;>
    simp [bind, Except.bind, pure, Except.pure, eq_comm]

theorem mapM_cons_eq_error_iff {x : α} {e : ε} :
    (x :: xs).mapM f = .error e ↔
      f x = .error e ∨ (∃ y, f x = .ok y) ∧ xs.mapM f = .error e := by
  rw [List.mapM_cons]
  cases hx : f x <;> cases hxs : xs.mapM f <;> simp [bind, Except.bind, pure, Except.pure]

/-- A run along a list succeeds if it succeeds at every member. -/
theorem mapM_eq_ok_iff {ys : List β} :
    xs.mapM f = .ok ys ↔ List.Forall₂ (fun x y => f x = .ok y) xs ys := by
  induction xs generalizing ys with
  | nil =>
    rw [List.forall₂_nil_left_iff, List.mapM_nil]
    constructor
    · intro h
      cases h
      rfl
    · rintro rfl
      rfl
  | cons x xs ih =>
    rw [mapM_cons_eq_ok_iff, List.forall₂_cons_left_iff]
    simp only [ih]

/-- A run along a list fails as it fails at the first member at which it does. -/
theorem mapM_eq_error_iff {e : ε} :
    xs.mapM f = .error e ↔ ∃ before x after, xs = before ++ x :: after ∧
      (∀ y ∈ before, ∃ b, f y = .ok b) ∧ f x = .error e := by
  induction xs with
  | nil =>
    constructor
    · intro h
      cases h
    · rintro ⟨before, x, after, hsplit, _, _⟩
      cases before <;> cases hsplit
  | cons x xs ih =>
    rw [mapM_cons_eq_error_iff, ih]
    constructor
    · -- The first failure is at the head or in the tail behind a success.
      rintro (hx | ⟨hx, before, z, after, rfl, hbefore, hz⟩)
      · exact ⟨[], x, xs, rfl, by simp, hx⟩
      · refine ⟨x :: before, z, after, rfl, ?_, hz⟩
        intro y hy
        rcases List.mem_cons.mp hy with rfl | hy
        · exact hx
        · exact hbefore y hy
    · rintro ⟨before, z, after, hsplit, hbefore, hz⟩
      cases before with
      | nil =>
        cases hsplit
        exact Or.inl hz
      | cons y before =>
        cases hsplit
        exact Or.inr ⟨hbefore x List.mem_cons_self, before, z, after, rfl,
          fun y hy => hbefore y (List.mem_cons_of_mem _ hy), hz⟩

/-- What is done to all results can be done to each as it comes. -/
theorem map_map_mapM {γ : Type} (g : β → γ) (xs : List α) :
    (xs.mapM f).map (List.map g) = xs.mapM fun x => (f x).map g := by
  induction xs with
  | nil => rfl
  | cons x xs ih =>
    rw [List.mapM_cons, List.mapM_cons, ← ih]
    cases f x with
    | error e => rfl
    | ok y =>
      cases xs.mapM f with
      | error e => rfl
      | ok ys => rfl

end Runs

end ClassGauge
