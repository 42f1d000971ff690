import ClassGauge.Disk.Entry
import ClassGauge.Proofs.Sorting

/-! # Proper directory trees

In a proper directory tree no directory holds two entries of one name. Then a place is the place of
one file at most, and a walk that takes the entries of each directory in the order of their names
meets the files in the order of their places, compared name by name.

* `Entry.Proper`: trees in which names are unique, directory by directory;
* `mem_filePlaces`, `mem_directoryPlaces`: which files and directories a walk meets;
* `pairwise_filePlaces`: in which order it meets them.
-/

namespace ClassGauge

/-- In every directory of the tree the names are different. -/
inductive Entry.Proper : Entry → Prop where
  | file (c : Content) : Proper (.file c)
  | directory {es : List (String × Entry)} (names : (es.map Prod.fst).Nodup)
      (entries : ∀ x ∈ es, Proper x.2) : Proper (.directory es)

/-- If names are different, looking up a name finds whatever stands under it. -/
theorem lookup_eq_some_iff_mem {es : List (String × Entry)} (h : (es.map Prod.fst).Nodup)
    {name : String} {e : Entry} : es.lookup name = some e ↔ (name, e) ∈ es := by
  induction es with
  | nil => simp
  | cons x es ih =>
    obtain ⟨n, y⟩ := x
    rw [List.map_cons, List.nodup_cons] at h
    rw [List.lookup_cons, List.mem_cons]
    by_cases hname : name = n
    · subst hname
      -- No other entry has the name, so the first is the only one.
      have hnot : (name, e) ∉ es := fun hmem => h.1 (List.mem_map.mpr ⟨_, hmem, rfl⟩)
      simp [hnot, eq_comm]
    · have hbeq : (name == n) = false := by simpa using hname
      simp [hbeq, hname, ih h.2]

namespace Entry

variable {e x : Entry} {p : Place} {name : String}

@[simp] theorem at?_nil (e : Entry) : e.at? [] = some e := rfl

@[simp] theorem at?_cons (e : Entry) (name : String) (p : Place) :
    e.at? (name :: p) = (e.child? name).bind (·.at? p) := rfl

/-- A place can be looked up in two parts. -/
theorem at?_append (e : Entry) (p q : Place) : e.at? (p ++ q) = (e.at? p).bind (·.at? q) := by
  induction p generalizing e with
  | nil => rfl
  | cons name p ih =>
    rw [List.cons_append, at?_cons, at?_cons]
    cases e.child? name with
    | none => rfl
    | some x => exact ih x

theorem at?_concat (e : Entry) (here : Place) (name : String) :
    e.at? (here ++ [name]) = (e.at? here).bind (·.child? name) := by
  rw [Entry.at?_append]
  cases e.at? here with
  | none => rfl
  | some x =>
    rw [Option.bind_some, Option.bind_some, Entry.at?_cons]
    cases x.child? name <;> rfl

/-- What has something below it is a directory. -/
theorem isDirectory_of_at?_cons (h : e.at? (name :: p) = some x) : e.isDirectory = true := by
  cases e with
  | file c => cases h
  | directory es => rfl

/-- What a proper tree holds is proper. -/
theorem Proper.at? (h : e.Proper) (hx : e.at? p = some x) : x.Proper := by
  induction p generalizing e with
  | nil =>
    cases hx
    exact h
  | cons name p ih =>
    obtain ⟨y, hy, hyx⟩ := Option.bind_eq_some_iff.mp hx
    cases h with
    | file c => cases hy
    | directory names entries =>
      have hmem : (name, y) ∈ _ := (lookup_eq_some_iff_mem names).mp hy
      exact ih (entries _ hmem) hyx

end Entry

/-! ## Walks -/

section Walks

variable {pruned : String → Bool} {es : List (String × Entry)} {e : Entry} {p : Place}

/-- The places of the files below one entry of a directory. -/
def placesUnder (pruned : String → Bool) (x : String × Entry) : List Place :=
  if x.2.isDirectory && pruned x.1 then [] else (x.2.filePlaces pruned).map (x.1 :: ·)

theorem entryPlaces_eq_map (pruned : String → Bool) (es : List (String × Entry)) :
    entryPlaces pruned es = es.map fun x => (x.1, placesUnder pruned x) := by
  induction es with
  | nil => rfl
  | cons x es ih =>
    rw [entryPlaces, ih]
    rfl

theorem mem_placesUnder {x : String × Entry} :
    p ∈ placesUnder pruned x ↔
      ∃ q ∈ x.2.filePlaces pruned, p = x.1 :: q ∧ (x.2.isDirectory && pruned x.1) = false := by
  rw [placesUnder]
  cases hskip : x.2.isDirectory && pruned x.1 with
  | false => simp [eq_comm]
  | true => simp

theorem mem_filePlaces_directory :
    p ∈ (Entry.directory es).filePlaces pruned ↔ ∃ x ∈ es, p ∈ placesUnder pruned x := by
  rw [Entry.filePlaces, List.mem_flatMap]
  simp only [List.mem_mergeSort, entryPlaces_eq_map, List.mem_map]
  constructor
  · rintro ⟨_, ⟨x, hx, rfl⟩, hp⟩
    exact ⟨x, hx, hp⟩
  · rintro ⟨x, hx, hp⟩
    exact ⟨_, ⟨x, hx, rfl⟩, hp⟩

/-- On the way to a file the first name is that of a directory if there are more, and that of the
file if not. -/
theorem forall_mem_dropLast_cons_iff {c : Content} (hc : e.at? p = some (.file c))
    (name : String) :
    (∀ n ∈ (name :: p).dropLast, pruned n = false) ↔
      (e.isDirectory && pruned name) = false ∧ ∀ n ∈ p.dropLast, pruned n = false := by
  cases p with
  | nil =>
    cases hc
    simp [Entry.isDirectory]
  | cons n q =>
    have hdir : e.isDirectory = true := Entry.isDirectory_of_at?_cons hc
    rw [List.dropLast_cons_of_ne_nil (List.cons_ne_nil n q), List.forall_mem_cons, hdir,
      Bool.true_and]

/-- A walk meets the files that do not lie below a pruned directory. -/
theorem mem_filePlaces (h : e.Proper) :
    p ∈ e.filePlaces pruned ↔
      (∃ c, e.at? p = some (.file c)) ∧ ∀ name ∈ p.dropLast, pruned name = false := by
  induction h generalizing p with
  | file c =>
    rw [Entry.filePlaces]
    cases p with
    | nil => simp
    | cons name q => simp [Entry.child?]
  | @directory es names entries ih =>
    have hlookup : ∀ {name x}, es.lookup name = some x ↔ (name, x) ∈ es :=
      lookup_eq_some_iff_mem names
    rw [mem_filePlaces_directory]
    simp only [mem_placesUnder]
    constructor
    · -- From the walk to the tree: the entry that was met is the one that its name finds.
      rintro ⟨⟨name, x⟩, hx, q, hq, rfl, hskip⟩
      obtain ⟨⟨c, hc⟩, hnames⟩ := (ih _ hx).mp hq
      refine ⟨⟨c, ?_⟩, (forall_mem_dropLast_cons_iff hc name).mpr ⟨hskip, hnames⟩⟩
      rw [Entry.at?_cons, Entry.child?, hlookup.mpr hx]
      exact hc
    · rintro ⟨⟨c, hc⟩, hnames⟩
      -- A directory is no file, so there is a first name.
      cases p with
      | nil => cases hc
      | cons name q =>
        obtain ⟨x, hx, hc⟩ := Option.bind_eq_some_iff.mp hc
        obtain ⟨hskip, hnames⟩ := (forall_mem_dropLast_cons_iff hc name).mp hnames
        have hmem : (name, x) ∈ es := hlookup.mp hx
        exact ⟨_, hmem, q, (ih _ hmem).mpr ⟨⟨c, hc⟩, hnames⟩, rfl, hskip⟩

theorem mem_entryDirectoryPlaces :
    p ∈ entryDirectoryPlaces es ↔ ∃ x ∈ es, ∃ q ∈ x.2.directoryPlaces, p = x.1 :: q := by
  induction es with
  | nil => simp [entryDirectoryPlaces]
  | cons x es ih =>
    rw [entryDirectoryPlaces, List.mem_append, ih, List.mem_map]
    simp [eq_comm]

/-- A walk over directories meets all of them. -/
theorem mem_directoryPlaces (h : e.Proper) :
    p ∈ e.directoryPlaces ↔ ∃ es, e.at? p = some (.directory es) := by
  induction h generalizing p with
  | file c => cases p <;> simp [Entry.directoryPlaces, Entry.child?]
  | @directory es names entries ih =>
    have hlookup : ∀ {name x}, es.lookup name = some x ↔ (name, x) ∈ es :=
      lookup_eq_some_iff_mem names
    rw [Entry.directoryPlaces, List.mem_cons, mem_entryDirectoryPlaces]
    cases p with
    -- The directory itself stands at the head of the walk.
    | nil => simp
    | cons name q =>
      rw [Entry.at?_cons, Entry.child?]
      constructor
      · rintro (hnil | ⟨⟨n, x⟩, hx, _, hq, heq⟩)
        · cases hnil
        · cases heq
          rw [hlookup.mpr hx]
          exact (ih _ hx).mp hq
      · rintro ⟨es', hat⟩
        obtain ⟨x, hx, hat⟩ := Option.bind_eq_some_iff.mp hat
        have hmem : (name, x) ∈ es := hlookup.mp hx
        exact Or.inr ⟨_, hmem, q, (ih _ hmem).mpr ⟨es', hat⟩, rfl⟩

/-- A walk meets the files in the order of their places, compared name by name. -/
theorem pairwise_filePlaces (h : e.Proper) : (e.filePlaces pruned).Pairwise (· < ·) := by
  induction h with
  | file c =>
    rw [Entry.filePlaces]
    exact List.pairwise_singleton _ _
  | @directory es names entries ih =>
    rw [Entry.filePlaces, List.pairwise_flatMap]
    constructor
    · -- Within an entry all places begin with its name.
      intro a ha
      rw [List.mem_mergeSort, entryPlaces_eq_map] at ha
      obtain ⟨x, hx, rfl⟩ := List.mem_map.mp ha
      show (placesUnder pruned x).Pairwise (· < ·)
      rw [placesUnder]
      split
      · exact List.Pairwise.nil
      · rw [List.pairwise_map]
        refine (ih x hx).imp ?_
        intro p q hpq
        exact List.cons_lt_cons_iff.mpr (Or.inr ⟨rfl, hpq⟩)
    · -- Of two entries the one with the lesser name comes first.
      have hkeys : ((entryPlaces pruned es).map Prod.fst).Nodup := by
        rw [entryPlaces_eq_map, List.map_map]
        exact names
      refine (pairwise_lt_mergeSort Prod.fst hkeys).imp_of_mem ?_
      intro a b ha hb hab p hp q hq
      rw [List.mem_mergeSort, entryPlaces_eq_map] at ha hb
      obtain ⟨x, _, rfl⟩ := List.mem_map.mp ha
      obtain ⟨y, _, rfl⟩ := List.mem_map.mp hb
      obtain ⟨p, _, rfl, _⟩ := mem_placesUnder.mp hp
      obtain ⟨q, _, rfl, _⟩ := mem_placesUnder.mp hq
      exact List.cons_lt_cons_iff.mpr (Or.inl hab)

end Walks

end ClassGauge
