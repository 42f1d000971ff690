import Mathlib.Data.List.Forall2
import Mathlib.Data.List.Induction
import Mathlib.Data.List.Infix
import ClassGauge.Disk.Entry
import ClassGauge.Project.SettingsFile

/-! # The segments of a path text

A path text is no more than its segments and the slashes between them, and what the text says is
said by those segments that mean something, its names. The parent of a path is a beginning of its
text that has all names but the last.

* `Path.names`: the segments of a path that mean something;
* `intercalate_segments`, `segments_intercalate`: texts and lists of segments are the same;
* `Place.upward`: a place and the places above it;
* `Path.Above`, `forall₂_ancestors`: the paths above a path, and the names that each of them has.
-/

namespace ClassGauge

/-! ## Places above a place -/

/-- A place and the places above it, nearest first. -/
def Place.upward (p : Place) : List Place :=
  p.inits.reverse

namespace Place

theorem mem_upward {p q : Place} : q ∈ upward p ↔ q <+: p := by
  rw [upward, List.mem_reverse, List.mem_inits]

@[simp] theorem upward_nil : upward [] = [[]] := rfl

@[simp] theorem upward_concat (p : Place) (name : String) :
    upward (p ++ [name]) = (p ++ [name]) :: upward p := by
  simp [upward, List.inits_append]

theorem upward_eq_cons {p : Place} (h : p ≠ []) : upward p = p :: upward p.dropLast := by
  have hlast : p.dropLast ++ [p.getLast h] = p := List.dropLast_append_getLast h
  have hupward := upward_concat p.dropLast (p.getLast h)
  rwa [hlast] at hupward

theorem upward_eq_cons_tail (p : Place) : upward p = p :: (upward p).tail := by
  by_cases h : p = []
  · rw [h]
    rfl
  · rw [upward_eq_cons h]
    rfl

/-- Above a place below `w` there are places below `w`, then `w` itself and then those above it. -/
theorem upward_append (w p : Place) :
    upward (w ++ p) = (upward p).map (w ++ ·) ++ (upward w).tail := by
  induction p using List.reverseRecOn with
  | nil =>
    rw [List.append_nil, upward_nil, List.map_singleton, List.append_nil, List.singleton_append]
    exact upward_eq_cons_tail w
  | append_singleton p name ih =>
    rw [← List.append_assoc, upward_concat, ih, upward_concat, List.map_cons, List.cons_append,
      List.append_assoc]

end Place

namespace Path

/-! ## Texts as lists of segments -/

theorem segments_ne_nil (path : String) : segments path ≠ [] := by
  rw [segments]
  simp

/-- The segments of two paths with a slash between them are those of the one and of the other. -/
theorem segments_append_slash (path path' : String) :
    segments (path ++ "/" ++ path') = segments path ++ segments path' := by
  rw [segments, segments, segments, ← List.map_append,
    ← List.splitOn_append_cons_self]
  simp

/-- A text is its segments with slashes between them. -/
theorem intercalate_segments (path : String) : "/".intercalate (segments path) = path := by
  rw [← String.toList_inj, String.toList_intercalate, segments, List.map_map]
  have hid : String.toList ∘ String.ofList = id := funext fun cs => String.toList_ofList
  rw [hid, List.map_id]
  exact List.intercalate_splitOn '/'

/-- Segments without slashes are the segments of the text that they make up. -/
theorem segments_intercalate {ss : List String} (hne : ss ≠ []) (hss : ∀ s ∈ ss, '/' ∉ s.toList) :
    segments ("/".intercalate ss) = ss := by
  have hsplit : (['/'].intercalate (ss.map String.toList)).splitOn '/' = ss.map String.toList := by
    apply List.splitOn_intercalate
    · simpa using hss
    · simpa using hne
  have hid : String.ofList ∘ String.toList = id := funext fun s => String.ofList_toList
  have htext : ("/".intercalate ss).toList = ['/'].intercalate (ss.map String.toList) :=
    String.toList_intercalate
  rw [segments, htext, hsplit, List.map_map, hid, List.map_id]

theorem not_mem_of_mem_splitOn {sep : Char} {cs s : List Char} (h : s ∈ cs.splitOn sep) :
    sep ∉ s := by
  induction cs generalizing s with
  | nil =>
    rw [List.splitOn_nil, List.mem_singleton] at h
    rw [h]
    exact List.not_mem_nil
  | cons c cs ih =>
    rw [List.splitOn_cons_eq_if_modifyHead] at h
    split at h
    · rcases List.mem_cons.mp h with rfl | h
      · exact List.not_mem_nil
      · exact ih h
    · next hc =>
      cases hsplit : cs.splitOn sep with
      | nil => exact absurd hsplit (List.splitOn_ne_nil sep cs)
      | cons t ts =>
        rw [hsplit] at h ih
        rcases List.mem_cons.mp h with rfl | h
        · -- The first segment grows by a character that is no separator.
          have ht : sep ∉ t := ih List.mem_cons_self
          rw [List.mem_cons, not_or]
          exact ⟨fun heq => hc (by simp [heq]), ht⟩
        · exact ih (List.mem_cons_of_mem _ h)

/-- A segment holds no slash. -/
theorem slash_not_mem_of_mem_segments {path s : String} (h : s ∈ segments path) :
    '/' ∉ s.toList := by
  rw [segments] at h
  obtain ⟨cs, hcs, rfl⟩ := List.mem_map.mp h
  rw [String.toList_ofList]
  exact not_mem_of_mem_splitOn hcs

/-- The beginnings of a path's segments are the segments of a beginning of its text. -/
theorem segments_take {path : String} {n : Nat} (hn : 0 < n) :
    segments ("/".intercalate ((segments path).take n)) = (segments path).take n := by
  apply segments_intercalate
  · rw [Ne, List.take_eq_nil_iff, not_or]
    exact ⟨by omega, segments_ne_nil path⟩
  · intro s hs
    exact slash_not_mem_of_mem_segments (List.mem_of_mem_take hs)

/-! ## Names -/

/-- The component that the segment at a position is, if it means something. -/
def component? (x : String × Nat) : Option (String × Nat) :=
  if x.1.isEmpty || (x.1 = "." && x.2 ≠ 0) then none else some (x.1, x.2 + 1)

/-- The segments of a path that mean something. -/
def names (path : String) : List String :=
  (components path).map Prod.fst

theorem components_eq (path : String) :
    components path = (segments path).zipIdx.filterMap component? := rfl

@[simp] theorem names_empty : names "" = [] := rfl

theorem component?_eq_some {x y : String × Nat} (h : component? x = some y) :
    y = (x.1, x.2 + 1) ∧ x.1 ≠ "" := by
  rw [component?] at h
  split at h
  · cases h
  · next hmeans =>
    refine ⟨(Option.some.inj h).symm, ?_⟩
    intro hempty
    exact hmeans (by simp [hempty])

theorem ne_empty_of_mem_names {path name : String} (h : name ∈ names path) : name ≠ "" := by
  obtain ⟨_, hx, rfl⟩ := List.mem_map.mp h
  rw [components_eq, List.mem_filterMap] at hx
  obtain ⟨x, _, hx⟩ := hx
  obtain ⟨rfl, hne⟩ := component?_eq_some hx
  exact hne

/-- Up to a component stand the components in front of it and the component itself. -/
theorem filterMap_component?_take {i n : Nat} {ss : List String} {s : String}
    {before after : List (String × Nat)}
    (h : (ss.zipIdx i).filterMap component? = before ++ (s, n) :: after) :
    i < n ∧ ((ss.take (n - i)).zipIdx i).filterMap component? = before ++ [(s, n)] := by
  -- The segments are gone through from position `i` on until the component is met.
  induction ss generalizing i before with
  | nil => cases before <;> cases h
  | cons t ss ih =>
    rw [List.zipIdx_cons] at h
    cases ht : component? (t, i) with
    | none =>
      rw [List.filterMap_cons_none ht] at h
      obtain ⟨hi, htake⟩ := ih h
      have hn : n - i = n - (i + 1) + 1 := by omega
      refine ⟨by omega, ?_⟩
      rw [hn, List.take_succ_cons, List.zipIdx_cons, List.filterMap_cons_none ht]
      exact htake
    | some x =>
      rw [List.filterMap_cons_some ht] at h
      cases before with
      | nil =>
        obtain ⟨rfl, _⟩ := List.cons.inj h
        obtain ⟨hx, _⟩ := component?_eq_some ht
        obtain ⟨_, rfl⟩ := Prod.mk.inj hx
        have hn : i + 1 - i = 0 + 1 := by omega
        refine ⟨by omega, ?_⟩
        rw [hn, List.take_succ_cons, List.take_zero, List.zipIdx_cons, List.zipIdx_nil,
          List.filterMap_cons_some ht]
        rfl
      | cons y before =>
        obtain ⟨rfl, hrest⟩ := List.cons.inj h
        obtain ⟨hi, htake⟩ := ih hrest
        have hn : n - i = n - (i + 1) + 1 := by omega
        refine ⟨by omega, ?_⟩
        rw [hn, List.take_succ_cons, List.zipIdx_cons, List.filterMap_cons_some ht, htake]
        rfl

/-! ## Paths above a path -/

/-- `above` is the text of a path above `path`: a beginning of its text that starts at the same
place. -/
structure Above (path above : String) : Prop where
  beginning : ∃ rest, path = above ++ rest
  absolute : isAbsolute above = isAbsolute path

variable {path above : String}

theorem Above.refl (path : String) : Above path path :=
  ⟨⟨"", by simp⟩, rfl⟩

theorem Above.trans {top : String} (h : Above path above) (htop : Above above top) :
    Above path top := by
  obtain ⟨rest, rfl⟩ := h.beginning
  obtain ⟨rest', rfl⟩ := htop.beginning
  exact ⟨⟨rest' ++ rest, by rw [String.append_assoc]⟩, htop.absolute.trans h.absolute⟩

/-- What a path does not hold a path above does not hold either. -/
theorem Above.not_mem {c : Char} (h : Above path above) (hc : c ∉ path.toList) :
    c ∉ above.toList := by
  obtain ⟨rest, rfl⟩ := h.beginning
  intro hmem
  rw [String.toList_append] at hc
  exact hc (List.mem_append_left _ hmem)

theorem Above.utf8ByteSize_le (h : Above path above) :
    above.utf8ByteSize ≤ path.utf8ByteSize := by
  obtain ⟨rest, rfl⟩ := h.beginning
  rw [String.utf8ByteSize_append]
  exact Nat.le_add_right _ _

/-- A beginning of a text starts at the same place unless it is empty. -/
theorem isAbsolute_append {rest : String} (h : above ≠ "") :
    isAbsolute (above ++ rest) = isAbsolute above := by
  have hne : above.toList ≠ [] := by simpa using h
  rw [isAbsolute, isAbsolute, String.toList_append]
  cases hcs : above.toList with
  | nil => exact absurd hcs hne
  | cons c cs => rfl

theorem above_append (rest : String) (h : above ≠ "") : Above (above ++ rest) above :=
  ⟨⟨rest, rfl⟩, (isAbsolute_append h).symm⟩

/-- The start of a path is above it. -/
theorem above_start (path : String) : Above path (if isAbsolute path then "/" else "") := by
  cases habsolute : isAbsolute path with
  | false => exact ⟨⟨path, by simp⟩, habsolute.symm⟩
  | true =>
    have hhead : path.toList.head? = some '/' := by simpa [isAbsolute] using habsolute
    obtain ⟨cs, hcs⟩ := List.head?_eq_some_iff.mp hhead
    refine ⟨⟨String.ofList cs, ?_⟩, habsolute.symm⟩
    rw [← String.toList_inj, hcs]
    simp

/-- What the first segments of a path make up, if it is not empty, is the text of a path above. -/
theorem above_take (path : String) {n : Nat}
    (h : "/".intercalate ((segments path).take n) ≠ "") :
    Above path ("/".intercalate ((segments path).take n)) := by
  have hpath := intercalate_segments path
  rw [← List.take_append_drop n (segments path)] at hpath
  -- Taking all segments gives the path itself, taking fewer a text in front of a slash.
  by_cases hdrop : (segments path).drop n = []
  · rw [hdrop, List.append_nil] at hpath
    rw [hpath]
    exact Above.refl path
  · have htake : (segments path).take n ≠ [] := by
      intro hnil
      rw [hnil] at h
      exact h rfl
    rw [String.intercalate_append_of_ne_nil htake hdrop, String.append_assoc] at hpath
    have habove := above_append ("/" ++ "/".intercalate ((segments path).drop n)) h
    rwa [hpath] at habove

/-- A path has no parent if it has no names. -/
theorem parent?_eq_none_iff : parent? path = none ↔ names path = [] := by
  rw [names, List.map_eq_nil_iff, parent?]
  split
  · next h => simpa using h
  · next h => simpa using fun hnil => by simp [hnil] at h
  · next h => simpa using fun hnil => by simp [hnil] at h

/-- The parent of a path is above it and has all names but the last. -/
theorem above_of_parent? (h : parent? path = some above) :
    Above path above ∧ names above = (names path).dropLast := by
  rw [parent?] at h
  split at h
  · cases h
  · next last hlast =>
    -- The last name is the only one, so the way up ends at the start.
    cases h
    have hcomponents : components path = [last] := by simpa using congrArg List.reverse hlast
    refine ⟨above_start path, ?_⟩
    rw [names, names, hcomponents]
    split <;> rfl
  · next last s n rest hlast =>
    cases h
    have hcomponents : components path = rest.reverse ++ (s, n) :: [last] := by
      simpa using congrArg List.reverse hlast
    have hsegments := hcomponents
    rw [components_eq] at hsegments
    obtain ⟨hn, htake⟩ := filterMap_component?_take hsegments
    rw [Nat.sub_zero] at htake
    have hnames : names ("/".intercalate ((segments path).take n)) = (names path).dropLast := by
      rw [names, names, components_eq, segments_take hn, htake, hcomponents]
      simp
    refine ⟨above_take path ?_, hnames⟩
    intro hempty
    rw [hempty, names_empty, names, hcomponents] at hnames
    simp at hnames

theorem forall₂_ancestorsFrom {fuel : Nat} (h : (names path).length ≤ fuel) :
    List.Forall₂ (fun above ns => Above path above ∧ names above = ns) (ancestorsFrom fuel path)
      (Place.upward (names path)) := by
  induction fuel generalizing path with
  | zero =>
    have hnil : names path = [] := List.eq_nil_of_length_eq_zero (Nat.le_zero.mp h)
    rw [hnil]
    exact .cons ⟨Above.refl path, hnil⟩ .nil
  | succ fuel ih =>
    rw [ancestorsFrom]
    cases hparent : parent? path with
    | none =>
      have hnil : names path = [] := parent?_eq_none_iff.mp hparent
      rw [hnil]
      exact .cons ⟨Above.refl path, hnil⟩ .nil
    | some parent =>
      obtain ⟨habove, hnames⟩ := above_of_parent? hparent
      have hne : names path ≠ [] := by
        rw [Ne, ← parent?_eq_none_iff, hparent]
        exact Option.some_ne_none parent
      have hlength : (names parent).length ≤ fuel := by
        rw [hnames, List.length_dropLast]
        omega
      rw [Place.upward_eq_cons hne, ← hnames]
      -- What is above the parent is above the path.
      refine .cons ⟨Above.refl path, rfl⟩ ((ih hlength).imp ?_)
      rintro top ns ⟨htop, hns⟩
      exact ⟨habove.trans htop, hns⟩

/-- The paths above a path have its names, one after the other dropped from the end. -/
theorem forall₂_ancestors (path : String) :
    List.Forall₂ (fun above ns => Above path above ∧ names above = ns) (ancestors path)
      (Place.upward (names path)) := by
  apply forall₂_ancestorsFrom
  rw [names, List.length_map]
  exact Nat.le_succ _

end Path

end ClassGauge
