import ClassGauge.Proofs.Disk.Following

/-! # What lies at the places of a disk

A place is empty, or it holds a directory or a file. Paths are followed by this alone, so a disk that
has all that another has, with directories where that has directories and files where that has files,
leads every path to the place to which the other leads it. Putting a file or an empty directory at a
place that is no directory changes what lies there and nothing else.

* `Occupant`, `Disk.occupant`: what lies at a place, whatever lies below it;
* `Disk.Keeps`, `Keeps.resolve`: disks that have all that another has;
* `Disk.Alike`, `Alike.resolve_eq`: disks that differ in the contents of files only;
* `Disk.occupant_put`, `Entry.Proper.put`, `Entry.put_eq_self`: a disk after a change;
* `Disk.mem_newDirectories`, `Disk.mem_changedFiles`: what is stored of a change.
-/

namespace ClassGauge

/-- What lies at a place. -/
inductive Occupant where
  | nothing
  | directory
  | file (c : Content)
  deriving DecidableEq

/-- What an entry is by itself. -/
def Entry.occupant : Entry → Occupant
  | .file c => .file c
  | .directory _ => .directory

/-- What lies at a place in a tree. -/
def Entry.occupantAt (e : Entry) (p : Place) : Occupant :=
  ((e.at? p).map Entry.occupant).getD .nothing

/-- Whether nothing lies below an entry. -/
def Entry.IsLeaf (e : Entry) : Prop :=
  ∀ p, p ≠ [] → e.occupantAt p = .nothing

namespace Entry

variable {e x : Entry} {p q here : Place} {name : String}

theorem isLeaf_file (c : Content) : (Entry.file c).IsLeaf := by
  intro p hp
  obtain ⟨name, p, rfl⟩ := List.exists_cons_of_ne_nil hp
  rfl

theorem isLeaf_empty : (Entry.directory []).IsLeaf := by
  intro p hp
  obtain ⟨name, p, rfl⟩ := List.exists_cons_of_ne_nil hp
  rfl

theorem occupant_ne_nothing (e : Entry) : e.occupant ≠ .nothing := by
  cases e <;> exact Occupant.noConfusion

theorem occupant_eq_directory_iff : e.occupant = .directory ↔ e.isDirectory = true := by
  cases e <;> simp [occupant, isDirectory]

@[simp] theorem occupantAt_nil (e : Entry) : e.occupantAt [] = e.occupant := rfl

theorem occupantAt_cons (e : Entry) (name : String) (p : Place) :
    e.occupantAt (name :: p) = ((e.child? name).map (·.occupantAt p)).getD .nothing := by
  rw [occupantAt, at?_cons]
  cases e.child? name <;> rfl

theorem occupantAt_of_at? (h : e.at? p = some x) : e.occupantAt p = x.occupant := by
  rw [occupantAt, h]
  rfl

theorem occupantAt_eq_nothing_iff : e.occupantAt p = .nothing ↔ e.at? p = none := by
  rw [occupantAt]
  cases e.at? p with
  | none => simp
  | some x => simpa using occupant_ne_nothing x

theorem occupantAt_eq_directory_iff :
    e.occupantAt p = .directory ↔ ∃ es, e.at? p = some (.directory es) := by
  rw [occupantAt]
  cases e.at? p with
  | none => simp
  | some x => cases x <;> simp [occupant]

theorem occupantAt_eq_file_iff {c : Content} :
    e.occupantAt p = .file c ↔ e.at? p = some (.file c) := by
  rw [occupantAt]
  cases e.at? p with
  | none => simp
  | some x => cases x <;> simp [occupant]

/-- Something lies below a place only if there is a directory. -/
theorem occupantAt_of_append (hq : q ≠ []) (h : e.occupantAt (p ++ q) ≠ .nothing) :
    e.occupantAt p = .directory := by
  obtain ⟨name, q, rfl⟩ := List.exists_cons_of_ne_nil hq
  rw [Ne, occupantAt_eq_nothing_iff, at?_append] at h
  obtain ⟨y, hy⟩ := Option.ne_none_iff_exists'.mp h
  obtain ⟨x, hx, hbelow⟩ := Option.bind_eq_some_iff.mp hy
  rw [occupantAt_of_at? hx, occupant_eq_directory_iff]
  exact isDirectory_of_at?_cons hbelow

/-! ## Putting an entry at a place -/

theorem lookup_replace (name n : String) (e : Entry) (es : List (String × Entry)) :
    (replace name e es).lookup n = if n = name then some e else es.lookup n := by
  have hbeq : ∀ {m : String}, n ≠ m → (n == m) = false := fun h => beq_eq_false_iff_ne.mpr h
  induction es with
  | nil =>
    by_cases hn : n = name
    · simp [replace, hn]
    · simp [replace, List.lookup_cons, hn, hbeq hn]
  | cons x es ih =>
    obtain ⟨m, y⟩ := x
    rw [replace]
    -- Only the first entry of the name is replaced, and only the first is looked up.
    by_cases hm : m = name
    · rw [if_pos hm, List.lookup_cons, List.lookup_cons, hm]
      by_cases hn : n = name
      · simp [hn]
      · simp [hn, hbeq hn]
    · rw [if_neg hm, List.lookup_cons, List.lookup_cons, ih]
      by_cases hn : n = m
      · have hname : n ≠ name := fun heq => hm (hn ▸ heq)
        simp [hn, hm]
      · simp [hbeq hn]

/-- If something that has nothing below it is put under a name of a directory that is no directory
itself, then this is what lies there, and everywhere else lies what lay there before. -/
theorem occupantAt_put (hhere : e.occupantAt here = .directory)
    (hfree : e.occupantAt (here ++ [name]) ≠ .directory)
    (hx : x.IsLeaf) (p : Place) :
    (e.put (here ++ [name]) x).occupantAt p =
      if p = here ++ [name] then x.occupant else e.occupantAt p := by
  induction here generalizing e p with
  | nil =>
    cases e with
    | file c => cases hhere
    | directory es =>
      cases p with
      | nil => rfl
      | cons n q =>
        rw [List.nil_append] at hfree ⊢
        rw [put, put, occupantAt_cons, child?, lookup_replace, occupantAt_cons]
        by_cases hn : n = name
        · rw [if_pos hn, Option.map_some, Option.getD_some]
          by_cases hq : q = []
          · simp [hn, hq]
          · rw [hx q hq, if_neg (by simp [hq]), ← occupantAt_cons, hn]
            -- Nothing lay below the name before, for there was no directory.
            symm
            by_contra hne
            exact hfree (occupantAt_of_append (p := [name]) hq hne)
        · simp [hn, child?]
  | cons m here ih =>
    cases e with
    | file c => cases hhere
    | directory es =>
      obtain ⟨ds, hat⟩ := occupantAt_eq_directory_iff.mp hhere
      obtain ⟨y, hy, hbelow⟩ := Option.bind_eq_some_iff.mp hat
      have hlookup : es.lookup m = some y := hy
      have hchild : y.occupantAt here = .directory := occupantAt_eq_directory_iff.mpr ⟨ds, hbelow⟩
      have hfree' : y.occupantAt (here ++ [name]) ≠ .directory := by
        rw [List.cons_append, occupantAt_cons, hy] at hfree
        exact hfree
      cases p with
      | nil => rfl
      | cons n q =>
        rw [List.cons_append, put, occupantAt_cons, child?, lookup_replace, hlookup,
          Option.getD_some, occupantAt_cons, child?]
        by_cases hn : n = m
        · rw [if_pos hn, Option.map_some, Option.getD_some, ih hchild hfree', hn, hlookup]
          simp
        · simp [hn]

theorem replace_eq_self {es : List (String × Entry)} (h : es.lookup name = some x) :
    replace name x es = es := by
  induction es with
  | nil => cases h
  | cons y es ih =>
    obtain ⟨n, y⟩ := y
    rw [replace]
    rw [List.lookup_cons] at h
    by_cases hn : n = name
    · simp only [hn, beq_self_eq_true, Option.some.injEq] at h
      rw [if_pos hn, h]
    · have hbeq : (name == n) = false := by simpa using Ne.symm hn
      rw [hbeq] at h
      rw [if_neg hn, ih h]

/-- Putting an entry where it is changes nothing. -/
theorem put_eq_self (h : e.at? p = some x) : e.put p x = e := by
  induction p generalizing e with
  | nil =>
    cases h
    rw [put]
  | cons name p ih =>
    obtain ⟨y, hy, hx⟩ := Option.bind_eq_some_iff.mp h
    cases e with
    | file c => cases hy
    | directory es =>
      have hlookup : es.lookup name = some y := hy
      rw [put, hlookup, Option.getD_some, ih hx, replace_eq_self hlookup]

theorem map_fst_replace (name : String) (e : Entry) (es : List (String × Entry)) :
    (replace name e es).map Prod.fst =
      if name ∈ es.map Prod.fst then es.map Prod.fst else es.map Prod.fst ++ [name] := by
  induction es with
  | nil => rfl
  | cons x es ih =>
    obtain ⟨n, x⟩ := x
    rw [replace]
    by_cases hn : n = name
    · simp [hn]
    · rw [if_neg hn, List.map_cons, ih, List.map_cons]
      by_cases hmem : name ∈ es.map Prod.fst
      · rw [if_pos hmem, if_pos (List.mem_cons_of_mem _ hmem)]
      · rw [if_neg hmem, if_neg (by simp [Ne.symm hn, hmem])]
        rfl

theorem mem_replace {name : String} {e : Entry} {es : List (String × Entry)}
    {x : String × Entry} (h : x ∈ replace name e es) : x.2 = e ∨ x ∈ es := by
  induction es with
  | nil =>
    rw [replace, List.mem_singleton] at h
    rw [h]
    exact Or.inl rfl
  | cons y es ih =>
    obtain ⟨n, y⟩ := y
    rw [replace] at h
    split at h
    · rcases List.mem_cons.mp h with rfl | h
      · exact Or.inl rfl
      · exact Or.inr (List.mem_cons_of_mem _ h)
    · rcases List.mem_cons.mp h with rfl | h
      · exact Or.inr List.mem_cons_self
      · exact (ih h).imp_right (List.mem_cons_of_mem _)

/-- A proper tree stays proper if something proper is put at a place. -/
theorem Proper.put (he : e.Proper) (hx : x.Proper) (p : Place) : (e.put p x).Proper := by
  induction p generalizing e with
  | nil =>
    rw [Entry.put]
    exact hx
  | cons name p ih =>
    cases he with
    | file c => exact .file c
    | @directory es names entries =>
      -- On the way down lies a directory that is there, or an empty one that is made.
      have hchild : ((es.lookup name).getD (.directory [])).Proper := by
        cases hlookup : es.lookup name with
        | none => exact .directory List.nodup_nil (by simp)
        | some y => exact entries _ ((lookup_eq_some_iff_mem names).mp hlookup)
      rw [Entry.put]
      refine .directory ?_ ?_
      · rw [map_fst_replace]
        split
        · exact names
        · next hmem =>
          -- The name is new, so it is none of the others.
          refine List.nodup_append.mpr ⟨names, by simp, ?_⟩
          intro n hn m hm heq
          rw [heq, List.mem_singleton.mp hm] at hn
          exact hmem hn
      · intro z hz
        rcases mem_replace hz with hz | hz
        · rw [hz]
          exact ih hchild
        · exact entries z hz

end Entry

namespace Disk

open ClassGauge.Path

variable {d d' : Disk} {here next place p q : Place} {s name path : String} {ss : List String}
  {c : Content} {x : Entry}

def occupant (d : Disk) (p : Place) : Occupant :=
  d.root.occupantAt p

theorem content?_eq_some_iff : d.content? p = some c ↔ d.occupant p = .file c := by
  rw [occupant, Entry.occupantAt_eq_file_iff, content?]
  cases d.root.at? p with
  | none => simp
  | some x => cases x <;> simp

/-- The content of a place depends on what lies there. -/
theorem content?_congr (h : d'.occupant p = d.occupant p) : d'.content? p = d.content? p := by
  apply Option.ext
  intro c
  rw [content?_eq_some_iff, content?_eq_some_iff, h]

/-! ## Paths and occupants -/

/-- Following a segment depends on what lies at two places. -/
theorem step_eq (d : Disk) (here : Place) (s : String) :
    d.step here s =
      if d.occupant here = .directory then
        if s.isEmpty || s = "." then .ok here
        else if s = ".." then .ok here.dropLast
        else if s.utf8ByteSize > nameLimit then .error .nameTooLong
        else if d.occupant (here ++ [s]) = .nothing then .error .notFound
        else .ok (here ++ [s])
      else .error .notADirectory := by
  rw [step]
  by_cases hdir : d.occupant here = .directory
  · rw [if_pos hdir]
    obtain ⟨es, hes⟩ := Entry.occupantAt_eq_directory_iff.mp hdir
    -- The entry that is looked up is what lies at the place below.
    have hnothing : d.occupant (here ++ [s]) = .nothing ↔ es.lookup s = none := by
      rw [occupant, Entry.occupantAt_eq_nothing_iff, Entry.at?_concat, hes]
      rfl
    simp only [hes, hnothing]
    cases es.lookup s <;> rfl
  · rw [if_neg hdir]
    split
    · next es hes => exact absurd (Entry.occupantAt_eq_directory_iff.mpr ⟨es, hes⟩) hdir
    · rfl

/-- A segment that means something and does not lead up leads from a directory to what lies there
under its name. -/
theorem step_eq_ok_iff_of_ne (hempty : s ≠ "") (hhere : s ≠ ".") (hup : s ≠ "..") :
    d.step here s = .ok next ↔ d.occupant here = .directory ∧ s.utf8ByteSize ≤ nameLimit ∧
      d.occupant (here ++ [s]) ≠ .nothing ∧ next = here ++ [s] := by
  have hmeans : ¬ (s.isEmpty || decide (s = ".")) = true := by simp [hempty, hhere]
  rw [step_eq]
  by_cases hdir : d.occupant here = .directory
  · rw [if_pos hdir, if_neg hmeans, if_neg hup]
    -- Of the tests that are left, the length of the name and what lies under it can fail.
    by_cases hsize : s.utf8ByteSize > nameLimit
    · rw [if_pos hsize]
      have hsize' : ¬ s.utf8ByteSize ≤ nameLimit := Nat.not_le.mpr hsize
      simp [hsize']
    · rw [if_neg hsize]
      have hsize' : s.utf8ByteSize ≤ nameLimit := Nat.not_lt.mp hsize
      by_cases hnothing : d.occupant (here ++ [s]) = .nothing
      · simp [hnothing]
      · simp [hdir, hnothing, hsize', eq_comm]
  · simp [hdir]

/-- A segment leads from a directory to a place where something lies. -/
theorem occupants_of_step (h : d.step here s = .ok next) :
    d.occupant here = .directory ∧ d.occupant next ≠ .nothing := by
  rw [step_eq] at h
  split at h
  · next hdir =>
    refine ⟨hdir, ?_⟩
    split at h
    · cases h
      rw [hdir]
      exact Occupant.noConfusion
    · split at h
      · cases h
        -- What has a directory below it is a directory itself.
        by_cases hroot : here = []
        · rw [hroot] at hdir ⊢
          rw [List.dropLast_nil, hdir]
          exact Occupant.noConfusion
        · rw [← List.dropLast_append_getLast hroot] at hdir
          have hbelow : d.occupant (here.dropLast ++ [here.getLast hroot]) ≠ .nothing := by
            rw [hdir]
            exact Occupant.noConfusion
          have hup : d.occupant here.dropLast = .directory :=
            Entry.occupantAt_of_append (List.cons_ne_nil _ _) hbelow
          rw [hup]
          exact Occupant.noConfusion
      · split at h
        · cases h
        · split at h
          · cases h
          · next hsome =>
            cases h
            exact hsome
  · cases h

/-- A path leads to a place where something lies. -/
theorem occupant_of_follow (hss : ss ≠ []) (h : d.follow here ss = .ok next) :
    d.occupant next ≠ .nothing := by
  induction ss generalizing here with
  | nil => exact absurd rfl hss
  | cons s ss ih =>
    rw [follow] at h
    split at h
    · next middle hstep =>
      by_cases hrest : ss = []
      · rw [hrest] at h
        cases h
        exact (occupants_of_step hstep).2
      · exact ih hrest h
    · cases h

/-- A path that leads somewhere is followed segment by segment. -/
theorem resolve_eq_ok_iff : d.resolve path = .ok place ↔
    pathFault? path = none ∧ d.follow (d.start path) (segments path) = .ok place := by
  rw [resolve]
  cases pathFault? path <;> simp

theorem occupant_of_resolve (h : d.resolve path = .ok place) : d.occupant place ≠ .nothing :=
  occupant_of_follow (segments_ne_nil path) (resolve_eq_ok_iff.mp h).2

theorem directory_iff_any : d.occupant p = .directory ↔
    (d.root.at? p).any (·.isDirectory) = true := by
  rw [occupant, Entry.occupantAt]
  cases d.root.at? p with
  | none => simp
  | some x => cases x <;> simp [Entry.occupant, Entry.isDirectory]

theorem file_iff_any : (∃ c, d.occupant p = .file c) ↔
    (d.root.at? p).any (!·.isDirectory) = true := by
  simp only [occupant, Entry.occupantAt]
  cases d.root.at? p with
  | none => simp
  | some x => cases x <;> simp [Entry.occupant, Entry.isDirectory]

theorem isDirectory_iff : d.isDirectory path = true ↔
    ∃ place, d.resolve path = .ok place ∧ d.occupant place = .directory := by
  rw [isDirectory, entry?]
  cases d.resolve path with
  | error fault => simp
  | ok place =>
    simp only [Except.ok.injEq, exists_eq_left']
    exact directory_iff_any.symm

theorem isFile_iff : d.isFile path = true ↔
    ∃ place c, d.resolve path = .ok place ∧ d.occupant place = .file c := by
  rw [isFile, entry?]
  cases d.resolve path with
  | error fault => simp
  | ok place =>
    simp only [Except.ok.injEq, exists_and_left, exists_eq_left']
    exact file_iff_any.symm

/-- A path exists if it leads anywhere. -/
theorem pathExists_iff : d.pathExists path = true ↔ ∃ place, d.resolve path = .ok place := by
  rw [pathExists, entry?]
  cases hresolve : d.resolve path with
  | error fault => simp
  | ok place =>
    have hsome := occupant_of_resolve hresolve
    rw [occupant, Ne, Entry.occupantAt_eq_nothing_iff] at hsome
    simpa [Option.isSome_iff_ne_none] using hsome

/-- What is read depends on what lies where the path leads. -/
theorem readText_congr (hresolve : d'.resolve path = d.resolve path)
    (hplace : ∀ place, d.resolve path = .ok place → d'.occupant place = d.occupant place) :
    d'.readText path = d.readText path := by
  rw [readText, readText, hresolve]
  cases hpath : d.resolve path with
  | error fault => rfl
  | ok place =>
    have hsame := hplace place hpath
    simp only [occupant, Entry.occupantAt] at hsame ⊢
    -- Two entries with the same occupant are files of the same content, or no files.
    cases hd : d.root.at? place with
    | none =>
      cases hd' : d'.root.at? place with
      | none => rfl
      | some x' => cases x' <;> simp [hd, hd', Entry.occupant] at hsame
    | some x =>
      cases hd' : d'.root.at? place with
      | none => cases x <;> simp [hd, hd', Entry.occupant] at hsame
      | some x' => cases x <;> cases x' <;> simp_all [Entry.occupant]

/-! ## Disks that have all that another has -/

/-- `d'` has all that `d` has: directories where `d` has directories and files where `d` has files,
though these may hold something else. -/
structure Keeps (d d' : Disk) : Prop where
  directory : ∀ p, d.occupant p = .directory → d'.occupant p = .directory
  file : ∀ p c, d.occupant p = .file c → ∃ c', d'.occupant p = .file c'
  workingDirectory : d'.workingDirectory = d.workingDirectory

namespace Keeps

variable (h : Keeps d d')

include h

theorem start_eq (path : String) : d'.start path = d.start path := by
  rw [start, start, h.workingDirectory]

theorem ne_nothing (hp : d.occupant p ≠ .nothing) : d'.occupant p ≠ .nothing := by
  cases hd : d.occupant p with
  | nothing => exact absurd hd hp
  | directory =>
    rw [h.directory p hd]
    exact Occupant.noConfusion
  | file c =>
    obtain ⟨c', hc'⟩ := h.file p c hd
    rw [hc']
    exact Occupant.noConfusion

/-- Where something lies, `d'` has a directory exactly if `d` has one. -/
theorem directory_iff (hp : d.occupant p ≠ .nothing) :
    d'.occupant p = .directory ↔ d.occupant p = .directory := by
  constructor
  · intro hd'
    cases hd : d.occupant p with
    | nothing => exact absurd hd hp
    | directory => rfl
    | file c =>
      obtain ⟨c', hc'⟩ := h.file p c hd
      rw [hc'] at hd'
      cases hd'
  · exact h.directory p

theorem step (hstep : d.step here s = .ok next) : d'.step here s = .ok next := by
  have hdir : d'.occupant here = .directory := h.directory _ (occupants_of_step hstep).1
  rw [step_eq] at hstep ⊢
  rw [if_pos (occupants_of_step (d := d) (by rw [step_eq]; exact hstep)).1] at hstep
  rw [if_pos hdir]
  -- The tests are the same, and the last one asks that something lies there.
  split at hstep
  · next hmeans => rw [if_pos hmeans, hstep]
  · next hmeans =>
    rw [if_neg hmeans]
    split at hstep
    · next hup => rw [if_pos hup, hstep]
    · next hup =>
      rw [if_neg hup]
      split at hstep
      · cases hstep
      · next hsize =>
        rw [if_neg hsize]
        split at hstep
        · cases hstep
        · next hsome => rw [if_neg (h.ne_nothing hsome), hstep]

theorem follow (hfollow : d.follow here ss = .ok next) : d'.follow here ss = .ok next := by
  induction ss generalizing here with
  | nil => exact hfollow
  | cons s ss ih =>
    rw [Disk.follow] at hfollow ⊢
    split at hfollow
    · next middle hstep =>
      rw [h.step hstep]
      exact ih hfollow
    · cases hfollow

/-- A path leads to the place to which it leads in `d`. -/
theorem resolve (hresolve : d.resolve path = .ok place) : d'.resolve path = .ok place := by
  rw [resolve_eq_ok_iff] at hresolve ⊢
  rw [h.start_eq]
  exact ⟨hresolve.1, h.follow hresolve.2⟩

theorem isDirectory (hdir : d.isDirectory path = true) : d'.isDirectory path = true := by
  obtain ⟨place, hresolve, hplace⟩ := isDirectory_iff.mp hdir
  exact isDirectory_iff.mpr ⟨place, h.resolve hresolve, h.directory place hplace⟩

/-- What a path that leads somewhere leads to is a file in both disks or in none. -/
theorem isFile_eq (hresolve : d.resolve path = .ok place) : d'.isFile path = d.isFile path := by
  rw [Bool.eq_iff_iff, isFile_iff, isFile_iff, h.resolve hresolve, hresolve]
  simp only [Except.ok.injEq, exists_and_left, exists_eq_left']
  constructor
  · rintro ⟨c, hc⟩
    cases hd : d.occupant place with
    | nothing => exact absurd hd (occupant_of_resolve hresolve)
    | directory =>
      rw [h.directory place hd] at hc
      cases hc
    | file c => exact ⟨c, rfl⟩
  · rintro ⟨c, hc⟩
    exact h.file place c hc

end Keeps

/-- Two disks have directories at the same places, and files at the same places, though the files may
hold different contents. -/
structure Alike (d d' : Disk) : Prop where
  keeps : Keeps d d'
  kept : Keeps d' d

namespace Alike

variable (h : Alike d d')

include h

theorem directory_iff (p : Place) : d'.occupant p = .directory ↔ d.occupant p = .directory :=
  ⟨h.kept.directory p, h.keeps.directory p⟩

theorem nothing_iff (p : Place) : d'.occupant p = .nothing ↔ d.occupant p = .nothing :=
  ⟨fun hp => by_contra fun hd => h.keeps.ne_nothing hd hp,
    fun hp => by_contra fun hd => h.kept.ne_nothing hd hp⟩

theorem step_eq (here : Place) (s : String) : d'.step here s = d.step here s := by
  rw [Disk.step_eq, Disk.step_eq]
  simp only [h.directory_iff, h.nothing_iff]

theorem follow_eq (here : Place) (ss : List String) : d'.follow here ss = d.follow here ss := by
  induction ss generalizing here with
  | nil => rfl
  | cons s ss ih =>
    rw [follow, follow, h.step_eq]
    cases d.step here s with
    | error fault => rfl
    | ok next => exact ih next

/-- Every path leads to the same place in both, or fails in the same way. -/
theorem resolve_eq (path : String) : d'.resolve path = d.resolve path := by
  rw [resolve, resolve, h.keeps.start_eq, h.follow_eq]

theorem pathExists_eq (path : String) : d'.pathExists path = d.pathExists path := by
  rw [Bool.eq_iff_iff, pathExists_iff, pathExists_iff, h.resolve_eq]

theorem isDirectory_eq (path : String) : d'.isDirectory path = d.isDirectory path := by
  rw [Bool.eq_iff_iff, isDirectory_iff, isDirectory_iff, h.resolve_eq]
  simp only [h.directory_iff]

/-- Every path can be followed up to its last segment in both, or fails in the same way. -/
theorem resolveParent_eq (path : String) :
    d'.resolveParent path = d.resolveParent path := by
  rw [resolveParent, resolveParent, h.keeps.start_eq]
  simp only [h.follow_eq, h.step_eq]

theorem isFile_eq (path : String) : d'.isFile path = d.isFile path := by
  cases hresolve : d.resolve path with
  | ok place => exact h.keeps.isFile_eq hresolve
  | error fault =>
    have hresolve' : d'.resolve path = .error fault := by rw [h.resolve_eq, hresolve]
    rw [isFile, isFile, entry?, entry?, hresolve, hresolve']

end Alike

/-! ## Changes -/

/-- If a file or an empty directory is put where no directory is, then it lies there, and everywhere
else lies what lay there before. -/
theorem occupant_put (hhere : d.occupant here = .directory)
    (hfree : d.occupant (here ++ [name]) ≠ .directory)
    (hx : x.IsLeaf) (p : Place) :
    (d.put (here ++ [name]) x).occupant p =
      if p = here ++ [name] then x.occupant else d.occupant p :=
  Entry.occupantAt_put hhere hfree hx p

theorem put_eq_self (h : d.root.at? p = some x) : d.put p x = d := by
  rw [put, Entry.put_eq_self h]

/-- The new directories of a disk are those where `d` has none. -/
theorem mem_newDirectories (h : d'.root.Proper) :
    p ∈ d.newDirectories d' ↔ d'.occupant p = .directory ∧ d.occupant p ≠ .directory := by
  rw [newDirectories, List.mem_filter, mem_directoryPlaces h, ← Entry.occupantAt_eq_directory_iff,
    Bool.not_eq_true', ← Bool.not_eq_true, ← directory_iff_any]
  rfl

/-- The changed files of a disk are those that `d` has not, or not with that content. -/
theorem mem_changedFiles (h : d'.root.Proper) :
    (p, c) ∈ d.changedFiles d' ↔ d'.occupant p = .file c ∧ d.occupant p ≠ .file c := by
  have hplace : d'.occupant p = .file c → p ∈ d'.root.filePlaces fun _ => false := fun hfile =>
    (mem_filePlaces h).mpr ⟨⟨c, Entry.occupantAt_eq_file_iff.mp hfile⟩, fun _ _ => rfl⟩
  rw [changedFiles, List.mem_filterMap, Ne, ← content?_eq_some_iff, ← content?_eq_some_iff]
  constructor
  · -- Whatever is listed comes with the place at which it was looked up.
    rintro ⟨q, _, hchanged⟩
    cases hq : d'.content? q with
    | none => simp [hq] at hchanged
    | some c' =>
      by_cases hold : d.content? q = some c'
      · simp [hq, hold] at hchanged
      · simp only [hq, if_neg hold, Option.some.injEq, Prod.mk.injEq] at hchanged
        obtain ⟨rfl, rfl⟩ := hchanged
        exact ⟨hq, hold⟩
  · rintro ⟨hnew, hold⟩
    refine ⟨p, hplace (content?_eq_some_iff.mp hnew), ?_⟩
    rw [hnew]
    exact if_neg hold

end Disk

end ClassGauge
