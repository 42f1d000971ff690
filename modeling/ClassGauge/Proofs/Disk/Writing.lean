import ClassGauge.CommandLine.Run
import ClassGauge.Proofs.Disk.Occupant
import ClassGauge.Proofs.Runs

/-! # What writing a report changes

Making directories adds directories that were missing to those that are there, and writing a file
changes one place. So a report that is written is the only file that is new or changed, and whatever
else is new is an empty directory above it. Writing the same report once more changes nothing.

* `Disk.AddsDirectories`, `Disk.makesDirectories`: making directories;
* `Disk.Written`, `written_of_writeReport`: writing a report, once and again.
-/

namespace ClassGauge

namespace Path

variable {path parent s : String}

theorem mem_names_of_mem_segments (h : s ∈ segments path) (hempty : s ≠ "") (hhere : s ≠ ".") :
    s ∈ names path := by
  obtain ⟨i, hi⟩ := List.mem_iff_getElem?.mp h
  have hmem : (s, i) ∈ (segments path).zipIdx := by
    rw [List.mem_zipIdx_iff_getElem?]
    exact hi
  have hsome : component? (s, i) = some (s, i + 1) := by
    simp [component?, hempty, hhere]
  rw [names, components_eq]
  exact List.mem_map.mpr ⟨_, List.mem_filterMap.mpr ⟨_, hmem, hsome⟩, rfl⟩

/-- Behind the last segment of a path that does not end with a slash comes nothing. -/
theorem eq_nil_of_segments {before after : List String} (h : segments path = before ++ s :: after)
    (hafter : ∀ t ∈ after, t = "") (hslash : path.toList.getLast? ≠ some '/') : after = [] := by
  by_contra hne
  obtain ⟨ts, t, rfl⟩ := (List.eq_nil_or_concat' after).resolve_left hne
  obtain rfl : t = "" := hafter t (by simp)
  apply hslash
  rw [ends_slash_iff]
  refine ⟨"/".intercalate (before ++ s :: ts), ?_⟩
  have hsplit : before ++ s :: (ts ++ [""]) = before ++ s :: ts ++ [""] := by simp
  rw [← intercalate_segments path, h, hsplit,
    String.intercalate_append_of_ne_nil (by simp) (by simp), String.intercalate_singleton,
    String.append_empty]

/-- A last segment that means something and does not lead up is the name of a file. -/
theorem fileName?_of_segments {before : List String} (h : segments path = before ++ [s])
    (hempty : s ≠ "") (hhere : s ≠ ".") (hup : s ≠ "..") : fileName? path = some s := by
  have hsome : ∀ i, component? (s, i) = some (s, i + 1) := by
    intro i
    simp [component?, hempty, hhere]
  have hlast : (components path).getLast? = some (s, before.length + 1) := by
    rw [components_eq, h, List.zipIdx_append, List.filterMap_append]
    simp [hsome]
  simp [fileName?, hlast, hhere, hup]

/-- The text of a place ends with the name of the place. -/
theorem exists_segments_toPath (here : Place) (hslash : '/' ∉ s.toList) :
    ∃ before, segments (Place.toPath (here ++ [s])) = before ++ [s] := by
  have hname : segments s = [s] := by
    have h := segments_intercalate (List.cons_ne_nil s []) (by simpa using hslash)
    rwa [String.intercalate_singleton] at h
  -- At the root the text in front of the slash is empty.
  by_cases hne : here = []
  · refine ⟨[""], ?_⟩
    have hpath : Place.toPath (here ++ [s]) = "" ++ "/" ++ s := by
      simp [Place.toPath, hne]
    rw [hpath, segments_append_slash, hname]
    rfl
  · refine ⟨segments (Place.toPath here), ?_⟩
    have hpath : Place.toPath (here ++ [s]) = Place.toPath here ++ "/" ++ s := by
      rw [Place.toPath, String.intercalate_append_of_ne_nil hne (List.cons_ne_nil s []),
        String.intercalate_singleton, Place.toPath, String.append_assoc, String.append_assoc,
        String.append_assoc]
    rw [hpath, segments_append_slash, hname]

theorem mem_ancestors_self (path : String) : path ∈ ancestors path := by
  rw [ancestors, ancestorsFrom]
  exact List.mem_cons_self

/-- The paths above a path are the path itself and those above its parent. -/
theorem ancestors_of_parent? (h : parent? path = some parent) :
    ancestors path = path :: ancestors parent := by
  have hlength : (components path).length = (components parent).length + 1 := by
    have hne : names path ≠ [] := by
      rw [Ne, ← parent?_eq_none_iff, h]
      exact Option.some_ne_none parent
    have hnames := congrArg List.length (above_of_parent? h).2
    have hpos := List.length_pos_iff.mpr hne
    rw [List.length_dropLast] at hnames
    simp only [names, List.length_map] at hnames hpos
    omega
  rw [ancestors, ancestorsFrom, h, hlength]
  rfl

theorem ancestors_subset_of_parent? (h : parent? path = some parent) :
    ancestors parent ⊆ ancestors path := by
  rw [ancestors_of_parent? h]
  exact List.subset_cons_self _ _

/-- The names of a path above are names of the path. -/
theorem names_subset_of_mem_ancestors {above : String} (h : above ∈ ancestors path) :
    names above ⊆ names path := by
  obtain ⟨ns, hns, _, rfl⟩ := mem_of_forall₂ (forall₂_ancestors path) h
  exact (Place.mem_upward.mp hns).subset

end Path

open ClassGauge.Path

namespace Disk

variable {d d' : Disk} {here place p : Place} {last path parent text : String}

/-! ## The last segment of a path -/

/-- Segments that are empty lead nowhere else. -/
theorem follow_of_forall_empty {ss : List String} (hdir : d.occupant here = .directory)
    (hss : ∀ s ∈ ss, s = "") : d.follow here ss = .ok here := by
  induction ss with
  | nil => rfl
  | cons s ss ih =>
    obtain ⟨rfl, hrest⟩ := List.forall_mem_cons.mp hss
    have hstep : d.step here "" = .ok here := by
      rw [step_eq, if_pos hdir]
      rfl
    rw [follow, hstep]
    exact ih hrest

/-- The last segment that is not empty, what stands in front of it and what comes behind it. -/
theorem segments_of_dropWhile {before : List String}
    (h : (segments path).reverse.dropWhile String.isEmpty = last :: before) :
    ∃ after, segments path = before.reverse ++ last :: after ∧ last ≠ "" ∧
      ∀ s ∈ after, s = "" := by
  -- Read from the end, the empty segments come first and then the last one that is not.
  refine ⟨((segments path).reverse.takeWhile String.isEmpty).reverse, ?_, ?_, ?_⟩
  · have hreverse := congrArg List.reverse
      (List.takeWhile_append_dropWhile (p := String.isEmpty) (l := (segments path).reverse))
    rw [h, List.reverse_append, List.reverse_cons, List.reverse_reverse] at hreverse
    exact hreverse.symm.trans (List.append_assoc _ _ _)
  · have hhead := List.head?_dropWhile_not String.isEmpty (segments path).reverse
    rw [h] at hhead
    simpa using hhead
  · intro s hs
    rw [List.mem_reverse] at hs
    have hall := List.all_takeWhile (p := String.isEmpty) (l := (segments path).reverse)
    simpa using List.all_eq_true.mp hall s hs

theorem step_dot (h : d.occupant here = .directory) : d.step here "." = .ok here := by
  rw [step_eq, if_pos h]
  rfl

/-- Following a path up to its last segment: what is left of the path behind the segment are empty
segments. -/
theorem segments_of_resolveParent (h : d.resolveParent path = .ok (place, some last)) :
    ∃ before after, segments path = before ++ last :: after ∧ last ≠ "" ∧
      (∀ s ∈ after, s = "") ∧ pathFault? path = none ∧
      d.follow (d.start path) before = .ok place ∧ d.occupant place = .directory := by
  rw [resolveParent] at h
  split at h
  · cases h
  · next hfault =>
    split at h
    · cases h
    · next s before hdrop =>
      obtain ⟨after, hsegments, hlast, hafter⟩ := segments_of_dropWhile hdrop
      split at h
      · cases h
      · next middle hfollow =>
        split at h
        · cases h
        · next there hstep =>
          cases h
          -- The step to the dot only asks for a directory and stays there.
          obtain ⟨hdir, _⟩ := occupants_of_step hstep
          rw [step_dot hdir] at hstep
          cases hstep
          exact ⟨before.reverse, after, hsegments, hlast, hafter, hfault, hfollow, hdir⟩

/-- A path leads to the place under its last segment if there is a directory, or if there is a file
and nothing comes behind the segment. -/
theorem resolve_of_resolveParent (h : d.resolveParent path = .ok (place, some last))
    (hhere : last ≠ ".") (hup : last ≠ "..") (hsize : last.utf8ByteSize ≤ nameLimit)
    (hkeeps : Keeps d d')
    (hthere : d'.occupant (place ++ [last]) = .directory ∨
      d'.occupant (place ++ [last]) ≠ .nothing ∧ path.toList.getLast? ≠ some '/') :
    d'.resolve path = .ok (place ++ [last]) := by
  obtain ⟨before, after, hsegments, hempty, hafter, hfault, hfollow, hdir⟩ :=
    segments_of_resolveParent h
  have hsome : d'.occupant (place ++ [last]) ≠ .nothing := by
    rcases hthere with hdirectory | ⟨hsome, _⟩
    · rw [hdirectory]
      exact Occupant.noConfusion
    · exact hsome
  have hlast : d'.step place last = .ok (place ++ [last]) :=
    (step_eq_ok_iff_of_ne hempty hhere hup).mpr ⟨hkeeps.directory _ hdir, hsize, hsome, rfl⟩
  -- Behind the last segment there may be empty ones, but only behind a directory.
  have hrest : d'.follow (place ++ [last]) after = .ok (place ++ [last]) := by
    rcases hthere with hdirectory | ⟨_, hslash⟩
    · exact follow_of_forall_empty hdirectory hafter
    · have hnil : after = [] := eq_nil_of_segments hsegments hafter hslash
      rw [hnil]
      rfl
  rw [resolve_eq_ok_iff]
  refine ⟨hfault, ?_⟩
  rw [hkeeps.start_eq, hsegments, follow_append, hkeeps.follow hfollow]
  show d'.follow place (last :: after) = .ok (place ++ [last])
  rw [follow, hlast]
  exact hrest

/-- The last segment of a path is one of its names. -/
theorem mem_names_of_resolveParent (h : d.resolveParent path = .ok (place, some last))
    (hhere : last ≠ ".") : last ∈ names path := by
  obtain ⟨before, after, hsegments, hempty, _⟩ := segments_of_resolveParent h
  exact mem_names_of_mem_segments (by rw [hsegments]; simp) hempty hhere

/-! ## Making directories -/

/-- Nothing is lost if a file replaces a file, or if something is put where nothing was. -/
theorem keeps_put {name : String} {x : Entry} (hhere : d.occupant here = .directory)
    (hfree : d.occupant (here ++ [name]) ≠ .directory)
    (hx : x.IsLeaf)
    (hfile : ∀ c, d.occupant (here ++ [name]) = .file c → ∃ c', x.occupant = .file c') :
    Keeps d (d.put (here ++ [name]) x) := by
  have hput := occupant_put hhere hfree hx
  refine ⟨?_, ?_, rfl⟩
  · intro p hp
    have hne : p ≠ here ++ [name] := fun heq => hfree (heq ▸ hp)
    rw [hput, if_neg hne, hp]
  · intro p c hp
    by_cases hp' : p = here ++ [name]
    · obtain ⟨c', hc'⟩ := hfile c (hp' ▸ hp)
      exact ⟨c', by rw [hput, if_pos hp', hc']⟩
    · exact ⟨c, by rw [hput, if_neg hp', hp]⟩

/-- Making a directory puts an empty one where nothing was. -/
theorem makeDirectory_eq_ok (h : d.makeDirectory path = .ok d') :
    ∃ place last, d.resolveParent path = .ok (place, some last) ∧ last ≠ "." ∧ last ≠ ".." ∧
      last.utf8ByteSize ≤ nameLimit ∧ d.occupant (place ++ [last]) = .nothing ∧
      d' = d.put (place ++ [last]) (.directory []) := by
  rw [makeDirectory] at h
  split at h
  · cases h
  · cases h
  · next place last hparent =>
    split at h
    · cases h
    · next hdots =>
      simp only [Bool.or_eq_true, decide_eq_true_eq, not_or] at hdots
      split at h
      · cases h
      · next hsize =>
        split at h
        · cases h
        · next hfree =>
          -- All tests are passed, and the last of them says that nothing is there.
          have hnothing : d.occupant (place ++ [last]) = .nothing := by
            rw [occupant, Entry.occupantAt_eq_nothing_iff]
            simpa using hfree
          exact ⟨place, last, hparent, hdots.1, hdots.2, Nat.not_lt.mp hsize, hnothing,
            (Except.ok.inj h).symm⟩

/-- `d'` is `d` with some directories that were missing, each where one of some paths leads. -/
structure AddsDirectories (paths : List String) (d d' : Disk) : Prop where
  occupant : ∀ p, d'.occupant p = d.occupant p ∨
    d.occupant p = .nothing ∧ d'.occupant p = .directory ∧
      ∃ path ∈ paths, d'.resolve path = .ok p ∧ ∃ name ∈ names path, p.getLast? = some name
  workingDirectory : d'.workingDirectory = d.workingDirectory
  proper : d.root.Proper → d'.root.Proper

namespace AddsDirectories

variable {paths paths' : List String}

theorem refl (paths : List String) (d : Disk) : AddsDirectories paths d d :=
  ⟨fun _ => Or.inl rfl, rfl, id⟩

theorem keeps (h : AddsDirectories paths d d') : Keeps d d' := by
  refine ⟨?_, ?_, h.workingDirectory⟩
  · intro p hp
    rcases h.occupant p with hsame | ⟨hnothing, _⟩
    · rw [hsame, hp]
    · rw [hp] at hnothing
      cases hnothing
  · intro p c hp
    rcases h.occupant p with hsame | ⟨hnothing, _⟩
    · exact ⟨c, by rw [hsame, hp]⟩
    · rw [hp] at hnothing
      cases hnothing

theorem mono (h : AddsDirectories paths d d') (hpaths : paths ⊆ paths') :
    AddsDirectories paths' d d' := by
  refine ⟨?_, h.workingDirectory, h.proper⟩
  intro p
  rcases h.occupant p with hsame | ⟨hnothing, hdir, path, hpath, hleads⟩
  · exact Or.inl hsame
  · exact Or.inr ⟨hnothing, hdir, path, hpaths hpath, hleads⟩

theorem trans {d'' : Disk} (h : AddsDirectories paths d d') (h' : AddsDirectories paths d' d'') :
    AddsDirectories paths d d'' := by
  refine ⟨?_, h'.workingDirectory.trans h.workingDirectory, fun hd => h'.proper (h.proper hd)⟩
  intro p
  rcases h'.occupant p with hsame | ⟨hnothing, hdir, hpath⟩
  · rcases h.occupant p with hsame' | ⟨hnothing, hdir, path, hpath, hresolve, hname⟩
    · exact Or.inl (hsame.trans hsame')
    · exact Or.inr ⟨hnothing, hsame.trans hdir, path, hpath, h'.keeps.resolve hresolve, hname⟩
  · rcases h.occupant p with hsame' | ⟨hnothing', _⟩
    · exact Or.inr ⟨hsame'.symm.trans hnothing, hdir, hpath⟩
    · exact Or.inr ⟨hnothing', hdir, hpath⟩

end AddsDirectories

/-- A directory that is made is the only thing that is new, and its path leads there. -/
theorem addsDirectories_makeDirectory (h : d.makeDirectory path = .ok d') :
    AddsDirectories (ancestors path) d d' ∧ d'.isDirectory path = true := by
  obtain ⟨place, last, hparent, hhere, hup, hsize, hnothing, rfl⟩ := makeDirectory_eq_ok h
  obtain ⟨_, _, _, _, _, _, _, hdir⟩ := segments_of_resolveParent hparent
  have hfree : d.occupant (place ++ [last]) ≠ .directory := by
    rw [hnothing]
    exact Occupant.noConfusion
  have hput := occupant_put hdir hfree Entry.isLeaf_empty
  have hkeeps : Keeps d (d.put (place ++ [last]) (.directory [])) := by
    refine keeps_put hdir hfree Entry.isLeaf_empty ?_
    intro c hc
    rw [hnothing] at hc
    cases hc
  -- The path leads to the new directory, and nothing else is new.
  have hnew : (d.put (place ++ [last]) (.directory [])).occupant (place ++ [last]) = .directory := by
    rw [hput, if_pos rfl]
    rfl
  have hresolve := resolve_of_resolveParent hparent hhere hup hsize hkeeps (Or.inl hnew)
  refine ⟨⟨?_, rfl, ?_⟩, isDirectory_iff.mpr ⟨_, hresolve, hnew⟩⟩
  · intro p
    by_cases hp : p = place ++ [last]
    · rw [hp]
      exact Or.inr ⟨hnothing, hnew, path, mem_ancestors_self path, hresolve, last,
        mem_names_of_resolveParent hparent hhere, by simp⟩
    · rw [hput, if_neg hp]
      exact Or.inl rfl
  · intro hd
    have hproper : (Entry.directory []).Proper := .directory List.nodup_nil (by simp)
    exact hd.put hproper _

/-- What comes of making the directories along a path, with a fault or without: some that were missing
are added, and without a fault the path leads to a directory then. -/
structure MakesDirectories (path : String) (d : Disk) (r : Disk × Option DiskFault) : Prop where
  adds : AddsDirectories (ancestors path) d r.1
  leads : r.2 = none → r.1.isDirectory path = true

namespace MakesDirectories

variable {middle : Disk}

/-- A fault says nothing of the path, whatever has been added before. -/
theorem of_fault (h : AddsDirectories (ancestors path) d d') (fault : DiskFault) :
    MakesDirectories path d (d', some fault) :=
  ⟨h, nofun⟩

/-- If the last directory cannot be made, there is no fault all the same if it is there. -/
theorem of_attempt (h : AddsDirectories (ancestors path) d d') (fault : DiskFault) :
    MakesDirectories path d (d', if d'.isDirectory path then none else some fault) := by
  refine ⟨h, ?_⟩
  intro hnone
  by_contra hdir
  rw [if_neg hdir] at hnone
  cases hnone

theorem of_makeDirectory (h : AddsDirectories (ancestors path) d middle)
    (hmade : middle.makeDirectory path = .ok d') : MakesDirectories path d (d', none) := by
  obtain ⟨hadds, hdir⟩ := addsDirectories_makeDirectory hmade
  exact ⟨h.trans hadds, fun _ => hdir⟩

end MakesDirectories

theorem makesDirectories_from (d : Disk) (fuel : Nat) (path : String) :
    MakesDirectories path d (d.makeDirectoriesFrom fuel path) := by
  have hnothing : ∀ path, AddsDirectories (ancestors path) d d := fun _ => .refl _ d
  induction fuel generalizing path with
  | zero => exact .of_fault (hnothing _) _
  | succ fuel ih =>
    rw [makeDirectoriesFrom]
    cases hmade : d.makeDirectory path with
    | ok made => exact .of_makeDirectory (hnothing _) hmade
    | error fault =>
      by_cases hmissing : fault = .notFound
      · subst hmissing
        cases hparent : parent? path with
        | none => exact .of_fault (hnothing _) _
        | some parent =>
          by_cases hempty : parent.isEmpty = true
          · simp only [hempty, if_true]
            exact .of_fault (hnothing _) _
          · -- The parent is made first, which is all that is added if it fails.
            simp only [hempty]
            have habove := (ih parent).adds.mono (ancestors_subset_of_parent? hparent)
            rcases hrest : d.makeDirectoriesFrom fuel parent with ⟨middle, _ | fault⟩
            · rw [hrest] at habove
              cases hlast : middle.makeDirectory path with
              | ok made => simpa [hlast] using MakesDirectories.of_makeDirectory habove hlast
              | error fault => simpa [hlast] using MakesDirectories.of_attempt habove fault
            · rw [hrest] at habove
              exact .of_fault habove fault
      · cases fault with
        | notFound => exact absurd rfl hmissing
        | _ => exact .of_attempt (hnothing _) _

/-- Making directories adds those that were missing along the path, and if nothing goes wrong, the
path leads to a directory then. -/
theorem makesDirectories (d : Disk) (path : String) :
    MakesDirectories path d (d.makeDirectories path) :=
  makesDirectories_from d _ path

/-- If a path leads somewhere, then its last segment leads there from a directory. -/
theorem resolveParent_of_resolve (h : d.resolve path = .ok p) :
    d.resolveParent path = .ok ([], none) ∨
      ∃ place last, d.resolveParent path = .ok (place, some last) ∧
        (last = "." ∨ last = ".." ∨
          last.utf8ByteSize ≤ nameLimit ∧ d.occupant (place ++ [last]) ≠ .nothing) := by
  obtain ⟨hfault, hfollow⟩ := resolve_eq_ok_iff.mp h
  rw [resolveParent, hfault]
  cases hdrop : (segments path).reverse.dropWhile String.isEmpty with
  | nil => exact Or.inl rfl
  | cons last before =>
    right
    obtain ⟨after, hsegments, hempty, _⟩ := segments_of_dropWhile hdrop
    -- The path is followed up to its last segment and then through it.
    rw [hsegments, follow_append] at hfollow
    cases hplace : d.follow (d.start path) before.reverse with
    | error fault =>
      rw [hplace] at hfollow
      cases hfollow
    | ok place =>
      rw [hplace] at hfollow
      replace hfollow : d.follow place (last :: after) = .ok p := hfollow
      rw [follow] at hfollow
      split at hfollow
      · next there hstep =>
        have hdot := step_dot (occupants_of_step hstep).1
        refine ⟨place, last, by simp [hplace, hdot], ?_⟩
        -- A dot or two lead to what is there anyhow, any other segment to an entry of its name.
        by_cases hhere : last = "."
        · exact Or.inl hhere
        · by_cases hup : last = ".."
          · exact Or.inr (Or.inl hup)
          · obtain ⟨_, hsize, hsome, _⟩ := (step_eq_ok_iff_of_ne hempty hhere hup).mp hstep
            exact Or.inr (Or.inr ⟨hsize, hsome⟩)
      · cases hfollow

/-- A directory that is there is not made again. -/
theorem makeDirectory_of_isDirectory (h : d.isDirectory path = true) :
    d.makeDirectory path = .error .alreadyExists := by
  obtain ⟨p, hresolve, _⟩ := isDirectory_iff.mp h
  rcases resolveParent_of_resolve hresolve with hroot | ⟨place, last, hparent, hlast⟩
  · rw [makeDirectory, hroot]
  · rw [makeDirectory, hparent]
    rcases hlast with rfl | rfl | ⟨hsize, hsome⟩
    · rfl
    · rfl
    · have hsize' : ¬ last.utf8ByteSize > nameLimit := Nat.not_lt.mpr hsize
      have hthere : (d.root.at? (place ++ [last])).isSome = true := by
        rw [occupant, Ne, Entry.occupantAt_eq_nothing_iff] at hsome
        exact Option.isSome_iff_ne_none.mpr hsome
      simp [hsize', hthere]

theorem makeDirectories_of_isDirectory (h : d.isDirectory path = true) :
    d.makeDirectories path = (d, none) := by
  rw [makeDirectories, makeDirectoriesFrom, makeDirectory_of_isDirectory h]
  simp [h]

/-! ## Writing a file -/

/-- Writing a file puts it where no directory was. -/
theorem writeText_eq_ok (h : d.writeText path text = .ok d') :
    ∃ place last, d.resolveParent path = .ok (place, some last) ∧ last ≠ "." ∧ last ≠ ".." ∧
      path.toList.getLast? ≠ some '/' ∧ last.utf8ByteSize ≤ nameLimit ∧
      d.occupant (place ++ [last]) ≠ .directory ∧
      d' = d.put (place ++ [last]) (.file (.text text)) := by
  rw [writeText] at h
  split at h
  · cases h
  · cases h
  · next place last hparent =>
    split at h
    · cases h
    · next hdots =>
      simp only [Bool.or_eq_true, decide_eq_true_eq, not_or] at hdots
      split at h
      · cases h
      · next hsize =>
        split at h
        · cases h
        · next hfree =>
          refine ⟨place, last, hparent, hdots.1.1, hdots.1.2, hdots.2, Nat.not_lt.mp hsize, ?_,
            (Except.ok.inj h).symm⟩
          -- A directory would have been refused.
          rw [occupant, Ne, Entry.occupantAt_eq_directory_iff]
          rintro ⟨es, hes⟩
          exact hfree (by simp [hes, Entry.isDirectory])

theorem Keeps.resolveParent {x : Place × Option String} (h : Keeps d d')
    (hparent : d.resolveParent path = .ok x) : d'.resolveParent path = .ok x := by
  rw [Disk.resolveParent] at hparent ⊢
  split at hparent
  · cases hparent
  · split at hparent
    · exact hparent
    · next last before hdrop =>
      split at hparent
      · cases hparent
      · next middle hfollow =>
        split at hparent
        · cases hparent
        · next there hstep =>
          -- The way to the parent is there in both.
          rw [h.start_eq, h.follow hfollow]
          simp only [h.step hstep]
          exact hparent

/-- Writing what a file holds already changes nothing. -/
theorem writeText_of_occupant (h : d.resolveParent path = .ok (place, some last)) (hhere : last ≠ ".")
    (hup : last ≠ "..") (hslash : path.toList.getLast? ≠ some '/')
    (hsize : last.utf8ByteSize ≤ nameLimit)
    (hfile : d.occupant (place ++ [last]) = .file (.text text)) : d.writeText path text = .ok d := by
  have hat : d.root.at? (place ++ [last]) = some (.file (.text text)) :=
    Entry.occupantAt_eq_file_iff.mp hfile
  have hsize' : ¬ last.utf8ByteSize > nameLimit := Nat.not_lt.mpr hsize
  simp [writeText, h, hhere, hup, hslash, hsize', hat, Entry.isDirectory, put_eq_self hat]

/-! ## Writing a report -/

/-- `d'` is `d` with a file at a place, to which a path leads and which holds a text, and with
directories that were missing above it. -/
structure Written (path text : String) (place : Place) (d d' : Disk) : Prop where
  leads : d'.resolve path = .ok place
  content : d'.occupant place = .file (.text text)
  /-- Nothing was there before, or a file. -/
  free : d.occupant place ≠ .directory
  /-- Whatever else is new is a directory to which a path above the path of the file leads. -/
  others : ∀ p, p ≠ place → d'.occupant p = d.occupant p ∨
    d.occupant p = .nothing ∧ d'.occupant p = .directory ∧
      ∃ above ∈ (ancestors path).tail, d'.resolve above = .ok p
  /-- Whatever is new or changed has one of the names of the path. -/
  named : ∀ p, d'.occupant p ≠ d.occupant p → ∃ name ∈ names path, p.getLast? = some name
  extension : extension? place.toPath = extension? path
  workingDirectory : d'.workingDirectory = d.workingDirectory
  proper : d.root.Proper → d'.root.Proper

/-- Makes the directories above a path that are missing. -/
def makeAbove (d : Disk) (path : String) : Disk × Option DiskFault :=
  match parent? path with
  | some parent => if parent.isEmpty then (d, none) else d.makeDirectories parent
  | none => (d, none)

/-- What a change of a disk comes to: the disk after it, or the disk as it was and what went wrong. -/
def orFault (d : Disk) : Except DiskFault Disk → Disk × Option DiskFault
  | .ok d' => (d', none)
  | .error fault => (d, some fault)

/-- Writes a file, unless something has gone wrong before. -/
def writeUnless (path text : String) (d : Disk) : Option DiskFault → Disk × Option DiskFault
  | some fault => (d, some fault)
  | none => d.orFault (d.writeText path text)

theorem writeReport_eq (d : Disk) (path text : String) : CommandLine.writeReport d path text =
    writeUnless path text (d.makeAbove path).1 (d.makeAbove path).2 := by
  rw [CommandLine.writeReport, makeAbove]
  cases parent? path with
  | none =>
    simp only [writeUnless]
    cases d.writeText path text <;> rfl
  | some parent =>
    -- The parent of a bare name is the empty path, for which nothing is made.
    by_cases hempty : parent.isEmpty = true
    · simp only [hempty, if_true, writeUnless]
      cases d.writeText path text <;> rfl
    · simp only [hempty]
      rcases d.makeDirectories parent with ⟨middle, _ | fault⟩
      · simp only [Bool.false_eq_true, if_false, writeUnless]
        cases middle.writeText path text <;> rfl
      · rfl

theorem writeReport_of_fault {middle : Disk} {fault : DiskFault}
    (h : d.makeAbove path = (middle, some fault)) (text : String) :
    CommandLine.writeReport d path text = (middle, some fault) := by
  rw [writeReport_eq, h]
  rfl

theorem writeReport_of_makeAbove {middle : Disk} (h : d.makeAbove path = (middle, none))
    (text : String) :
    CommandLine.writeReport d path text = middle.orFault (middle.writeText path text) := by
  rw [writeReport_eq, h]
  rfl

theorem addsDirectories_makeAbove {fault? : Option DiskFault}
    (h : d.makeAbove path = (d', fault?)) : AddsDirectories (ancestors path).tail d d' := by
  rw [makeAbove] at h
  split at h
  · next parent hparent =>
    split at h
    · cases h
      exact .refl _ d
    · rw [ancestors_of_parent? hparent]
      simpa [h] using (makesDirectories d parent).adds
  · cases h
    exact .refl _ d

/-- Directories that have been made above a path are not made again. -/
theorem makeAbove_of_keeps {d'' : Disk} (h : d.makeAbove path = (d', none)) (hkeeps : Keeps d' d'') :
    d''.makeAbove path = (d'', none) := by
  rw [makeAbove] at h ⊢
  split at h
  · next parent hparent =>
    split at h
    · next hempty => simp [hempty]
    · next hempty =>
      have hmade := makesDirectories d parent
      rw [h] at hmade
      have hdir := hkeeps.isDirectory (hmade.leads rfl)
      simp [hempty, makeDirectories_of_isDirectory hdir]
  · rfl

/-- A file that has been written lies where its path leads, nothing else has changed, and writing it
again changes nothing. -/
theorem written_of_writeText (h : d.writeText path text = .ok d') :
    ∃ place, Written path text place d d' ∧ d'.writeText path text = .ok d' := by
  obtain ⟨here, last, hparent, hhere, hup, hslash, hsize, hfree, rfl⟩ := writeText_eq_ok h
  obtain ⟨before, after, hsegments, hempty, hafter, _, _, hdir⟩ :=
    segments_of_resolveParent hparent
  have hput := occupant_put hdir hfree (Entry.isLeaf_file (.text text))
  have hkeeps : Keeps d (d.put (here ++ [last]) (.file (.text text))) :=
    keeps_put hdir hfree (Entry.isLeaf_file _) fun _ _ => ⟨_, rfl⟩
  have hnew : (d.put (here ++ [last]) (.file (.text text))).occupant (here ++ [last]) =
      .file (.text text) := by
    rw [hput, if_pos rfl]
    rfl
  have hsome : (d.put (here ++ [last]) (.file (.text text))).occupant (here ++ [last]) ≠
      .nothing := by
    rw [hnew]
    exact Occupant.noConfusion
  -- Nothing comes behind the last segment, so that the place and the path have its extension.
  have hextension : extension? (Place.toPath (here ++ [last])) = extension? path := by
    rw [eq_nil_of_segments hsegments hafter hslash] at hsegments
    have hlast : '/' ∉ last.toList := slash_not_mem_of_mem_segments (by rw [hsegments]; simp)
    obtain ⟨before', hsegments'⟩ := exists_segments_toPath here hlast
    rw [extension?, extension?, fileName?_of_segments hsegments hempty hhere hup,
      fileName?_of_segments hsegments' hempty hhere hup]
  refine ⟨here ++ [last], ⟨?_, hnew, hfree, ?_, ?_, hextension, rfl, ?_⟩, ?_⟩
  · exact resolve_of_resolveParent hparent hhere hup hsize hkeeps (Or.inr ⟨hsome, hslash⟩)
  · intro p hp
    rw [hput, if_neg hp]
    exact Or.inl rfl
  · intro p hp
    obtain rfl : p = here ++ [last] := by
      by_contra hne
      rw [hput, if_neg hne] at hp
      exact hp rfl
    exact ⟨last, mem_names_of_resolveParent hparent hhere, by simp⟩
  · exact fun hd => hd.put (.file _) _
  · exact writeText_of_occupant (hkeeps.resolveParent hparent) hhere hup hslash hsize hnew

namespace Written

theorem keeps (h : Written path text place d d') : Keeps d d' := by
  refine ⟨?_, ?_, h.workingDirectory⟩
  · intro p hp
    have hne : p ≠ place := fun heq => h.free (heq ▸ hp)
    rcases h.others p hne with hsame | ⟨hnothing, _⟩
    · rw [hsame, hp]
    · rw [hnothing] at hp
      cases hp
  · intro p c hp
    by_cases hplace : p = place
    · exact ⟨_, hplace ▸ h.content⟩
    · rcases h.others p hplace with hsame | ⟨hnothing, _⟩
      · exact ⟨c, by rw [hsame, hp]⟩
      · rw [hnothing] at hp
        cases hp

/-- The directories above a report may be new as well. -/
theorem of_addsDirectories {middle : Disk}
    (hadds : AddsDirectories (ancestors path).tail d middle)
    (h : Written path text place middle d') : Written path text place d d' := by
  refine ⟨h.leads, h.content, fun hd => h.free (hadds.keeps.directory _ hd), ?_, ?_, h.extension,
    h.workingDirectory.trans hadds.workingDirectory, fun hd => h.proper (hadds.proper hd)⟩
  · intro p hp
    rcases hadds.occupant p with hsame | ⟨hnothing, hdir, above, habove, hresolve, _⟩
    · rw [← hsame]
      exact h.others p hp
    · exact Or.inr ⟨hnothing, h.keeps.directory p hdir, above, habove, h.keeps.resolve hresolve⟩
  · intro p hp
    rcases hadds.occupant p with hsame | ⟨_, _, above, habove, _, name, hname, hlast⟩
    · rw [← hsame] at hp
      exact h.named p hp
    · exact ⟨name, names_subset_of_mem_ancestors (List.mem_of_mem_tail habove) hname, hlast⟩

end Written

/-- A report that has been written lies where its path leads, what else is new are directories above
it, and writing it again changes nothing. -/
theorem written_of_writeReport (h : CommandLine.writeReport d path text = (d', none)) :
    ∃ place, Written path text place d d' ∧
      CommandLine.writeReport d' path text = (d', none) := by
  rcases hmade : d.makeAbove path with ⟨middle, _ | fault⟩
  · rw [writeReport_of_makeAbove hmade] at h
    cases hwrite : middle.writeText path text with
    | error fault =>
      rw [hwrite] at h
      cases h
    | ok written =>
      rw [hwrite] at h
      cases h
      obtain ⟨place, hwritten, hagain⟩ := written_of_writeText hwrite
      refine ⟨place, hwritten.of_addsDirectories (addsDirectories_makeAbove hmade), ?_⟩
      -- The second time the directories are there and the file holds the text.
      rw [writeReport_of_makeAbove (makeAbove_of_keeps hmade hwritten.keeps), hagain]
      rfl
  · rw [writeReport_of_fault hmade] at h
    cases h

end Disk

end ClassGauge
