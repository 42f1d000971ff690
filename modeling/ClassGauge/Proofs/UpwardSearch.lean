import ClassGauge.Proofs.SettingsSearch

/-! # The search up the directory tree

The settings of a project are searched in a loop that has no bound of its own: it looks for two names
in a directory and goes on with the parent of its path. It ends at the root, whatever lies on the disk,
and the first file in its way decides, even if no settings can be read from it.

* `Disk.Searches`: the loop and where it ends;
* `searches_iff`: it ends with the first of the settings files on the way up;
* `Place.settingsPlaces`, `forall₂_settingsFiles`: the places of these files, in their order;
* `entry?_join_eq_at?`: what the text of such a path leads to lies at the place;
* `projectSettings_of_absolute`: the settings of a project given by an absolute path.
-/

namespace ClassGauge

open ClassGauge.Path

namespace Path

variable {path name : String}

/-- The settings files that a search looks for, from a directory up: both names in each of the
directories. -/
def settingsFiles (path : String) : List String :=
  (ancestors path).flatMap fun directory => settingsFileNames.map (join directory)

/-- A name below a path comes behind the names of the path. -/
theorem names_join (path : String) (h : FileName name) :
    names (join path name) = names path ++ [name] := by
  have hnames : ∀ before, names (before ++ "/" ++ name) = names before ++ [name] := by
    intro before
    rw [names, names, components_eq, components_eq, segments_append_slash, h.segments_eq,
      List.zipIdx_append, List.filterMap_append, List.map_append]
    simp [component?, h.ne_empty, h.ne_here]
  rcases join_cases path h with ⟨rfl, hjoin⟩ | ⟨before, rfl, hjoin⟩ | ⟨_, hjoin⟩
  · rw [hjoin, names, components_eq, h.segments_eq]
    simp [component?, h.ne_empty, h.ne_here]
  · rw [hjoin, hnames, names_append_slash]
  · rw [hjoin, hnames]

/-- A segment `.` means nothing in an absolute path. -/
theorem here_not_mem_names (h : isAbsolute path = true) : "." ∉ names path := by
  rcases (above_start path).beginning with ⟨rest, hrest⟩
  rw [if_pos h] at hrest
  have hsegments : segments path = "" :: segments rest := by
    rw [hrest]
    exact segments_append_slash "" rest
  intro hmem
  rcases List.mem_map.mp hmem with ⟨_, hx, hname⟩
  rw [components_eq, hsegments, List.mem_filterMap] at hx
  rcases hx with ⟨x, hx, hcomponent⟩
  rcases component?_eq_some hcomponent with ⟨rfl, hne⟩
  replace hname : x.1 = "." := hname
  rcases List.mem_cons.mp hx with rfl | hx
  · exact hne rfl
  · -- Only at the start of a path does the segment count.
    have hindex := List.le_snd_of_mem_zipIdx hx
    have hpositive : x.2 ≠ 0 := by omega
    simp [component?, hname, hpositive] at hcomponent

end Path

namespace Place

/-- The places of the settings files that a search from a place up looks for: those in the place, then
those in the place above it and so on up to the root, and in each of them both names in their order. -/
def settingsPlaces (start : Place) : List Place :=
  (upward start).flatMap fun directory => settingsFileNames.map fun name => directory ++ [name]

end Place

namespace Path

/-- The settings files on the way up from a path, one by one, and their places. -/
theorem forall₂_settingsFiles (path : String) :
    List.Forall₂ (fun file place => ∃ above name, file = join above name ∧
        place = names above ++ [name] ∧ name ∈ settingsFileNames ∧ Above path above ∧
        names above <+: names path)
      (settingsFiles path) (Place.settingsPlaces (names path)) := by
  have hbeginning : ∀ above ∈ ancestors path, names above <+: names path := by
    intro above habove
    rcases mem_of_forall₂ (forall₂_ancestors path) habove with ⟨ns, hns, _, rfl⟩
    exact Place.mem_upward.mp hns
  refine List.rel_flatMap ((List.forall₂_and_left _ _).mpr ⟨hbeginning, forall₂_ancestors path⟩) ?_
  rintro above _ ⟨hnames, habove, rfl⟩
  rw [List.forall₂_map_left_iff, List.forall₂_map_right_iff, List.forall₂_same]
  intro name hname
  exact ⟨above, name, rfl, rfl, hname, habove, hnames⟩

end Path

/-- An entry holds settings if it is a file with the text of settings. -/
theorem Entry.settings_eq_ok_iff {e : Entry} {settings : Settings} : e.settings = .ok settings ↔
    ∃ text, e = .file (.text text) ∧ Settings.ofToml? text = some settings := by
  cases e with
  | directory es => simp [Entry.settings]
  | file c =>
    cases c with
    | binary bytes => simp [Entry.settings]
    | text source =>
      rw [Entry.settings]
      cases hread : Settings.ofToml? source <;> simp [hread]

namespace Disk

variable {d : Disk} {path above name file : String} {found : Option String} {e : Entry}

/-! ## The loop -/

/-- The loop of a search, which begins with a path and ends with a file or with none: it ends if one of
the names is found in the directory, or else goes on with the parent of the path, and ends as well if
there is no parent. -/
inductive Searches (d : Disk) : String → Option String → Prop where
  | found {here file : String}
      (h : (settingsFileNames.map (join here)).find? d.pathExists = some file) :
      Searches d here (some file)
  | up {here above : String} {found : Option String}
      (hnone : (settingsFileNames.map (join here)).find? d.pathExists = none)
      (hparent : parent? here = some above) (hrest : Searches d above found) :
      Searches d here found
  | top {here : String}
      (hnone : (settingsFileNames.map (join here)).find? d.pathExists = none)
      (hparent : parent? here = none) : Searches d here none

/-- A search ends in one way only. -/
theorem Searches.unique {found' : Option String} (h : d.Searches path found)
    (h' : d.Searches path found') : found = found' := by
  induction h with
  | found h =>
    -- In each directory the search ends, goes up or stops at the top, and only one of these can be.
    cases h' with
    | found h' => rw [← h, h']
    | up hnone' => simp [h] at hnone'
    | top hnone' => simp [h] at hnone'
  | up hnone hparent _ ih =>
    cases h' with
    | found h' => simp [hnone] at h'
    | up _ hparent' hrest' =>
      rw [hparent, Option.some.injEq] at hparent'
      exact ih (hparent' ▸ hrest')
    | top _ hparent' => simp [hparent] at hparent'
  | top hnone hparent =>
    cases h' with
    | found h' => simp [hnone] at h'
    | up _ hparent' => simp [hparent] at hparent'
    | top => rfl

/-- The loop goes through the paths above a path as long as there are names left. -/
theorem searches_ancestorsFrom {fuel : Nat} (h : (names path).length ≤ fuel) :
    d.Searches path (((ancestorsFrom fuel path).flatMap fun directory =>
      settingsFileNames.map (join directory)).find? d.pathExists) := by
  induction fuel generalizing path with
  | zero =>
    -- A path without names has no parent, so the loop ends here as well.
    have hnil : names path = [] := List.eq_nil_of_length_eq_zero (Nat.le_zero.mp h)
    rw [ancestorsFrom, List.flatMap_singleton]
    cases hfind : (settingsFileNames.map (join path)).find? d.pathExists with
    | none => exact .top hfind (parent?_eq_none_iff.mpr hnil)
    | some file => exact .found hfind
  | succ fuel ih =>
    rw [ancestorsFrom, List.flatMap_cons, List.find?_append]
    cases hfind : (settingsFileNames.map (join path)).find? d.pathExists with
    | some file => exact .found hfind
    | none =>
      rw [Option.none_or]
      cases hparent : parent? path with
      | none => exact .top hfind hparent
      | some parent =>
        rcases above_of_parent? hparent with ⟨_, hnames⟩
        have hlength : (names parent).length ≤ fuel := by
          rw [hnames, List.length_dropLast]
          omega
        exact .up hfind hparent (ih hlength)

/-- The search ends with the first settings file on the way up that exists, or with none. -/
theorem searches_iff : d.Searches path found ↔ found = (settingsFiles path).find? d.pathExists := by
  have hends : d.Searches path ((settingsFiles path).find? d.pathExists) := by
    apply searches_ancestorsFrom
    rw [names, List.length_map]
    exact Nat.le_succ _
  constructor
  · intro h
    exact h.unique hends
  · rintro rfl
    exact hends

/-! ## Where the search begins -/

/-- What has no names is no file. -/
theorem names_ne_nil_of_isFile (h : d.isFile path = true) : names path ≠ [] := by
  intro hnil
  rw [isFile, entry?] at h
  cases hresolve : d.resolve path with
  | error fault => simp [hresolve] at h
  | ok place =>
    have hplace : d.follow (d.start path) [] = .ok place := hnil ▸ follow_names_eq_ok hresolve
    rw [follow, Except.ok.injEq] at hplace
    -- Whatever the segments are, they ask for a directory where the path starts.
    have hfile : ∀ es, d.root.at? (d.start path) ≠ some (.directory es) := by
      intro es hes
      simp [hresolve, ← hplace, hes, Entry.isDirectory] at h
    have herror := follow_of_not_directory hfile (segments_ne_nil path)
    rw [resolve] at hresolve
    split at hresolve
    · cases hresolve
    · rw [herror] at hresolve
      cases hresolve

/-- The search begins at the path itself, or at its parent if the path leads to a file. -/
theorem exists_settingsStart? (d : Disk) (path : String) : ∃ start,
    d.settingsStart? path = some start ∧ Above path start ∧
      names start = if d.isFile path then (names path).dropLast else names path := by
  rw [settingsStart?]
  cases hfile : d.isFile path with
  | false => exact ⟨path, rfl, Above.refl path, rfl⟩
  | true =>
    rw [if_pos rfl, if_pos rfl]
    cases hparent : parent? path with
    | none => exact absurd (parent?_eq_none_iff.mp hparent) (names_ne_nil_of_isFile hfile)
    | some parent => exact ⟨parent, rfl, above_of_parent? hparent⟩

/-! ## Texts and places -/

/-- Whatever lies on the disk is called by names that an entry can have. -/
def HasFileNames (d : Disk) : Prop :=
  ∀ place e, d.root.at? place = some e → ∀ name ∈ place, FileName name

/-- The text of a name below an absolute path that does not lead up leads to what lies at the place. -/
theorem entry?_join_eq_at? (hd : d.HasFileNames) (habsolute : isAbsolute above = true)
    (hup : ".." ∉ names above) (hname : FileName name) (hnull : '\x00' ∉ above.toList)
    (hsize : above.utf8ByteSize + 1 + name.utf8ByteSize ≤ pathLimit) :
    d.entry? (join above name) = d.root.at? (names above ++ [name]) := by
  have hstart : d.start above = [] := by rw [start, if_pos habsolute]
  rw [entry?_join hname hnull hsize, hstart]
  cases hfollow : d.follow [] (names above) with
  | ok here =>
    have hhere : here = [] ++ (names above).filter (· ≠ ".") := by
      refine follow_eq_append (fun n hn => ⟨ne_empty_of_mem_names hn, ?_⟩) hfollow
      rintro rfl
      exact hup hn
    have hkept : (names above).filter (· ≠ ".") = names above := by
      rw [List.filter_eq_self]
      intro n hn
      simpa using ne_of_mem_of_not_mem hn (here_not_mem_names habsolute)
    rw [hhere, hkept]
    rfl
  | error fault =>
    -- If there were an entry at the place, its names would lead there.
    cases hat : d.root.at? (names above ++ [name]) with
    | none => rfl
    | some e =>
      have hnames : ∀ n ∈ names above, FileName n := fun n hn =>
        hd _ _ hat n (List.mem_append_left _ hn)
      rw [Entry.at?_append] at hat
      rcases Option.bind_eq_some_iff.mp hat with ⟨x, hx, _⟩
      have hlead : d.follow [] (names above) = .ok ([] ++ names above) := follow_of_at? hnames hx
      rw [hfollow] at hlead
      cases hlead

/-! ## What the search finds -/

theorem findSettingsFile?_eq {start : String} (hstart : d.settingsStart? path = some start) :
    d.findSettingsFile? path = (settingsFiles start).find? d.pathExists := by
  rw [findSettingsFile?, hstart]
  rfl

theorem pathExists_eq_false_iff : d.pathExists path = false ↔ d.entry? path = none := by
  simp [pathExists]

/-- The first settings file that exists is the one that is found. -/
theorem findSettingsFile?_of_first {start : String} {before after : List String}
    (hstart : d.settingsStart? path = some start)
    (hsplit : settingsFiles start = before ++ file :: after)
    (hbefore : ∀ f ∈ before, d.entry? f = none) (he : d.entry? file = some e) :
    d.findSettingsFile? path = some file := by
  rw [findSettingsFile?_eq hstart, List.find?_eq_some_iff_append]
  refine ⟨by simp [pathExists, he], before, after, hsplit, ?_⟩
  intro f hf
  simpa [pathExists] using hbefore f hf

end Disk

open Disk

/-- The settings of a project that is given by an absolute path that does not lead up. The search begins
at the path, or at its parent if the path leads to a file, and it ends in exactly one way, whatever lies
on the disk. On its way it asks for the settings files in the place where it begins and in all places
above it up to the root, nearest place first, and in each place for both names in their order; a path
text asks for what lies at the place, as long as the system takes it. If none of these files exists the
settings are the default settings. Otherwise the first that exists decides: the settings are those that
are written in it, and there are none if it cannot be read or if it holds no settings, whatever the
others hold. -/
theorem projectSettings_of_absolute {d : Disk} {path : String} (habsolute : isAbsolute path = true)
    (hup : ".." ∉ names path) :
    ∃ start, d.settingsStart? path = some start ∧ isAbsolute start = true ∧
      names start = (if d.isFile path then (names path).dropLast else names path) ∧
      (∀ found, d.Searches start found ↔ found = d.findSettingsFile? path) ∧
      List.Forall₂ (fun file place => isAbsolute file = true ∧ names file = place ∧
          (d.HasFileNames → '\x00' ∉ path.toList → path.utf8ByteSize + 19 ≤ pathLimit →
            d.entry? file = d.root.at? place))
        (settingsFiles start) (Place.settingsPlaces (names start)) ∧
      (d.findSettingsFile? path = none ↔ ∀ file ∈ settingsFiles start, d.entry? file = none) ∧
      (d.findSettingsFile? path = none → d.projectSettings path = .ok Settings.default) ∧
      ∀ before file after e, settingsFiles start = before ++ file :: after →
        (∀ f ∈ before, d.entry? f = none) → d.entry? file = some e →
        d.findSettingsFile? path = some file ∧ d.projectSettings path = e.settings ∧
          ∀ settings, d.projectSettings path = .ok settings ↔
            ∃ text, e = .file (.text text) ∧ Settings.ofToml? text = some settings := by
  rcases exists_settingsStart? d path with ⟨start, hstart, habove, hnames⟩
  -- The search starts at the project or at the directory around a single file.
  have hupward : ".." ∉ names start := by
    intro hmem
    rw [hnames] at hmem
    split at hmem
    · exact hup (List.mem_of_mem_dropLast hmem)
    · exact hup hmem
  refine ⟨start, hstart, habove.absolute.trans habsolute, hnames, ?_, ?_, ?_, ?_, ?_⟩
  · intro found
    rw [searches_iff, findSettingsFile?_eq hstart]
  · refine (forall₂_settingsFiles start).imp ?_
    rintro _ _ ⟨above, name, rfl, rfl, hname, hbeyond, hbeginning⟩
    rcases fileName_of_mem_settingsFileNames hname with ⟨hfile, hlength⟩
    have hdirectory : isAbsolute above = true :=
      hbeyond.absolute.trans (habove.absolute.trans habsolute)
    refine ⟨(isAbsolute_join above hfile).trans hdirectory, names_join above hfile, ?_⟩
    intro hd hnull hsize
    -- Texts above are no longer than the path, so the names of settings files still fit.
    have hshorter := (habove.trans hbeyond).utf8ByteSize_le
    exact entry?_join_eq_at? hd hdirectory (fun hmem => hupward (hbeginning.subset hmem)) hfile
      ((habove.trans hbeyond).not_mem hnull) (by omega)
  · simp only [findSettingsFile?_eq hstart, List.find?_eq_none, Bool.not_eq_true,
      pathExists_eq_false_iff]
  · intro hnone
    rw [projectSettings, hnone]
  · intro before file after e hsplit hbefore he
    have hfound := findSettingsFile?_of_first hstart hsplit hbefore he
    have hsettings : d.projectSettings path = e.settings := by
      rw [projectSettings, hfound]
      exact readSettings_eq_settings he
    refine ⟨hfound, hsettings, fun settings => ?_⟩
    rw [hsettings, Entry.settings_eq_ok_iff]

/-- A disk with a directory that is called as a settings file is, between a project and settings. -/
def directoryBetween : Disk :=
  ⟨.directory [("w", .directory [(".classmetrics.toml", reportSettings),
    ("pkg", .directory [("classmetrics.toml", .directory []),
      ("core", .directory [("a.ts", .file (.text ""))])])])], []⟩

/-- A project that is a single file is searched from its directory, and the directory in the way ends
the search without settings. -/
theorem projectSettings_of_absolute_directoryBetween :
    isAbsolute "/w/pkg/core/a.ts" = true ∧ ".." ∉ names "/w/pkg/core/a.ts" ∧
    directoryBetween.findSettingsFile? "/w/pkg/core/a.ts" = some "/w/pkg/classmetrics.toml" ∧
    directoryBetween.projectSettings "/w/pkg/core/a.ts" =
      .error (.unreadable "Is a directory (os error 21)") := by
  have habsolute : isAbsolute "/w/pkg/core/a.ts" = true := by decide
  have hup : ".." ∉ names "/w/pkg/core/a.ts" := by decide
  obtain ⟨start, hstart, _, _, _, _, _, _, hfirst⟩ :=
    projectSettings_of_absolute (d := directoryBetween) habsolute hup
  have hcore : directoryBetween.settingsStart? "/w/pkg/core/a.ts" = some "/w/pkg/core" := rfl
  rw [hcore, Option.some.injEq] at hstart
  subst hstart
  -- Nothing lies at the candidates in front.
  have hnearer : ∀ file ∈ ["/w/pkg/core/.classmetrics.toml", "/w/pkg/core/classmetrics.toml",
      "/w/pkg/.classmetrics.toml"], directoryBetween.entry? file = none := by
    simp only [List.forall_mem_cons]
    exact ⟨rfl, rfl, rfl, List.forall_mem_nil _⟩
  obtain ⟨hfound, hsettings, _⟩ := hfirst
    ["/w/pkg/core/.classmetrics.toml", "/w/pkg/core/classmetrics.toml", "/w/pkg/.classmetrics.toml"]
    "/w/pkg/classmetrics.toml"
    ["/w/.classmetrics.toml", "/w/classmetrics.toml", "/.classmetrics.toml", "/classmetrics.toml"]
    (.directory []) (by decide) hnearer rfl
  exact ⟨habsolute, hup, hfound, hsettings⟩

end ClassGauge
