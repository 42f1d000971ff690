import ClassGauge.Proofs.Disk.Following
import ClassGauge.Proofs.Runs

/-! # Where the settings of a project are searched

The search for settings goes up along the path text. For the text of a place these are the place and
all places above it. For a relative path they end at the working directory, whatever lies above, so
that the same directory may have other settings if it is given by a relative path.

* `Disk.settingsIn?`, `Disk.settingsFrom`: the settings of a directory, and those of the first of
  some directories that has any;
* `Disk.trail`, `projectSettings_eq_settingsFrom`: the directories in which a search looks;
* `trail_toPath`: for the text of a place these are the place and those above it;
* `findSome?_trail_relative`: for a relative path they end at the working directory;
* `projectSettings_relative`: when the two searches agree.
-/

namespace ClassGauge

open ClassGauge.Path

/-- The settings in an entry that is called as a settings file is. -/
def Entry.settings : Entry → Except SettingsError Settings
  | .directory _ => .error (.unreadable DiskFault.isADirectory.message)
  | .file (.binary _) => .error (.unreadable DiskFault.notText.message)
  | .file (.text source) =>
    match Settings.ofToml? source with
    | some settings => .ok settings
    | none => .error .malformed

theorem fileName_of_mem_settingsFileNames {name : String} (h : name ∈ settingsFileNames) :
    FileName name ∧ name.utf8ByteSize ≤ 18 := by
  rw [settingsFileNames, List.mem_pair] at h
  rcases h with rfl | rfl
  · exact ⟨by constructor <;> decide, by decide⟩
  · exact ⟨by constructor <;> decide, by decide⟩

namespace Disk

/-! ## The settings of directories -/

/-- The settings of a directory: those in the first of its settings files. -/
def settingsIn? (d : Disk) (directory : Place) : Option (Except SettingsError Settings) :=
  settingsFileNames.findSome? fun name => (d.root.at? (directory ++ [name])).map Entry.settings

/-- The settings of the first of some directories that has any, or else the default settings. -/
def settingsFrom (d : Disk) (directories : List Place) : Except SettingsError Settings :=
  (directories.findSome? d.settingsIn?).getD (.ok Settings.default)

variable {d : Disk} {path above : String} {q : Place}

/-- More directories behind others make no difference if one of the others has settings, or if the
settings that are found in the end are the default settings. -/
theorem settingsFrom_append_eq_iff (d : Disk) (xs ys : List Place) :
    d.settingsFrom xs = d.settingsFrom (xs ++ ys) ↔
      (∃ directory ∈ xs, (d.settingsIn? directory).isSome = true) ∨
        d.settingsFrom ys = .ok Settings.default := by
  rw [settingsFrom, settingsFrom, settingsFrom, List.findSome?_append, ← List.findSome?_isSome_iff]
  cases xs.findSome? d.settingsIn? with
  | none => simp [eq_comm]
  | some settings => simp

/-! ## The directories of a search -/

/-- The places to which the names of a path lead, all of them first and then without the last ones,
down to the place where the path starts. -/
def trail (d : Disk) (path : String) : List Place :=
  (Place.upward (names path)).filterMap fun ns => (d.follow (d.start path) ns).toOption

theorem findSome?_trail {β : Type} (d : Disk) (path : String) (g : Place → Option β) :
    (d.trail path).findSome? g = (Place.upward (names path)).findSome? fun ns =>
      (d.follow (d.start path) ns).toOption.bind g := by
  rw [trail, ← List.head?_filterMap, List.filterMap_filterMap, List.head?_filterMap]

theorem readSettings_eq_settings {e : Entry} (h : d.entry? path = some e) :
    d.readSettings path = e.settings := by
  unfold entry? at h
  rw [readSettings, readText]
  cases hresolve : d.resolve path with
  | error fault =>
    rw [hresolve] at h
    cases h
  | ok place =>
    rw [hresolve] at h
    simp only [h]
    cases e with
    | directory es => rfl
    | file c => cases c <;> rfl

/-- Looking for the first path that exists and reading the settings there is looking for the first
that leads to an entry. -/
theorem map_readSettings_find? (d : Disk) (paths : List String) :
    (paths.find? d.pathExists).map d.readSettings =
      paths.findSome? fun path => (d.entry? path).map Entry.settings := by
  rw [List.find?_eq_findSome?_guard, List.map_findSome?]
  apply findSome?_congr
  intro path _
  cases he : d.entry? path with
  | none => simp [Option.guard, pathExists, he]
  | some e => simp [Option.guard, pathExists, he, readSettings_eq_settings he]

/-- Below a path above `path` the search finds the settings of the directory to which its names
lead. -/
theorem find?_settingsFileNames (hnull : '\x00' ∉ path.toList)
    (hsize : path.utf8ByteSize + 19 ≤ pathLimit) (habove : Above path above) :
    ((settingsFileNames.map (join above)).find? d.pathExists).map d.readSettings =
      (d.follow (d.start path) (names above)).toOption.bind d.settingsIn? := by
  have hlength : above.utf8ByteSize ≤ path.utf8ByteSize := habove.utf8ByteSize_le
  have hentry : ∀ name ∈ settingsFileNames, d.entry? (join above name) =
      (d.follow (d.start path) (names above)).toOption.bind fun here =>
        d.root.at? (here ++ [name]) := by
    intro name hname
    obtain ⟨hfile, hname⟩ := fileName_of_mem_settingsFileNames hname
    rw [entry?_join hfile (habove.not_mem hnull) (by omega), start_of_above habove]
  rw [map_readSettings_find?, List.findSome?_map]
  cases hfollow : d.follow (d.start path) (names above) with
  | error fault =>
    -- The names lead nowhere, so there is no entry under any name.
    apply List.findSome?_eq_none_iff.mpr
    intro name hname
    rw [Function.comp_apply, hentry name hname, hfollow]
    rfl
  | ok here =>
    show _ = d.settingsIn? here
    rw [settingsIn?]
    apply findSome?_congr
    intro name hname
    rw [Function.comp_apply, hentry name hname, hfollow]
    rfl

/-- The settings of a project are those of the directories to which the names of its path lead. -/
theorem projectSettings_eq_settingsFrom (hdir : d.isFile path = false)
    (hnull : '\x00' ∉ path.toList) (hsize : path.utf8ByteSize + 19 ≤ pathLimit) :
    d.projectSettings path = d.settingsFrom (d.trail path) := by
  have hsearch : (d.findSettingsFile? path).map d.readSettings =
      (d.trail path).findSome? d.settingsIn? := by
    rw [findSettingsFile?, settingsStart?, hdir, if_neg Bool.false_ne_true, Option.bind_some,
      List.find?_flatMap, List.map_findSome?, findSome?_trail]
    refine findSome?_of_forall₂ (forall₂_ancestors path) ?_
    rintro above ns ⟨habove, rfl⟩
    exact find?_settingsFileNames hnull hsize habove
  rw [settingsFrom, ← hsearch, projectSettings]
  cases d.findSettingsFile? path <;> rfl

/-! ## The text of a place -/

/-- For the text of a directory's place the search looks in this place and in all places above. -/
theorem trail_toPath (hq : ∀ name ∈ q, FileName name) {es : List (String × Entry)}
    (hdir : d.root.at? q = some (.directory es)) : d.trail q.toPath = Place.upward q := by
  have hstart : d.start q.toPath = [] := by
    rw [start, isAbsolute_toPath, if_pos rfl]
  have hlead : ∀ ns ∈ Place.upward q, (d.follow [] ns).toOption = some ns := by
    intro ns hns
    obtain ⟨below, rfl⟩ := Place.mem_upward.mp hns
    rw [Entry.at?_append] at hdir
    obtain ⟨x, hx, _⟩ := Option.bind_eq_some_iff.mp hdir
    have hnames : ∀ name ∈ ns, FileName name := fun name hname =>
      hq name (List.mem_append_left _ hname)
    have hfollow : d.follow [] ns = .ok ([] ++ ns) := follow_of_at? hnames hx
    rw [hfollow]
    rfl
  rw [trail, names_toPath hq, hstart, List.filterMap_congr hlead, List.filterMap_some]

/-- A directory that is given by the text of its place has the settings of the nearest directory that
has any, from this place up to the root. -/
theorem projectSettings_toPath (hq : ∀ name ∈ q, FileName name) {es : List (String × Entry)}
    (hdir : d.root.at? q = some (.directory es)) (hsize : q.toPath.utf8ByteSize + 19 ≤ pathLimit) :
    d.projectSettings q.toPath = d.settingsFrom (Place.upward q) := by
  have hresolve : d.resolve q.toPath = .ok q := resolve_toPath hq hdir (by omega)
  have hfile : d.isFile q.toPath = false := by
    rw [isFile, entry?, hresolve]
    simp [hdir, Entry.isDirectory]
  rw [projectSettings_eq_settingsFrom hfile (null_not_mem_toPath hq) hsize, trail_toPath hq hdir]

/-! ## Relative paths -/

/-- Names that lead nowhere make no difference to a search on the way up. -/
theorem findSome?_upward_filter {β : Type} (p : String → Bool) (g : Place → Option β)
    (ns : List String) :
    (Place.upward ns).findSome? (fun m => g (m.filter p)) =
      (Place.upward (ns.filter p)).findSome? g := by
  induction ns using List.reverseRecOn with
  | nil => rfl
  | append_singleton ns name ih =>
    rw [Place.upward_concat, List.findSome?_cons, ih, List.filter_append]
    cases hp : p name with
    | true =>
      rw [List.filter_cons_of_pos hp, List.filter_nil, Place.upward_concat, List.findSome?_cons]
    | false =>
      rw [List.filter_cons_of_neg (by simp [hp]), List.filter_nil, List.append_nil]
      -- The same place is asked twice in a row.
      rw [Place.upward_eq_cons_tail, List.findSome?_cons]
      cases g (ns.filter p) <;> rfl

/-- A directory is where the names of its path lead. -/
theorem follow_names_of_resolve {es : List (String × Entry)} (hq : d.resolve path = .ok q)
    (hdir : d.root.at? q = some (.directory es)) : d.follow (d.start path) (names path) = .ok q := by
  have hsegments : d.follow (d.start path) (segments path) = .ok q := by
    rw [resolve] at hq
    split at hq
    · cases hq
    · exact hq
  -- One more segment that means nothing takes both to the same place.
  have hmore := follow_names d (d.start path) path (List.cons_ne_nil "." [])
  have hhere : d.follow q ["."] = .ok q := by
    rw [follow, step_of_component? (i := 1) hdir rfl]
    rfl
  rw [follow_append, follow_append, hsegments] at hmore
  replace hmore : d.follow q ["."] =
    (d.follow (d.start path) (names path)).bind (d.follow · ["."]) := hmore
  rw [hhere] at hmore
  cases hnames : d.follow (d.start path) (names path) with
  | error fault =>
    rw [hnames] at hmore
    cases hmore
  | ok place =>
    rw [hnames] at hmore
    have hplace : q = place ++ ["."].filter (· ≠ ".") :=
      follow_eq_append (by simp) (Eq.symm hmore)
    rw [hplace]
    simp

section Relative

variable {es : List (String × Entry)} (hrelative : isAbsolute path = false)
  (hq : d.resolve path = .ok q) (hdir : d.root.at? q = some (.directory es))
  (hup : ".." ∉ names path)

include hrelative hq hdir hup

/-- Each beginning of the names of a relative path that does not lead up leads to a place below the
working directory. -/
theorem follow_beginning {ns : List String} (hns : ns <+: names path) :
    d.follow (d.start path) ns = .ok (d.workingDirectory ++ ns.filter (· ≠ ".")) := by
  have hstart : d.start path = d.workingDirectory := by
    rw [start, hrelative, if_neg Bool.false_ne_true]
  have hfollow := follow_names_of_resolve hq hdir
  obtain ⟨rest, hrest⟩ := hns
  have hmeans : ∀ name ∈ ns, name ≠ "" ∧ name ≠ ".." := by
    intro name hname
    have hmem : name ∈ names path := hrest ▸ List.mem_append_left rest hname
    exact ⟨ne_empty_of_mem_names hmem, fun heq => hup (heq ▸ hmem)⟩
  -- The whole way can be followed, so its beginning can.
  rw [← hrest, follow_append, hstart] at hfollow
  rw [hstart]
  cases hplace : d.follow d.workingDirectory ns with
  | error fault =>
    rw [hplace] at hfollow
    cases hfollow
  | ok place => rw [follow_eq_append hmeans hplace]

/-- A directory given by a relative path that does not lead up lies below the working directory. -/
theorem eq_workingDirectory_append :
    q = d.workingDirectory ++ (names path).filter (· ≠ ".") := by
  have hfollow := follow_names_of_resolve hq hdir
  rw [follow_beginning hrelative hq hdir hup List.prefix_rfl] at hfollow
  exact (Except.ok.inj hfollow).symm

/-- For a relative path that does not lead up, the search looks in the directory, in those above it
and in the working directory, and no further. -/
theorem findSome?_trail_relative {β : Type} (g : Place → Option β) :
    (d.trail path).findSome? g =
      ((Place.upward ((names path).filter (· ≠ "."))).map (d.workingDirectory ++ ·)).findSome? g := by
  rw [findSome?_trail, List.findSome?_map, ← findSome?_upward_filter]
  apply findSome?_congr
  intro ns hns
  rw [follow_beginning hrelative hq hdir hup (Place.mem_upward.mp hns)]
  rfl

end Relative

end Disk

open Disk

/-- Where the settings of a project are searched if its directory is given by a relative path. The
search takes the settings of the nearest directory that has any among those to which the path leads
as it is and without its last names; if the path is the text of the place, these are the place and
all places above it. If the relative path does not lead up, the directories of the search are those
from the project up to the working directory. So the relative path gives the settings that the text
of the place gives exactly if one of these directories has settings, or if the directories above the
working directory give none but the default settings. -/
theorem projectSettings_relative {d : Disk} {path : String} {q : Place}
    {es : List (String × Entry)} (hrelative : isAbsolute path = false)
    (hq : d.resolve path = .ok q) (hdir : d.root.at? q = some (.directory es))
    (hnames : ∀ name ∈ q, FileName name) (hsize : path.utf8ByteSize + 19 ≤ pathLimit)
    (hsize' : q.toPath.utf8ByteSize + 19 ≤ pathLimit) :
    d.projectSettings path = d.settingsFrom (d.trail path) ∧
    d.projectSettings q.toPath = d.settingsFrom (Place.upward q) ∧
    (".." ∉ names path → ∃ below, q = d.workingDirectory ++ below ∧
      d.projectSettings path =
        d.settingsFrom ((Place.upward below).map (d.workingDirectory ++ ·)) ∧
      (d.projectSettings path = d.projectSettings q.toPath ↔
        (∃ directory ∈ (Place.upward below).map (d.workingDirectory ++ ·),
          (d.settingsIn? directory).isSome = true) ∨
        d.settingsFrom (Place.upward d.workingDirectory).tail = .ok Settings.default)) := by
  have hfile : d.isFile path = false := by
    rw [isFile, entry?, hq]
    simp [hdir, Entry.isDirectory]
  have hnull : '\x00' ∉ path.toList := by
    intro hmem
    rw [resolve, pathFault?, if_pos (by simpa using hmem)] at hq
    cases hq
  -- Both searches go through places, each with the settings that lie there.
  have hsearch := projectSettings_eq_settingsFrom hfile hnull hsize
  have htext := projectSettings_toPath hnames hdir hsize'
  refine ⟨hsearch, htext, ?_⟩
  intro hup
  have hplace := eq_workingDirectory_append hrelative hq hdir hup
  have hbelow : d.projectSettings path = d.settingsFrom
      ((Place.upward ((names path).filter (· ≠ "."))).map (d.workingDirectory ++ ·)) := by
    rw [hsearch, settingsFrom, findSome?_trail_relative hrelative hq hdir hup, settingsFrom]
  refine ⟨_, hplace, hbelow, ?_⟩
  -- The absolute search goes on where the relative one ends.
  rw [hbelow, htext, hplace, Place.upward_append]
  exact settingsFrom_append_eq_iff d _ _

/-- A settings file that says where the report goes. -/
def reportSettings : Entry :=
  .file (.text "[output]\npath = \"report.json\"\n")

/-- A disk with settings in a directory below the working directory. -/
def settingsBelow : Disk :=
  ⟨.directory [("w", .directory [("pkg", .directory
    [(".classmetrics.toml", reportSettings), ("core", .directory [])])])], ["w"]⟩

/-- Settings in the directory above a project are found by a relative path as well if they lie below
the working directory. -/
theorem projectSettings_relative_settingsBelow :
    settingsBelow.resolve "pkg/core" = .ok ["w", "pkg", "core"] ∧
    (settingsBelow.settingsIn? ["w", "pkg"]).isSome = true ∧
    settingsBelow.projectSettings "pkg/core" = settingsBelow.projectSettings "/w/pkg/core" := by
  have hresolve : settingsBelow.resolve "pkg/core" = .ok ["w", "pkg", "core"] := rfl
  have hsettings : (settingsBelow.settingsIn? ["w", "pkg"]).isSome = true := rfl
  have hname : FileName "w" ∧ FileName "pkg" ∧ FileName "core" := by
    refine ⟨?_, ?_, ?_⟩ <;> constructor <;> decide
  have hnames : ∀ name ∈ ["w", "pkg", "core"], FileName name := by
    simpa using hname
  have hrelative : isAbsolute "pkg/core" = false := by decide
  have hsearch := projectSettings_relative hrelative hresolve rfl hnames (by decide) (by decide)
  obtain ⟨below, hbelow, _, hiff⟩ := hsearch.2.2 (by decide)
  have hnested : ["pkg", "core"] = below := (List.cons.inj hbelow).2
  -- There are settings between the project and the working directory.
  refine ⟨hresolve, hsettings, hiff.mpr (Or.inl ⟨["w", "pkg"], ?_, hsettings⟩)⟩
  rw [← hnested]
  decide

/-- A disk with settings in the directory above the working directory. -/
def settingsAbove : Disk :=
  ⟨.directory [(".classmetrics.toml", reportSettings), ("pkg", .directory [])], ["pkg"]⟩

/-- The working directory has the default settings if it is given as `.`, and other settings if it is
given by the text of its place. -/
theorem projectSettings_relative_settingsAbove :
    settingsAbove.resolve "." = .ok ["pkg"] ∧
    settingsAbove.projectSettings "." = .ok Settings.default ∧
    settingsAbove.projectSettings "/pkg" =
      .ok { Settings.default with outputPath := "report.json" } ∧
    settingsAbove.projectSettings "." ≠ settingsAbove.projectSettings "/pkg" := by
  have hread : Settings.ofToml? "[output]\npath = \"report.json\"\n" =
      some { Settings.default with outputPath := "report.json" } := by decide +kernel
  have hnone : settingsAbove.findSettingsFile? "." = none := rfl
  have hfound : settingsAbove.findSettingsFile? "/pkg" = some "/.classmetrics.toml" := rfl
  have htext : settingsAbove.readText "/.classmetrics.toml" =
      .ok "[output]\npath = \"report.json\"\n" := rfl
  have hhere : settingsAbove.projectSettings "." = .ok Settings.default := by
    rw [projectSettings, hnone]
  have habove : settingsAbove.projectSettings "/pkg" =
      .ok { Settings.default with outputPath := "report.json" } := by
    rw [projectSettings, hfound]
    simp only [readSettings, htext, hread]
  refine ⟨rfl, hhere, habove, ?_⟩
  rw [hhere, habove]
  -- The settings differ in where the report goes.
  intro heq
  have hpath := congrArg Settings.outputPath (Except.ok.inj heq)
  revert hpath
  decide

end ClassGauge
