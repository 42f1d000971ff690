import ClassGauge.Project.Discovery
import ClassGauge.Proofs.Disk.Tree

/-! # Which files are discovered

The walk leaves out directories by their names and then filters the files it meets. What is left are
the source files that are selected and do not lie below an ignored directory, and the walk lists them
in the order of their places.

* `isIgnoredDirectory_eq_false_iff`: which directories are walked;
* `mem_discover_directory`: which files a project has;
* `discover_source_files`: which files, each once, and in which order.
-/

namespace ClassGauge

open Syntax

/-- Directories are walked unless they hold installed packages or are hidden. -/
theorem isIgnoredDirectory_eq_false_iff {name : String} :
    isIgnoredDirectory name = false ↔ name ≠ "node_modules" ∧ name.toList.head? ≠ some '.' := by
  simp [isIgnoredDirectory]

/-- A file is wanted if it is a source file and its path below the project is selected. -/
theorem isWanted_iff {selection : Selection} {root relative : Place} :
    isWanted selection root relative = true ↔
      (Dialect.ofPath? (root ++ relative).toPath).isSome = true ∧
        selection.selects ("/".intercalate relative) = true := by
  rw [isWanted, Bool.and_eq_true]

section Directory

variable {d : Disk} (hd : d.root.Proper) {root : Place} {es : List (String × Entry)}
  (hroot : d.root.at? root = some (.directory es)) (selection : Selection)

include hd hroot

/-- The files of a project are the wanted files below its root that do not lie below an ignored
directory. What the root and the directories above it are called makes no difference. -/
theorem mem_discover_directory {place : Place} :
    place ∈ discover selection root (.directory es) ↔
      ∃ relative, place = root ++ relative ∧ (∃ c, d.root.at? place = some (.file c)) ∧
        (Dialect.ofPath? place.toPath).isSome = true ∧
        selection.selects ("/".intercalate relative) = true ∧
        ∀ name ∈ relative.dropLast, name ≠ "node_modules" ∧ name.toList.head? ≠ some '.' := by
  -- Places below the project are places of the disk once the way to the project is put in front.
  have hbelow : ∀ relative, d.root.at? (root ++ relative) = (Entry.directory es).at? relative := by
    intro relative
    rw [Entry.at?_append, hroot, Option.bind_some]
  simp only [discover, List.mem_map, List.mem_filter, mem_filePlaces (hd.at? hroot), isWanted_iff,
    isIgnoredDirectory_eq_false_iff]
  constructor
  · rintro ⟨relative, ⟨⟨hfile, hnames⟩, hsource, hselected⟩, rfl⟩
    rw [← hbelow] at hfile
    exact ⟨relative, rfl, hfile, hsource, hselected, hnames⟩
  · rintro ⟨relative, rfl, hfile, hsource, hselected, hnames⟩
    rw [hbelow] at hfile
    exact ⟨relative, ⟨⟨hfile, hnames⟩, hsource, hselected⟩, rfl⟩

/-- The files of a project are listed in the order of their places, compared name by name. -/
theorem pairwise_discover_directory :
    (discover selection root (.directory es)).Pairwise (· < ·) := by
  have hwalk : ((Entry.directory es).filePlaces isIgnoredDirectory).Pairwise (· < ·) :=
    pairwise_filePlaces (hd.at? hroot)
  rw [discover, List.pairwise_map]
  refine (hwalk.filter _).imp ?_
  intro p q hpq
  exact List.append_left_lt hpq

/-- The files of a project that is a directory of a proper tree are exactly the files below it that
have the extension of a source file, whose path below the project is selected, and that lie in no
directory below the project that holds installed packages or is hidden. Every file is listed once,
and the list ascends strictly when places are compared name by name. -/
theorem discover_source_files :
    (∀ place, place ∈ discover selection root (.directory es) ↔
      ∃ relative, place = root ++ relative ∧ (∃ c, d.root.at? place = some (.file c)) ∧
        (Dialect.ofPath? place.toPath).isSome = true ∧
        selection.selects ("/".intercalate relative) = true ∧
        ∀ name ∈ relative.dropLast, name ≠ "node_modules" ∧ name.toList.head? ≠ some '.') ∧
    (discover selection root (.directory es)).Nodup ∧
    (discover selection root (.directory es)).Pairwise (· < ·) := by
  have hsorted := pairwise_discover_directory hd hroot selection
  refine ⟨fun place => mem_discover_directory hd hroot selection, ?_, hsorted⟩
  refine hsorted.imp ?_
  intro p q hpq heq
  exact List.lt_irrefl p (heq ▸ hpq)

end Directory

/-- What a project holds: source files, one of them hidden, some of them in directories, one of
these hidden as well, and a file of another kind. -/
def mixedEntries : List (String × Entry) :=
  let file : Entry := .file (.text "")
  [("a.ts", file), ("a", .directory [("b.ts", file)]), (".git", .directory [("c.ts", file)]),
    (".d.ts", file), ("notes.md", file)]

/-- A disk on which a hidden directory holds the project. -/
def hiddenProject : Disk :=
  ⟨.directory [(".app", .directory mixedEntries)], []⟩

/-- Every file is selected. -/
def everyFile : Selection :=
  ⟨[[.anySequence]], [], true, ""⟩

theorem discover_mixedEntries :
    discover everyFile [".app"] (.directory mixedEntries) =
      [[".app", ".d.ts"], [".app", "a", "b.ts"], [".app", "a.ts"]] := by
  have hentries : entryPlaces isIgnoredDirectory mixedEntries = [("a.ts", [["a.ts"]]),
      ("a", [["a", "b.ts"]]), (".git", []), (".d.ts", [[".d.ts"]]), ("notes.md", [["notes.md"]])] := by
    simp [mixedEntries, entryPlaces, Entry.filePlaces, isIgnoredDirectory, Entry.isDirectory]
  have hsorted : ((entryPlaces isIgnoredDirectory mixedEntries).mergeSort fun a b => a.1 ≤ b.1) =
      [(".d.ts", [[".d.ts"]]), (".git", []), ("a", [["a", "b.ts"]]), ("a.ts", [["a.ts"]]),
        ("notes.md", [["notes.md"]])] :=
    mergeSort_eq_of_perm Prod.fst (by rw [hentries]; decide) (by decide)
  rw [discover, Entry.filePlaces, hsorted]
  rfl

/-- The project itself may be hidden, and so may files; the file in the hidden directory is left
out. The file `a/b.ts` comes before `a.ts`, which the plain order of texts has the other way
round. -/
theorem discover_source_files_hiddenProject :
    hiddenProject.root.Proper ∧
    hiddenProject.root.at? [".app"] = some (.directory mixedEntries) ∧
    discover everyFile [".app"] (.directory mixedEntries) =
      [[".app", ".d.ts"], [".app", "a", "b.ts"], [".app", "a.ts"]] ∧
    (discover everyFile [".app"] (.directory mixedEntries)).Pairwise (· < ·) ∧
    [".app", ".git", "c.ts"] ∉ discover everyFile [".app"] (.directory mixedEntries) := by
  have hfile : (Entry.file (.text "")).Proper := .file _
  have hentries : ∀ x ∈ mixedEntries, x.2.Proper := by
    simp [mixedEntries, hfile, Entry.Proper.directory]
  have hproper : hiddenProject.root.Proper := by
    refine .directory (by decide) ?_
    intro x hx
    rw [List.mem_singleton.mp hx]
    exact .directory (by decide) hentries
  have hroot : hiddenProject.root.at? [".app"] = some (.directory mixedEntries) := rfl
  have hdiscover := discover_source_files hproper hroot everyFile
  refine ⟨hproper, hroot, discover_mixedEntries, hdiscover.2.2, ?_⟩
  intro hmem
  -- The project itself may be hidden, but no directory in it.
  obtain ⟨relative, hplace, _, _, _, hnames⟩ := (hdiscover.1 _).mp hmem
  have hrelative : relative = [".git", "c.ts"] := List.append_cancel_left hplace.symm
  have hgit := hnames ".git" (by simp [hrelative])
  exact hgit.2 rfl

end ClassGauge
