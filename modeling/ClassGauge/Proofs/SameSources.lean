import Mathlib.Data.List.Sort
import ClassGauge.Proofs.Disk.Occupant
import ClassGauge.Proofs.Project

/-! # Disks with the same source files

An analysis sees where the path of the project leads, which source files lie there and what they
hold. Two disks that agree on this have the same analysis, whatever else they hold.

* `SameSources`: agreement on the source files of a project;
* `SameSources.discover_eq`, `SameSources.analyzeProject_eq`: then the same files are discovered, and
  the analysis is the same.
-/

namespace ClassGauge

open Syntax

namespace Disk

/-- Whether the path of a place has the extension of a source file. -/
def IsSource (p : Place) : Prop :=
  (Dialect.ofPath? p.toPath).isSome = true

/-- `d'` has all that `d` has, the path of a project leads to the same place in both, and there are
source files at the same places; those that are discovered hold the same. -/
structure SameSources (selection : Selection) (path : String) (d d' : Disk) : Prop where
  keeps : Keeps d d'
  resolve : d'.resolve path = d.resolve path
  file : ∀ p, IsSource p → ((∃ c, d'.occupant p = .file c) ↔ ∃ c, d.occupant p = .file c)
  content : ∀ p ∈ d.discovered selection path, IsSource p → d'.occupant p = d.occupant p

namespace SameSources

variable {d d' : Disk} {selection : Selection} {path : String} {root : Place}
  {es es' : List (String × Entry)}

theorem exists_file_iff {d : Disk} {p : Place} :
    (∃ c, d.occupant p = .file c) ↔ ∃ c, d.root.at? p = some (.file c) := by
  simp only [occupant, Entry.occupantAt_eq_file_iff]

/-- The same files are discovered in a project that is a directory. -/
theorem discover_eq (h : SameSources selection path d d') (hd : d.root.Proper)
    (hd' : d'.root.Proper) (hroot : d.root.at? root = some (.directory es))
    (hroot' : d'.root.at? root = some (.directory es')) :
    discover selection root (.directory es') = discover selection root (.directory es) := by
  have hsorted := pairwise_discover_directory hd hroot selection
  have hsorted' := pairwise_discover_directory hd' hroot' selection
  -- Both lists ascend strictly, so they are the same if they have the same members.
  apply hsorted'.eq_of_mem_iff hsorted
  intro p
  rw [mem_discover_directory hd hroot, mem_discover_directory hd' hroot']
  refine exists_congr fun relative => and_congr_right fun _ => ?_
  constructor
  · rintro ⟨hfile, hsource, hrest⟩
    exact ⟨exists_file_iff.mp ((h.file p hsource).mp (exists_file_iff.mpr hfile)), hsource, hrest⟩
  · rintro ⟨hfile, hsource, hrest⟩
    exact ⟨exists_file_iff.mp ((h.file p hsource).mpr (exists_file_iff.mpr hfile)), hsource, hrest⟩

/-- Files that are discovered in both are loaded alike. -/
theorem filterMap_loadFile_eq (parse : Parser) {places : List Place}
    (hsame : ∀ p ∈ places, d'.occupant p = d.occupant p) :
    (places.filterMap fun p => (d'.content? p).map (loadFile parse p)) =
      places.filterMap fun p => (d.content? p).map (loadFile parse p) := by
  refine List.filterMap_congr fun p hp => ?_
  rw [content?_congr (hsame p hp)]

/-- The files of a project that is a directory are loaded alike. -/
theorem loadFiles_directory_eq (h : SameSources selection path d d') (hd : d.root.Proper)
    (hd' : d'.root.Proper) (hresolve : d.resolve path = .ok root)
    (hroot : d.root.at? root = some (.directory es))
    (hroot' : d'.root.at? root = some (.directory es')) (parse : Parser) :
    d'.loadFiles parse selection root (.directory es') =
      d.loadFiles parse selection root (.directory es) := by
  rw [loadFiles, loadFiles, h.discover_eq hd hd' hroot hroot']
  apply filterMap_loadFile_eq
  intro p hp
  obtain ⟨_, _, _, hsource, _⟩ := (mem_discover_directory hd hroot selection).mp hp
  exact h.content p (discovered_eq hresolve hroot ▸ hp) hsource

/-- A project that is a single source file is loaded alike as well. -/
theorem loadFiles_file_eq {c c' : Content} (h : SameSources selection path d d')
    (hresolve : d.resolve path = .ok root) (hroot : d.root.at? root = some (.file c))
    (hsource : IsSource root) (parse : Parser) :
    d'.loadFiles parse selection root (.file c') = d.loadFiles parse selection root (.file c) := by
  have hdiscovered : d.discovered selection path = [root] := discovered_eq hresolve hroot
  apply filterMap_loadFile_eq
  intro p hp
  rw [List.mem_singleton.mp hp]
  exact h.content root (by rw [hdiscovered]; exact List.mem_singleton_self root) hsource

/-- A project has the same analysis in both. -/
theorem analyzeProject_eq (h : SameSources selection path d d') (hd : d.root.Proper)
    (hd' : d'.root.Proper) (parse : Parser) :
    d'.analyzeProject parse path selection = d.analyzeProject parse path selection := by
  rw [analyzeProject, analyzeProject, h.resolve]
  cases hresolve : d.resolve path with
  | error fault => rfl
  | ok root =>
    -- What the path leads to is of the same kind in both, since `d'` has all that `d` has.
    cases hroot : d.root.at? root with
    | none =>
      exact absurd (Entry.occupantAt_eq_nothing_iff.mpr hroot) (occupant_of_resolve hresolve)
    | some e =>
      cases e with
      | directory es =>
        have hdir : d.occupant root = .directory :=
          Entry.occupantAt_eq_directory_iff.mpr ⟨es, hroot⟩
        obtain ⟨es', hroot'⟩ := Entry.occupantAt_eq_directory_iff.mp (h.keeps.directory root hdir)
        simp only [hroot, hroot', h.loadFiles_directory_eq hd hd' hresolve hroot hroot']
        rfl
      | file c =>
        obtain ⟨c', hroot'⟩ := h.keeps.file root c (Entry.occupantAt_eq_file_iff.mpr hroot)
        rw [occupant, Entry.occupantAt_eq_file_iff] at hroot'
        simp only [hroot, hroot']
        -- A file that is no source file is refused before it is read.
        by_cases hsource : IsSource root
        · rw [h.loadFiles_file_eq hresolve hroot hsource]
          rfl
        · have hnone : (Dialect.ofPath? root.toPath).isNone = true := by
            rw [← Option.not_isSome, Bool.not_eq_true', ← Bool.not_eq_true]
            exact hsource
          simp [hnone, Entry.isDirectory]

end SameSources

end Disk

end ClassGauge
