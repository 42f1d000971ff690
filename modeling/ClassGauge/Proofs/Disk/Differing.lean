import ClassGauge.CommandLine.Run
import ClassGauge.Proofs.Disk.Writing

/-! # Disks that differ in one file

If two disks differ in what one file holds and in nothing else, then whatever is done to both fails
in the same way on both, or succeeds on both; and afterwards they differ in that file as they did, or
it has been written and they do not differ any more.

* `Disk.DifferAt`: disks that differ in one file;
* `InStep`: operations that fail in the same way or succeed with related results;
* `DifferAt.makeDirectories`, `DifferAt.writeText`, `DifferAt.writeReport`: operations on such disks.
-/

namespace ClassGauge

/-- Two results that are the same error, or values in a relation. -/
inductive InStep {ε α : Type} (R : α → α → Prop) : Except ε α → Except ε α → Prop where
  | ok {a b : α} (h : R a b) : InStep R (.ok a) (.ok b)
  | error (e : ε) : InStep R (.error e) (.error e)

namespace Disk

variable {d d' : Disk} {place here p : Place} {c c' : Content} {name path : String} {x : Entry}

/-- Two disks with files at a place, which hold `c` and `c'`, and with the same everywhere else. -/
structure DifferAt (place : Place) (c c' : Content) (d d' : Disk) : Prop where
  here : d.occupant place = .file c
  here' : d'.occupant place = .file c'
  elsewhere : ∀ p, p ≠ place → d'.occupant p = d.occupant p
  workingDirectory : d'.workingDirectory = d.workingDirectory

/-- Disks after something has been done to two disks with files `c` and `c'` at a place: they differ
there as they did, or they are the same. -/
def DiffersAtMost (place : Place) (c c' : Content) (d d' : Disk) : Prop :=
  ∃ b b', DifferAt place b b' d d' ∧ (b = c ∧ b' = c' ∨ b' = b)

namespace DifferAt

variable (h : DifferAt place c c' d d')

include h

theorem alike : Alike d d' := by
  have hdirectory : ∀ p, d'.occupant p = .directory ↔ d.occupant p = .directory := by
    intro p
    by_cases hp : p = place
    · simp [hp, h.here, h.here']
    · rw [h.elsewhere p hp]
  refine ⟨⟨fun p => (hdirectory p).mpr, ?_, h.workingDirectory⟩,
    ⟨fun p => (hdirectory p).mp, ?_, h.workingDirectory.symm⟩⟩
  · -- At the place itself both disks have a file, which is all that is asked for.
    intro p b hb
    by_cases hp : p = place
    · exact ⟨c', hp ▸ h.here'⟩
    · exact ⟨b, by rw [h.elsewhere p hp, hb]⟩
  · intro p b hb
    by_cases hp : p = place
    · exact ⟨c, hp ▸ h.here⟩
    · exact ⟨b, by rw [← h.elsewhere p hp, hb]⟩

/-- Putting the same on both disks elsewhere keeps the difference. -/
theorem put (hhere : d.occupant here = .directory)
    (hfree : d.occupant (here ++ [name]) ≠ .directory)
    (hx : x.IsLeaf) (hne : here ++ [name] ≠ place) :
    DifferAt place c c' (d.put (here ++ [name]) x) (d'.put (here ++ [name]) x) := by
  have hput := occupant_put hhere hfree hx
  have hput' := occupant_put ((h.alike.directory_iff here).mpr hhere)
    (fun hdir => hfree ((h.alike.directory_iff _).mp hdir)) hx
  refine ⟨?_, ?_, ?_, h.workingDirectory⟩
  · rw [hput, if_neg hne.symm, h.here]
  · rw [hput', if_neg hne.symm, h.here']
  · intro p hp
    rw [hput, hput', h.elsewhere p hp]

/-- Putting the same file on both disks in the place of that in which they differ leaves none. -/
theorem put_here {b : Content} (hhere : d.occupant here = .directory) (heq : here ++ [name] = place) :
    DifferAt place b b (d.put (here ++ [name]) (.file b)) (d'.put (here ++ [name]) (.file b)) := by
  have hfile : ∀ {d : Disk} {c : Content}, d.occupant place = .file c →
      d.occupant (here ++ [name]) ≠ .directory := by
    intro d c hc hdir
    rw [heq, hc] at hdir
    cases hdir
  have hput := occupant_put hhere (hfile h.here) (Entry.isLeaf_file b)
  have hput' := occupant_put ((h.alike.directory_iff here).mpr hhere) (hfile h.here') (Entry.isLeaf_file b)
  -- The new file covers the one place at which the disks differed.
  refine ⟨?_, ?_, ?_, h.workingDirectory⟩
  · rw [hput, if_pos heq.symm]
    rfl
  · rw [hput', if_pos heq.symm]
    rfl
  · intro p hp
    rw [hput, hput', h.elsewhere p hp]

/-- Making a directory keeps the difference, for a file is in its way. -/
theorem makeDirectory (path : String) :
    InStep (DifferAt place c c') (d.makeDirectory path) (d'.makeDirectory path) := by
  have hthere : ∀ p, (d'.root.at? p).isSome = (d.root.at? p).isSome := by
    intro p
    rw [Bool.eq_iff_iff, Option.isSome_iff_ne_none, Option.isSome_iff_ne_none, Ne, Ne,
      ← Entry.occupantAt_eq_nothing_iff, ← Entry.occupantAt_eq_nothing_iff]
    exact not_congr (h.alike.nothing_iff p)
  rw [Disk.makeDirectory, Disk.makeDirectory, h.alike.resolveParent_eq]
  split
  · exact .error _
  · exact .error _
  · next here last hparent =>
    rw [hthere]
    split
    · exact .error _
    · split
      · exact .error _
      · split
        · exact .error _
        · next hfree =>
          obtain ⟨_, _, _, _, _, _, _, hdir⟩ := segments_of_resolveParent hparent
          have hnothing : d.occupant (here ++ [last]) = .nothing := by
            rw [occupant, Entry.occupantAt_eq_nothing_iff]
            simpa using hfree
          refine .ok (h.put hdir ?_ Entry.isLeaf_empty ?_)
          · rw [hnothing]
            exact Occupant.noConfusion
          · -- Where the disks differ there is a file, and a directory is made where nothing is.
            rintro rfl
            rw [h.here] at hnothing
            cases hnothing

/-- What `makeDirectoriesFrom` comes to if a directory can be made or cannot. -/
theorem makeDirectory_or (path : String) :
    let last (d : Disk) : Disk × Option DiskFault :=
      match d.makeDirectory path with
      | .ok d => (d, none)
      | .error fault => (d, if d.isDirectory path then none else some fault)
    (last d').2 = (last d).2 ∧ DifferAt place c c' (last d).1 (last d').1 := by
  intro last
  have hmade := h.makeDirectory path
  simp only [last]
  generalize hr : d.makeDirectory path = r at hmade
  generalize hr' : d'.makeDirectory path = r' at hmade
  cases hmade with
  | ok hmade => exact ⟨rfl, hmade⟩
  | error fault => exact ⟨by rw [h.alike.isDirectory_eq], h⟩

/-- Making directories keeps the difference and goes wrong in the same way. -/
theorem makeDirectoriesFrom (fuel : Nat) (path : String) :
    (d'.makeDirectoriesFrom fuel path).2 = (d.makeDirectoriesFrom fuel path).2 ∧
      DifferAt place c c' (d.makeDirectoriesFrom fuel path).1
        (d'.makeDirectoriesFrom fuel path).1 := by
  induction fuel generalizing path with
  | zero => exact ⟨rfl, h⟩
  | succ fuel ih =>
    have hmade := h.makeDirectory path
    rw [Disk.makeDirectoriesFrom, Disk.makeDirectoriesFrom]
    generalize d.makeDirectory path = r at hmade
    generalize d'.makeDirectory path = r' at hmade
    cases hmade with
    | ok hmade => exact ⟨rfl, hmade⟩
    | error fault =>
      cases fault with
      | notFound =>
        -- The parent is made first, on both disks.
        cases hparent : Path.parent? path with
        | none => exact ⟨rfl, h⟩
        | some parent =>
          by_cases hempty : parent.isEmpty = true
          · simp [hempty, h]
          · obtain ⟨hsame, hdiffer⟩ := ih parent
            simp only [hempty]
            rcases hm : d.makeDirectoriesFrom fuel parent with ⟨m, fault?⟩
            rcases hm' : d'.makeDirectoriesFrom fuel parent with ⟨m', fault?'⟩
            rw [hm, hm'] at hsame hdiffer
            obtain rfl : fault?' = fault? := hsame
            cases fault?' with
            | some fault => exact ⟨rfl, hdiffer⟩
            | none => exact hdiffer.makeDirectory_or path
      | _ => exact ⟨by simp only [h.alike.isDirectory_eq], h⟩

theorem makeAbove (path : String) :
    (d'.makeAbove path).2 = (d.makeAbove path).2 ∧
      DifferAt place c c' (d.makeAbove path).1 (d'.makeAbove path).1 := by
  rw [Disk.makeAbove, Disk.makeAbove]
  cases Path.parent? path with
  | none => exact ⟨rfl, h⟩
  | some parent =>
    by_cases hempty : parent.isEmpty = true
    · simp [hempty, h]
    · simp only [hempty]
      exact h.makeDirectoriesFrom _ parent

theorem differsAtMost : DiffersAtMost place c c' d d' :=
  ⟨c, c', h, Or.inl ⟨rfl, rfl⟩⟩

/-- Writing a file keeps the difference, unless it is the file in which the disks differ. -/
theorem writeText (path text : String) :
    InStep (DiffersAtMost place c c') (d.writeText path text) (d'.writeText path text) := by
  have hisdir : ∀ p, (d'.root.at? p).any (·.isDirectory) = (d.root.at? p).any (·.isDirectory) := by
    intro p
    rw [Bool.eq_iff_iff, ← directory_iff_any, ← directory_iff_any]
    exact h.alike.directory_iff p
  -- The checks in front of the change see no contents, so they fail in both or in none.
  rw [Disk.writeText, Disk.writeText, h.alike.resolveParent_eq]
  split
  · exact .error _
  · exact .error _
  · next here last hparent =>
    rw [hisdir]
    split
    · exact .error _
    · split
      · exact .error _
      · split
        · exact .error _
        · next hfree =>
          obtain ⟨_, _, _, _, _, _, _, hdir⟩ := segments_of_resolveParent hparent
          rw [← directory_iff_any] at hfree
          -- Writing the file itself ends the difference, writing another one keeps it.
          by_cases hplace : here ++ [last] = place
          · exact .ok ⟨_, _, h.put_here hdir hplace, Or.inr rfl⟩
          · exact .ok (h.put hdir hfree (Entry.isLeaf_file _) hplace).differsAtMost

/-- Writing a report on two disks that differ in one file goes wrong in the same way on both, and the
disks differ in that file as they did, or it is the report. -/
theorem writeReport (path text : String) :
    (CommandLine.writeReport d' path text).2 = (CommandLine.writeReport d path text).2 ∧
      DiffersAtMost place c c' (CommandLine.writeReport d path text).1
        (CommandLine.writeReport d' path text).1 := by
  obtain ⟨hsame, hdiffer⟩ := h.makeAbove path
  rcases hm : d.makeAbove path with ⟨m, fault?⟩
  rcases hm' : d'.makeAbove path with ⟨m', fault?'⟩
  rw [hm, hm'] at hsame hdiffer
  obtain rfl : fault?' = fault? := hsame
  cases fault?' with
  -- Without the directories nothing is written.
  | some fault =>
    rw [writeReport_of_fault hm, writeReport_of_fault hm']
    exact ⟨rfl, hdiffer.differsAtMost⟩
  | none =>
    have hwritten := hdiffer.writeText path text
    rw [writeReport_of_makeAbove hm, writeReport_of_makeAbove hm']
    generalize m.writeText path text = r at hwritten
    generalize m'.writeText path text = r' at hwritten
    cases hwritten with
    | ok hwritten => exact ⟨rfl, hwritten⟩
    | error fault => exact ⟨rfl, hdiffer.differsAtMost⟩

end DifferAt

end Disk

end ClassGauge
