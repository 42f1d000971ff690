import ClassGauge.Proofs.Disk.PathText
import ClassGauge.Proofs.Disk.Tree

/-! # Following paths

Segments that mean nothing only ask for a directory, and so does whatever comes behind them. So a
path that goes on leads where its names lead, and a name below a path where the name lies below the
place of the path.

* `Path.FileName`: what an entry of a directory can be called;
* `Disk.follow_names`: a path that goes on leads where its names lead;
* `Disk.entry?_join`: what lies under a name below a path;
* `Disk.resolve_toPath`: a place is where its text leads.
-/

namespace ClassGauge

namespace Path

/-- What an entry of a directory can be called. -/
structure FileName (name : String) : Prop where
  ne_empty : name ≠ ""
  ne_here : name ≠ "."
  ne_up : name ≠ ".."
  slash_not_mem : '/' ∉ name.toList
  null_not_mem : '\x00' ∉ name.toList
  size_le : name.utf8ByteSize ≤ Disk.nameLimit

variable {path name : String}

theorem FileName.segments_eq (h : FileName name) : segments name = [name] := by
  have hname := segments_intercalate (List.cons_ne_nil name []) (by simpa using h.slash_not_mem)
  rwa [String.intercalate_singleton] at hname

theorem FileName.isAbsolute_eq (h : FileName name) : isAbsolute name = false := by
  rw [isAbsolute, decide_eq_false_iff_not]
  intro hhead
  exact h.slash_not_mem (List.mem_of_mem_head? hhead)

theorem ends_slash_iff : path.toList.getLast? = some '/' ↔ ∃ before, path = before ++ "/" := by
  rw [List.getLast?_eq_some_iff]
  constructor
  · rintro ⟨cs, hcs⟩
    refine ⟨String.ofList cs, ?_⟩
    rw [← String.toList_inj, hcs]
    simp
  · rintro ⟨before, rfl⟩
    exact ⟨before.toList, by simp⟩

/-- A slash at the end of a path adds no name. -/
theorem names_append_slash (path : String) : names (path ++ "/") = names path := by
  have hsegments : segments (path ++ "/") = segments path ++ [""] := by
    have h := segments_append_slash path ""
    rwa [String.append_empty] at h
  rw [names, names, components_eq, components_eq, hsegments, List.zipIdx_append,
    List.filterMap_append]
  simp [component?]

/-- A name below a path goes behind a slash, unless the path is empty or ends with one. -/
theorem join_cases (path : String) (h : FileName name) :
    (path = "" ∧ join path name = name) ∨
      (∃ before, path = before ++ "/" ∧ join path name = before ++ "/" ++ name) ∨
      path ≠ "" ∧ join path name = path ++ "/" ++ name := by
  rw [join, h.isAbsolute_eq]
  by_cases hempty : path = ""
  · left
    simp [hempty]
  · by_cases hslash : path.toList.getLast? = some '/'
    · obtain ⟨before, rfl⟩ := ends_slash_iff.mp hslash
      right
      left
      exact ⟨before, rfl, by simp⟩
    · right
      right
      exact ⟨hempty, by simp [hempty, hslash]⟩

theorem isAbsolute_join (path : String) (h : FileName name) :
    isAbsolute (join path name) = isAbsolute path := by
  rcases join_cases path h with ⟨rfl, hjoin⟩ | ⟨before, rfl, hjoin⟩ | ⟨hne, hjoin⟩
  · rw [hjoin, h.isAbsolute_eq]
    rfl
  · rw [hjoin]
    exact isAbsolute_append (by simp)
  · rw [hjoin, String.append_assoc]
    exact isAbsolute_append hne

theorem join_ne_empty (path : String) (h : FileName name) : join path name ≠ "" := by
  have hne := h.ne_empty
  rcases join_cases path h with ⟨_, hjoin⟩ | ⟨_, _, hjoin⟩ | ⟨_, hjoin⟩ <;> simp [hjoin, hne]

theorem utf8ByteSize_join_le (path : String) (h : FileName name) :
    (join path name).utf8ByteSize ≤ path.utf8ByteSize + 1 + name.utf8ByteSize := by
  rcases join_cases path h with ⟨_, hjoin⟩ | ⟨before, rfl, hjoin⟩ | ⟨_, hjoin⟩
  · rw [hjoin]
    omega
  · rw [hjoin, String.utf8ByteSize_append]
    omega
  · rw [hjoin, String.utf8ByteSize_append, String.utf8ByteSize_append]
    exact Nat.le_refl _

theorem null_not_mem_join (h : FileName name) (hpath : '\x00' ∉ path.toList) :
    '\x00' ∉ (join path name).toList := by
  have hname := h.null_not_mem
  rcases join_cases path h with ⟨_, hjoin⟩ | ⟨before, rfl, hjoin⟩ | ⟨_, hjoin⟩ <;>
    simp_all

end Path

namespace Disk

open ClassGauge.Path

variable {d : Disk} {here next : Place} {ss rest : List String} {name path above : String}

/-! ## Segments -/

theorem start_of_above (h : Above path above) : d.start above = d.start path := by
  rw [start, start, h.absolute]

/-- Segments laid end to end are followed one after the other. -/
theorem follow_append (d : Disk) (here : Place) (ss rest : List String) :
    d.follow here (ss ++ rest) = (d.follow here ss).bind (d.follow · rest) := by
  induction ss generalizing here with
  | nil => rfl
  | cons s ss ih =>
    rw [List.cons_append, follow, follow]
    cases d.step here s with
    | error e => rfl
    | ok next => exact ih next

/-- No path goes on from what is no directory. -/
theorem follow_of_not_directory (h : ∀ es, d.root.at? here ≠ some (.directory es)) (hss : ss ≠ []) :
    d.follow here ss = .error .notADirectory := by
  cases ss with
  | nil => exact absurd rfl hss
  | cons s ss =>
    have hstep : d.step here s = .error .notADirectory := by
      rw [step]
      split
      · next es hes => exact absurd hes (h es)
      · rfl
    rw [follow, hstep]

/-- A segment that means nothing leads nowhere else. -/
theorem step_of_component? {es : List (String × Entry)} {i : Nat} {s : String}
    (hdir : d.root.at? here = some (.directory es)) (hs : component? (s, i) = none) :
    d.step here s = .ok here := by
  have hmeans : (s.isEmpty || decide (s = ".")) = true := by
    rw [component?] at hs
    split at hs
    · next h =>
      rw [Bool.or_eq_true, Bool.and_eq_true] at h
      rw [Bool.or_eq_true]
      exact h.imp_right And.left
    · cases hs
  rw [step, hdir]
  exact if_pos hmeans

/-- A segment that neither is empty nor leads up leads to the entry of this name or nowhere else. -/
theorem eq_append_of_step {s : String} (hempty : s ≠ "") (hup : s ≠ "..")
    (h : d.step here s = .ok next) : next = here ++ [s].filter (· ≠ ".") := by
  rw [step] at h
  split at h
  · split at h
    · next hmeans =>
      -- A segment that stays where it is can only be a dot, for it is not empty.
      have hs : s = "." := by simpa [hempty] using hmeans
      cases h
      simp [hs]
    · next hmeans =>
      have hs : s ≠ "." := fun heq => hmeans (by simp [heq])
      split at h
      · cases h
      · split at h
        · cases h
          simp [hs]
        · cases h
  · cases h

/-- Names that do not lead up lead down, but for those that lead nowhere. -/
theorem follow_eq_append {here next : Place} {ns : List String}
    (hns : ∀ name ∈ ns, name ≠ "" ∧ name ≠ "..") (h : d.follow here ns = .ok next) :
    next = here ++ ns.filter (· ≠ ".") := by
  induction ns generalizing here with
  | nil =>
    cases h
    simp
  | cons name ns ih =>
    obtain ⟨⟨hempty, hup⟩, hrest⟩ := List.forall_mem_cons.mp hns
    rw [follow] at h
    split at h
    · next middle hstep =>
      have hcons : name :: ns = [name] ++ ns := rfl
      rw [ih hrest h, eq_append_of_step hempty hup hstep, hcons, List.filter_append,
        List.append_assoc]
    · cases h

/-- What comes behind a path makes sure that there are directories on the way, so that segments that
mean nothing can be left out. -/
theorem follow_components (i : Nat) (hrest : rest ≠ []) :
    d.follow here (ss ++ rest) =
      d.follow here (((ss.zipIdx i).filterMap component?).map Prod.fst ++ rest) := by
  induction ss generalizing here i with
  | nil => rfl
  | cons s ss ih =>
    rw [List.zipIdx_cons, List.cons_append]
    cases hs : component? (s, i) with
    | some x =>
      obtain ⟨rfl, _⟩ := component?_eq_some hs
      rw [List.filterMap_cons_some hs, List.map_cons, List.cons_append, follow, follow]
      cases d.step here s with
      | error e => rfl
      | ok next => exact ih (i + 1)
    | none =>
      rw [List.filterMap_cons_none hs, ← ih (i + 1)]
      by_cases hdir : ∃ es, d.root.at? here = some (.directory es)
      · obtain ⟨es, hes⟩ := hdir
        rw [follow, step_of_component? hes hs]
      · -- Without a directory here neither goes on, for something is left to follow in both.
        rw [follow_of_not_directory (not_exists.mp hdir) (List.cons_ne_nil _ _),
          follow_of_not_directory (not_exists.mp hdir) (by simp [hrest])]

/-- A path that goes on leads where its names lead. -/
theorem follow_names (d : Disk) (here : Place) (path : String) (hrest : rest ≠ []) :
    d.follow here (segments path ++ rest) = d.follow here (names path ++ rest) :=
  follow_components 0 hrest

/-- Segments that lead somewhere lead there without those that mean nothing. -/
theorem follow_components_of_follow (i : Nat) (h : d.follow here ss = .ok next) :
    d.follow here (((ss.zipIdx i).filterMap component?).map Prod.fst) = .ok next := by
  induction ss generalizing here i with
  | nil => exact h
  | cons s ss ih =>
    rw [follow] at h
    split at h
    · next middle hstep =>
      rw [List.zipIdx_cons]
      cases hs : component? (s, i) with
      | some x =>
        obtain ⟨hx, _⟩ := component?_eq_some hs
        rw [List.filterMap_cons_some hs, List.map_cons, follow, hx, hstep]
        exact ih (i + 1) h
      | none =>
        -- The segment means nothing, so that following it leads nowhere else.
        rw [List.filterMap_cons_none hs]
        have hdir : ∃ es, d.root.at? here = some (.directory es) := by
          rw [step] at hstep
          split at hstep
          · next es hes => exact ⟨es, hes⟩
          · cases hstep
        obtain ⟨es, hes⟩ := hdir
        rw [step_of_component? hes hs] at hstep
        cases hstep
        exact ih (i + 1) h
    · cases h

/-- A path that leads somewhere leads where its names lead. -/
theorem follow_names_eq_ok (h : d.resolve path = .ok next) :
    d.follow (d.start path) (names path) = .ok next := by
  rw [resolve] at h
  split at h
  · cases h
  · exact follow_components_of_follow 0 h

/-! ## Names below a path -/

/-- A name leads to the entry of this name, if there is one. -/
theorem step_eq_ok_iff (h : FileName name) :
    d.step here name = .ok next ↔
      next = here ++ [name] ∧ (d.root.at? (here ++ [name])).isSome = true := by
  have hempty : name.isEmpty = false := by simpa using h.ne_empty
  have hsize : ¬ name.utf8ByteSize > nameLimit := Nat.not_lt.mpr h.size_le
  rw [step, Entry.at?_concat]
  cases d.root.at? here with
  | none => simp
  | some e =>
    cases e with
    | file c => simp [Entry.child?]
    | directory es =>
      -- For the name of a file each test but that of the entry is settled.
      simp only [hempty, h.ne_here, h.ne_up, hsize, decide_false, Bool.or_self, if_false,
        Bool.false_eq_true, Option.bind_some, Entry.child?]
      cases es.lookup name with
      | none => simp
      | some x => simp [eq_comm]

theorem follow_segments_join (d : Disk) (here : Place) (path : String) (h : FileName name) :
    d.follow here (segments (join path name)) = d.follow here (names path ++ [name]) := by
  have hne : [name] ≠ [] := List.cons_ne_nil name []
  rcases join_cases path h with ⟨rfl, hjoin⟩ | ⟨before, rfl, hjoin⟩ | ⟨_, hjoin⟩
  · rw [hjoin, h.segments_eq, names_empty, List.nil_append]
  · rw [hjoin, segments_append_slash, h.segments_eq, names_append_slash, follow_names _ _ _ hne]
  · rw [hjoin, segments_append_slash, h.segments_eq, follow_names _ _ _ hne]

/-- A name below a path can be looked for if the path leaves room for the name. -/
theorem pathFault?_join (h : FileName name) (hnull : '\x00' ∉ path.toList)
    (hsize : path.utf8ByteSize + 1 + name.utf8ByteSize ≤ pathLimit) :
    pathFault? (join path name) = none := by
  have hjoin := utf8ByteSize_join_le path h
  have hempty := join_ne_empty path h
  have hnull' := null_not_mem_join h hnull
  have hlimit : ¬ (join path name).utf8ByteSize > pathLimit := by omega
  simp [pathFault?, hempty, hnull', hlimit]

theorem entry?_eq_bind (d : Disk) (path : String) :
    d.entry? path = (d.resolve path).toOption.bind d.root.at? := by
  unfold entry?
  cases d.resolve path <;> rfl

/-- What lies where a name leads lies under this name. -/
theorem at?_of_follow (h : FileName name) :
    (d.follow here [name]).toOption.bind d.root.at? = d.root.at? (here ++ [name]) := by
  rw [follow]
  cases hat : d.root.at? (here ++ [name]) with
  | some x =>
    have hsome : (d.root.at? (here ++ [name])).isSome = true := by rw [hat, Option.isSome_some]
    have hstep : d.step here name = .ok (here ++ [name]) := (step_eq_ok_iff h).mpr ⟨rfl, hsome⟩
    rw [hstep]
    exact hat
  | none =>
    cases hstep : d.step here name with
    | error e => rfl
    | ok next =>
      -- A name never leads to where nothing lies.
      obtain ⟨_, hsome⟩ := (step_eq_ok_iff h).mp hstep
      rw [hat] at hsome
      cases hsome

/-- What lies under a name below a path: what the place has under the name to which the names of the
path lead. -/
theorem entry?_join (h : FileName name) (hnull : '\x00' ∉ path.toList)
    (hsize : path.utf8ByteSize + 1 + name.utf8ByteSize ≤ pathLimit) :
    d.entry? (join path name) =
      (d.follow (d.start path) (names path)).toOption.bind fun here =>
        d.root.at? (here ++ [name]) := by
  have hstart : d.start (join path name) = d.start path := by
    rw [start, start, isAbsolute_join path h]
  have hresolve : d.resolve (join path name) =
      (d.follow (d.start path) (names path)).bind (d.follow · [name]) := by
    rw [resolve, pathFault?_join h hnull hsize, hstart, ← follow_append]
    exact follow_segments_join d _ path h
  rw [entry?_eq_bind, hresolve]
  cases d.follow (d.start path) (names path) with
  | error e => rfl
  | ok here => exact at?_of_follow h

/-! ## Places -/

/-- Names lead down to the place that they name. -/
theorem follow_of_at? {p : Place} {e : Entry} (hp : ∀ name ∈ p, FileName name)
    (he : d.root.at? (here ++ p) = some e) : d.follow here p = .ok (here ++ p) := by
  induction p generalizing here with
  | nil => rw [follow, List.append_nil]
  | cons name p ih =>
    obtain ⟨hname, hrest⟩ := List.forall_mem_cons.mp hp
    have hsplit : here ++ name :: p = here ++ [name] ++ p := by simp
    rw [hsplit] at he ⊢
    have hnext : (d.root.at? (here ++ [name])).isSome = true := by
      rw [Entry.at?_append] at he
      obtain ⟨x, hx, _⟩ := Option.bind_eq_some_iff.mp he
      rw [hx, Option.isSome_some]
    have hstep : d.step here name = .ok (here ++ [name]) := (step_eq_ok_iff hname).mpr ⟨rfl, hnext⟩
    rw [follow, hstep]
    exact ih hrest he

variable {q : Place}

theorem segments_toPath (hq : ∀ name ∈ q, FileName name) :
    segments q.toPath = "" :: if q = [] then [""] else q := by
  have hpath : q.toPath = "" ++ "/" ++ "/".intercalate q := rfl
  rw [hpath, segments_append_slash]
  split
  · next hnil =>
    rw [hnil]
    rfl
  · next hne =>
    rw [segments_intercalate hne fun name hname => (hq name hname).slash_not_mem]
    rfl

/-- The names of the text of a place are the names of the place. -/
theorem names_toPath (hq : ∀ name ∈ q, FileName name) : names q.toPath = q := by
  have hkept : ∀ (i : Nat) (p : Place), (∀ name ∈ p, FileName name) →
      ((p.zipIdx i).filterMap component?).map Prod.fst = p := by
    intro i p hp
    induction p generalizing i with
    | nil => rfl
    | cons name p ih =>
      obtain ⟨hname, hrest⟩ := List.forall_mem_cons.mp hp
      have hsome : component? (name, i) = some (name, i + 1) := by
        simp [component?, hname.ne_empty, hname.ne_here]
      rw [List.zipIdx_cons, List.filterMap_cons_some hsome, List.map_cons, ih (i + 1) hrest]
  have hempty : component? ("", 0) = none := rfl
  -- The empty segment in front of the first slash is the only one that is dropped.
  rw [names, components_eq, segments_toPath hq, List.zipIdx_cons,
    List.filterMap_cons_none hempty]
  split
  · next hnil =>
    rw [hnil]
    rfl
  · exact hkept _ q hq

theorem isAbsolute_toPath (q : Place) : isAbsolute q.toPath = true := by
  simp [isAbsolute, Place.toPath]

theorem null_not_mem_toPath (hq : ∀ name ∈ q, FileName name) : '\x00' ∉ q.toPath.toList := by
  have htext : '\x00' ∉ ("/".intercalate q).toList := by
    induction q with
    | nil => simp
    | cons name q ih =>
      obtain ⟨hname, hrest⟩ := List.forall_mem_cons.mp hq
      have hnull := hname.null_not_mem
      have hih := ih hrest
      cases q with
      | nil => simpa using hnull
      | cons name' q =>
        rw [String.intercalate_cons_cons, String.toList_append, String.toList_append,
          List.mem_append, List.mem_append]
        simp only [hnull, hih, or_false, false_or]
        decide
  simpa [Place.toPath] using htext

/-- A directory is where the text of its place leads. -/
theorem resolve_toPath (hq : ∀ name ∈ q, FileName name) {es : List (String × Entry)}
    (hdir : d.root.at? q = some (.directory es)) (hsize : q.toPath.utf8ByteSize ≤ pathLimit) :
    d.resolve q.toPath = .ok q := by
  have hstart : d.start q.toPath = [] := by
    rw [start, isAbsolute_toPath, if_pos rfl]
  have hfault : pathFault? q.toPath = none := by
    have hnull := null_not_mem_toPath hq
    have hne : q.toPath ≠ "" := by simp [Place.toPath]
    simp [pathFault?, hnull, hne, hsize]
  -- The root has to be a directory, since something lies below it or it is the place itself.
  have hroot : ∃ es, d.root.at? [] = some (.directory es) := by
    cases q with
    | nil => exact ⟨es, hdir⟩
    | cons name q =>
      have hisdir := Entry.isDirectory_of_at?_cons hdir
      cases hr : d.root with
      | file c =>
        rw [hr] at hisdir
        cases hisdir
      | directory es => exact ⟨es, rfl⟩
  obtain ⟨rs, hrs⟩ := hroot
  have hhere : d.step [] "" = .ok [] := step_of_component? (i := 0) hrs rfl
  rw [resolve, hfault, hstart]
  show d.follow [] (segments q.toPath) = .ok q
  rw [segments_toPath hq, follow, hhere]
  show d.follow [] (if q = [] then [""] else q) = .ok q
  -- The text of the root place has one segment more than names, and it is empty as well.
  split
  · next hnil =>
    rw [follow, hhere, hnil]
    rfl
  · exact follow_of_at? hq hdir

end Disk

end ClassGauge
