import ClassGauge.Syntax.Category
import ClassGauge.Syntax.Walk
import ClassGauge.Proofs.Syntax.Position

/-! # Walks in pre-order

Before each call a walk has some places still to come: those below its cursor, and those to the right
of the cursor and of the nodes above it, as far up as the levels are counted. A call moves the cursor
to the first of them and leaves the others. So a walk stands on every place below its start once, in
the order of their positions, and then comes back to where it started.

* `Cursor.below`: the cursors on all places below a cursor, in pre-order;
* `Walk.toCome`, `next_of_toCome_cons`, `next_of_toCome_nil`: what one call does;
* `calls_eq_take`, `after_eq`: what a whole walk does;
* `walk_preorder`: which nodes a walk gives, in which order, and that counts add up over children.
-/

namespace ClassGauge.Syntax

/-! ## The places below a cursor -/

namespace Cursor

/-- The way down through some levels, which are given from the inside out. -/
def way (fs : List Frame) : Position :=
  (fs.map (·.before.length)).reverse

def position (c : Cursor) : Position :=
  way c.frames

@[simp] theorem way_cons (f : Frame) (fs : List Frame) :
    way (f :: fs) = way fs ++ [f.before.length] := by
  simp [way]

/-- The cursor some levels further up, or at the top if there are fewer. -/
def up : (levels : Nat) → Cursor → Cursor
  | 0, c => c
  | n + 1, c => up n (c.parent?.getD c)

end Cursor

mutual

/-- The cursors on the places strictly below a tree, in pre-order; `fs` are the levels above it. -/
def cursorsBelow (fs : List Frame) : Tree → List Cursor
  | .node l ts => cursorsAlong l [] fs ts

/-- The cursors on the places of a row of siblings, in pre-order. Above the row stands a node with
label `l` below the levels `fs`, and in front of it the siblings `before`, the nearest first. -/
def cursorsAlong (l : Label) (before : List Tree) (fs : List Frame) : List Tree → List Cursor
  | [] => []
  | t :: ts =>
    ⟨t, ⟨l, before, ts⟩ :: fs⟩ ::
      (cursorsBelow (⟨l, before, ts⟩ :: fs) t ++ cursorsAlong l (t :: before) fs ts)

end

namespace Cursor

/-- The cursors on all places strictly below the place of `c`, in pre-order. -/
def below (c : Cursor) : List Cursor :=
  cursorsBelow c.frames c.focus

/-- The cursors on the places that come behind the subtree at a cursor in pre-order, no more than
`levels` levels up. -/
def behind : (levels : Nat) → Cursor → List Cursor
  | n + 1, ⟨t, ⟨l, before, ts⟩ :: fs⟩ =>
    cursorsAlong l (t :: before) fs ts ++ behind n ⟨.node l (before.reverse ++ t :: ts), fs⟩
  | _, _ => []

end Cursor

section Below

open Cursor

theorem append_lt_append_left_iff (r : Position) {p q : Position} : r ++ p < r ++ q ↔ p < q := by
  induction r with
  | nil => exact Iff.rfl
  | cons i r ih => simp [ih]

mutual

/-- The nodes below a cursor are those below the tree there. -/
theorem map_node_cursorsBelow (fs : List Frame) (t : Tree) :
    (cursorsBelow fs t).map Cursor.node = t.descendants := by
  cases t with
  | node l ts => exact map_node_cursorsAlong l [] fs ts

theorem map_node_cursorsAlong (l : Label) (before : List Tree) (fs : List Frame)
    (ts : List Tree) : (cursorsAlong l before fs ts).map Cursor.node = forestNodes l.kind ts := by
  cases ts with
  | nil => rfl
  | cons t ts =>
    rw [cursorsAlong, List.map_cons, List.map_append, map_node_cursorsBelow,
      map_node_cursorsAlong, forestNodes_cons]
    rfl

end

variable {d : Cursor}

mutual

/-- A cursor below a tree stands on the node at its position. -/
theorem at?_of_mem_cursorsBelow (parent : Option String) {fs : List Frame} {t : Tree}
    (h : d ∈ cursorsBelow fs t) :
    ∃ i p, d.position = way fs ++ i :: p ∧ (Node.mk parent t).at? (i :: p) = some d.node := by
  cases t with
  | node l ts =>
    obtain ⟨i, p, _, hp⟩ := at?_of_mem_cursorsAlong parent h
    exact ⟨i, p, hp⟩

theorem at?_of_mem_cursorsAlong (parent : Option String) {l : Label} {before : List Tree}
    {fs : List Frame} {ts : List Tree} (h : d ∈ cursorsAlong l before fs ts) :
    ∃ i p, before.length ≤ i ∧ d.position = way fs ++ i :: p ∧
      (Node.mk parent (.node l (before.reverse ++ ts))).at? (i :: p) = some d.node := by
  cases ts with
  | nil => cases h
  | cons t ts =>
    have hchild : (Node.mk parent (.node l (before.reverse ++ t :: ts))).children[before.length]? =
        some ⟨some l.kind, t⟩ := by
      simp [Node.children, Tree.kind]
    rw [cursorsAlong, List.mem_cons, List.mem_append] at h
    -- The cursor stands on the first sibling, below it, or further along the row.
    rcases h with rfl | h | h
    · refine ⟨before.length, [], Nat.le_refl _, by simp [position], ?_⟩
      rw [Node.at?_cons, hchild]
      rfl
    · obtain ⟨i, p, hposition, hat⟩ := at?_of_mem_cursorsBelow (some l.kind) h
      refine ⟨before.length, i :: p, Nat.le_refl _, by simp [hposition], ?_⟩
      rw [Node.at?_cons, hchild]
      exact hat
    · obtain ⟨i, p, hi, hposition, hat⟩ := at?_of_mem_cursorsAlong parent h
      rw [List.length_cons] at hi
      refine ⟨i, p, by omega, hposition, ?_⟩
      simpa using hat

end

mutual

/-- The cursors below a tree stand at ascending positions. -/
theorem pairwise_position_cursorsBelow (fs : List Frame) (t : Tree) :
    (cursorsBelow fs t).Pairwise (position · < position ·) := by
  cases t with
  | node l ts => exact pairwise_position_cursorsAlong l [] fs ts

theorem pairwise_position_cursorsAlong (l : Label) (before : List Tree) (fs : List Frame)
    (ts : List Tree) : (cursorsAlong l before fs ts).Pairwise (position · < position ·) := by
  cases ts with
  | nil => exact List.Pairwise.nil
  | cons t ts =>
    rw [cursorsAlong, List.pairwise_cons, List.pairwise_append]
    -- Whatever is below the first sibling or further right is compared with it by what follows `fs`.
    refine ⟨?_, pairwise_position_cursorsBelow _ t, pairwise_position_cursorsAlong l _ fs ts, ?_⟩
    · intro d hd
      rcases List.mem_append.mp hd with hd | hd
      · obtain ⟨i, p, hposition, _⟩ := at?_of_mem_cursorsBelow none hd
        rw [hposition, position, way_cons, List.append_assoc]
        exact List.append_left_lt (List.cons_lt_cons_iff.mpr (Or.inr ⟨rfl, List.nil_lt_cons _ _⟩))
      · obtain ⟨i, p, hi, hposition, _⟩ := at?_of_mem_cursorsAlong none hd
        rw [hposition, position, way_cons]
        exact List.append_left_lt (List.cons_lt_cons_iff.mpr (Or.inl hi))
    · intro d hd e he
      obtain ⟨i, p, hposition, _⟩ := at?_of_mem_cursorsBelow none hd
      obtain ⟨j, q, hj, hposition', _⟩ := at?_of_mem_cursorsAlong none he
      rw [hposition, hposition', way_cons, List.append_assoc]
      exact List.append_left_lt (List.cons_lt_cons_iff.mpr (Or.inl hj))

end

/-- Along a row of siblings there are cursors on each sibling and below it. -/
theorem exists_frame_of_getElem? (l : Label) (before : List Tree) (fs : List Frame)
    {ts : List Tree} {k : Nat} {s : Tree} (h : ts[k]? = some s) :
    ∃ f : Frame, f.before.length = before.length + k ∧
      ⟨s, f :: fs⟩ ∈ cursorsAlong l before fs ts ∧
      cursorsBelow (f :: fs) s ⊆ cursorsAlong l before fs ts := by
  induction ts generalizing before k with
  | nil => cases h
  | cons t ts ih =>
    rw [cursorsAlong]
    cases k with
    | zero =>
      cases h
      refine ⟨⟨l, before, ts⟩, rfl, List.mem_cons_self, ?_⟩
      intro d hd
      exact List.mem_cons_of_mem _ (List.mem_append_left _ hd)
    | succ k =>
      obtain ⟨f, hlength, hmem, hbelow⟩ := ih (t :: before) h
      rw [List.length_cons] at hlength
      refine ⟨f, by omega, List.mem_cons_of_mem _ (List.mem_append_right _ hmem), ?_⟩
      intro d hd
      exact List.mem_cons_of_mem _ (List.mem_append_right _ (hbelow hd))

/-- There is a cursor on every node below a tree. -/
theorem exists_mem_cursorsBelow {parent : Option String} {t : Tree} {m : Node} {i : Nat}
    {p : Position} (h : (Node.mk parent t).at? (i :: p) = some m) (fs : List Frame) :
    ∃ d ∈ cursorsBelow fs t, d.position = way fs ++ i :: p := by
  induction p generalizing parent t i fs with
  | nil =>
    obtain ⟨l, ts⟩ := t
    obtain ⟨c, hc, _⟩ := Option.bind_eq_some_iff.mp h
    obtain ⟨s, hs, _⟩ := Option.map_eq_some_iff.mp ((List.getElem?_map ..).symm.trans hc)
    obtain ⟨f, hlength, hmem, _⟩ := exists_frame_of_getElem? l [] fs hs
    refine ⟨⟨s, f :: fs⟩, hmem, ?_⟩
    simp [position, hlength]
  | cons j p ih =>
    obtain ⟨l, ts⟩ := t
    obtain ⟨c, hc, hp⟩ := Option.bind_eq_some_iff.mp h
    obtain ⟨s, hs, rfl⟩ := Option.map_eq_some_iff.mp ((List.getElem?_map ..).symm.trans hc)
    -- The induction is on the way down, which enters the subtree of one sibling.
    obtain ⟨f, hlength, _, hbelow⟩ := exists_frame_of_getElem? l [] fs hs
    obtain ⟨d, hd, hposition⟩ := ih hp (f :: fs)
    refine ⟨d, hbelow hd, ?_⟩
    simp [hposition, hlength]

end Below

/-! ## One call -/

namespace Cursor

variable {c d : Cursor}

theorem below_of_firstChild?_eq_none (h : c.firstChild? = none) : c.below = [] := by
  obtain ⟨⟨l, ts⟩, fs⟩ := c
  cases ts with
  | nil => rfl
  | cons t ts =>
    rw [firstChild?_node] at h
    cases h

/-- Below a cursor come its first child, what is below this child and what is behind it. -/
theorem below_of_firstChild? (h : c.firstChild? = some d) (levels : Nat) :
    c.below ++ c.behind levels = d :: (d.below ++ d.behind (levels + 1)) := by
  obtain ⟨⟨l, ts⟩, fs⟩ := c
  cases ts with
  | nil => cases h
  | cons t ts =>
    rw [firstChild?_node] at h
    cases h
    simp [below, behind, cursorsBelow, cursorsAlong]

/-- Behind a cursor with a next sibling come the sibling and what is below and behind it. -/
theorem behind_of_nextSibling? (h : c.nextSibling? = some d) (levels : Nat) :
    c.behind (levels + 1) = d :: (d.below ++ d.behind (levels + 1)) ∧ d.parent? = c.parent? := by
  obtain ⟨t, fs⟩ := c
  cases fs with
  | nil => cases h
  | cons f fs =>
    obtain ⟨l, before, ts⟩ := f
    cases ts with
    | nil => cases h
    | cons u ts =>
      cases h
      simp [below, behind, cursorsAlong, parent?]

/-- Behind a cursor without a next sibling comes what is behind its parent. -/
theorem behind_of_nextSibling?_eq_none (h : c.nextSibling? = none) (levels : Nat) :
    c.behind (levels + 1) = (c.parent?.getD c).behind levels := by
  obtain ⟨t, fs⟩ := c
  cases fs with
  | nil => cases levels <;> rfl
  | cons f fs =>
    obtain ⟨l, before, ts⟩ := f
    cases ts with
    | nil => rfl
    | cons u ts => cases h

end Cursor

namespace Walk

open Cursor

/-- The cursors on the places that a walk has still to visit, in the order of its visits. -/
def toCome (w : Walk) : List Cursor :=
  if w.finished then [] else w.cursor.below ++ w.cursor.behind w.depth

/-- The place at which a walk has started, found by going up as many levels as it is below it. -/
def origin (w : Walk) : Cursor :=
  w.cursor.up w.depth

/-- The climb ends at the first place behind the cursor, or as many levels up as it may go. -/
theorem climb_cases (levels : Nat) (c : Cursor) :
    (c.behind levels = [] ∧ climb levels c = (c.up levels, none)) ∨
      ∃ d n, climb levels c = (d, some n) ∧ c.behind levels = d :: (d.below ++ d.behind n) ∧
        d.up n = c.up levels := by
  induction levels generalizing c with
  | zero => exact Or.inl ⟨rfl, rfl⟩
  | succ n ih =>
    rw [climb]
    cases hnext : c.nextSibling? with
    | some d =>
      obtain ⟨hbehind, hparent⟩ := behind_of_nextSibling? hnext n
      refine Or.inr ⟨d, n + 1, rfl, hbehind, ?_⟩
      have hsome : ∃ p, c.parent? = some p := by
        obtain ⟨t, fs⟩ := c
        cases fs with
        | nil => cases hnext
        | cons f fs => exact ⟨_, rfl⟩
      obtain ⟨p, hp⟩ := hsome
      rw [up, up, hparent, hp]
      rfl
    -- Without a sibling the climb goes on from the parent, with one level less to go.
    | none =>
      rw [behind_of_nextSibling?_eq_none hnext]
      exact ih (c.parent?.getD c)

variable {w : Walk} {d : Cursor} {ds : List Cursor}

/-- If places are to come, a call visits the first of them, and the others are still to come. -/
theorem next_of_toCome_cons (h : w.toCome = d :: ds) :
    ∃ n, w.next = (some d.node, ⟨d, n, false⟩) ∧ toCome ⟨d, n, false⟩ = ds ∧
      origin ⟨d, n, false⟩ = w.origin := by
  obtain ⟨c, depth, finished⟩ := w
  cases finished with
  | true => cases h
  | false =>
    have hplaces : c.below ++ c.behind depth = d :: ds := h
    -- A call goes down if it can, and otherwise climbs to the first place behind the cursor.
    cases hchild : c.firstChild? with
    | some e =>
      rw [below_of_firstChild? hchild] at hplaces
      obtain ⟨rfl, rfl⟩ := List.cons.inj hplaces
      have hnext : next ⟨c, depth, false⟩ = (some e.node, ⟨e, depth + 1, false⟩) := by
        simp [next, hchild]
      have hup : e.up (depth + 1) = c.up depth := by
        rw [up, parent?_firstChild? hchild, Option.getD_some]
      exact ⟨depth + 1, hnext, rfl, hup⟩
    | none =>
      rw [below_of_firstChild?_eq_none hchild, List.nil_append] at hplaces
      rcases climb_cases depth c with ⟨hnil, _⟩ | ⟨e, n, hclimb, hbehind, hup⟩
      · rw [hnil] at hplaces
        cases hplaces
      · rw [hbehind] at hplaces
        obtain ⟨rfl, rfl⟩ := List.cons.inj hplaces
        have hnext : next ⟨c, depth, false⟩ = (some e.node, ⟨e, n, false⟩) := by
          simp [next, hchild, hclimb]
        exact ⟨n, hnext, rfl, hup⟩

/-- If no place is to come, a call gives nothing, and the walk is over where it started. -/
theorem next_of_toCome_nil (h : w.toCome = []) (hw : w.finished = false) :
    w.next = (none, ⟨w.origin, 0, true⟩) := by
  obtain ⟨c, depth, finished⟩ := w
  cases hw
  obtain ⟨hbelow, hnil⟩ := List.append_eq_nil_iff.mp (show c.below ++ c.behind depth = [] from h)
  -- A child would be a place to come, and so would a sibling on the way up.
  have hchild : c.firstChild? = none := by
    cases hchild : c.firstChild? with
    | none => rfl
    | some e =>
      have hcons := below_of_firstChild? hchild depth
      rw [hbelow, hnil] at hcons
      cases hcons
  rcases climb_cases depth c with ⟨_, hclimb⟩ | ⟨e, n, _, hbehind, _⟩
  · simp [next, hchild, hclimb, origin]
  · rw [hbehind] at hnil
    cases hnil

/-! ## Whole walks -/

def after : (calls : Nat) → Walk → Walk
  | 0, w => w
  | n + 1, w => after n w.next.2

theorem after_of_finished (h : w.finished = true) (n : Nat) : after n w = w := by
  induction n with
  | zero => rfl
  | succ n ih =>
    rw [after, next_of_finished h]
    exact ih

/-- The calls give the nodes at the places to come, and then nothing for ever. -/
theorem calls_eq_take {n m : Nat} (hnm : n ≤ m) (w : Walk) :
    calls n w = (w.toCome.map (fun d : Cursor => some d.node) ++ List.replicate m none).take n := by
  induction n generalizing w m with
  | zero => rfl
  | succ n ih =>
    rw [calls]
    cases hplaces : w.toCome with
    | cons d ds =>
      -- The call uses up one place, the walk after it has the others to come.
      obtain ⟨k, hnext, hrest, _⟩ := next_of_toCome_cons hplaces
      have hnm' : n ≤ m := by omega
      rw [hnext, ih hnm', hrest]
      rfl
    | nil =>
      -- The call uses up one of the empty answers.
      obtain ⟨m, rfl⟩ : ∃ k, m = k + 1 := ⟨m - 1, by omega⟩
      have hnm' : n ≤ m := by omega
      have hover : w.next.1 = none ∧ toCome w.next.2 = [] := by
        cases hw : w.finished with
        | true =>
          rw [next_of_finished hw]
          exact ⟨rfl, hplaces⟩
        | false =>
          rw [next_of_toCome_nil hplaces hw]
          exact ⟨rfl, rfl⟩
      rw [hover.1, ih hnm', hover.2]
      rfl

/-- As long as places are to come, the cursor stands on one after the other. Then it stands where the
walk started. -/
theorem after_eq (n : Nat) (w : Walk) (hw : w.finished = false) :
    (∀ d, w.toCome[n]? = some d → (after (n + 1) w).cursor = d ∧
      (after (n + 1) w).finished = false) ∧
    (w.toCome.length ≤ n → after (n + 1) w = ⟨w.origin, 0, true⟩) := by
  induction n generalizing w with
  | zero =>
    cases hplaces : w.toCome with
    | cons e es =>
      obtain ⟨k, hnext, _, _⟩ := next_of_toCome_cons hplaces
      simp [after, hnext]
    | nil => simp [after, next_of_toCome_nil hplaces hw]
  -- After one call the walk has one place less to come, and the same origin.
  | succ n ih =>
    cases hplaces : w.toCome with
    | cons e es =>
      obtain ⟨k, hnext, hrest, horigin⟩ := next_of_toCome_cons hplaces
      have hafter := ih ⟨e, k, false⟩ rfl
      rw [hrest, horigin] at hafter
      rw [after, hnext]
      simpa using hafter
    | nil =>
      rw [after, next_of_toCome_nil hplaces hw]
      simp [after_of_finished]

end Walk

/-- Counts add up over the children of a node: each child counts by itself and with what is below
it. -/
theorem Node.count_eq_sum (n : Node) (category : Category) :
    n.count category = (n.children.map fun child =>
      child.count category + if child.category = some category then 1 else 0).sum := by
  rw [Node.count, Node.descendants_eq_flatMap_walk]
  induction n.children with
  | nil => rfl
  | cons child children ih =>
    rw [List.flatMap_cons, List.countP_append, ih, List.map_cons, List.sum_cons, Node.walk,
      List.countP_cons, Node.count]
    simp

open Cursor Walk

/-- A walk that starts at the place of a cursor, wherever it is in its tree. The positions below the
start, in ascending order, are those at which the calls stop, one after the other; each call gives
the node there, and together they give the nodes strictly below the start. After the last of them
every call gives nothing, and the cursor is back where it was. So what a node counts is what each of
its children counts, and one for each child that is of the category itself. -/
theorem walk_preorder (c : Cursor) :
    ∃ ps : List Position,
      ps.Pairwise (· < ·) ∧
      (∀ p, p ∈ ps ↔ p ≠ [] ∧ (c.node.at? p).isSome = true) ∧
      ps.map c.node.at? = c.node.descendants.map some ∧
      (∀ n, calls n (start c) = (ps.map c.node.at? ++ List.replicate n none).take n) ∧
      (∀ n p, ps[n]? = some p → (after (n + 1) (start c)).finished = false ∧
        (after (n + 1) (start c)).cursor.position = c.position ++ p) ∧
      (∀ n, ps.length < n → after n (start c) = ⟨c, 0, true⟩) ∧
      ∀ category, c.node.count category = (c.node.children.map fun child =>
        child.count category + if child.category = some category then 1 else 0).sum := by
  -- The positions are taken from the start of the walk, which may lie anywhere in its tree.
  let relative (d : Cursor) : Position := d.position.drop c.position.length
  have hplaces : (start c).toCome = c.below := List.append_nil _
  have hrelative : ∀ d p, d.position = c.position ++ p → relative d = p := by
    intro d p hposition
    show d.position.drop c.position.length = p
    rw [hposition]
    exact List.drop_left
  have hbelow : ∀ d ∈ c.below, d.position = c.position ++ relative d ∧ relative d ≠ [] ∧
      c.node.at? (relative d) = some d.node := by
    intro d hd
    obtain ⟨i, p, hposition, hat⟩ := at?_of_mem_cursorsBelow c.node.parent hd
    rw [hrelative d _ hposition]
    exact ⟨hposition, List.cons_ne_nil i p, hat⟩
  have hnodes : (c.below.map relative).map c.node.at? = c.below.map fun d => some d.node := by
    rw [List.map_map]
    exact List.map_congr_left fun d hd => (hbelow d hd).2.2
  have hascending : (c.below.map relative).Pairwise (· < ·) := by
    rw [List.pairwise_map]
    refine (pairwise_position_cursorsBelow c.frames c.focus).imp_of_mem ?_
    intro d e hd he hde
    rw [(hbelow d hd).1, (hbelow e he).1] at hde
    exact (append_lt_append_left_iff c.position).mp hde
  have hmembers : ∀ p, p ∈ c.below.map relative ↔ p ≠ [] ∧ (c.node.at? p).isSome = true := by
    intro p
    rw [List.mem_map]
    constructor
    · rintro ⟨d, hd, rfl⟩
      obtain ⟨_, hne, hat⟩ := hbelow d hd
      rw [hat]
      exact ⟨hne, rfl⟩
    · -- There is a cursor on every node below the start.
      rintro ⟨hne, hsome⟩
      obtain ⟨m, hm⟩ := Option.isSome_iff_exists.mp hsome
      obtain ⟨i, p, rfl⟩ := List.exists_cons_of_ne_nil hne
      obtain ⟨d, hd, hposition⟩ := exists_mem_cursorsBelow hm c.frames
      exact ⟨d, hd, hrelative d _ hposition⟩
  have hdescendants : (c.below.map relative).map c.node.at? = c.node.descendants.map some := by
    have hnode : c.below.map Cursor.node = c.node.descendants :=
      map_node_cursorsBelow c.frames c.focus
    rw [hnodes, ← hnode, List.map_map]
    rfl
  have hcalls : ∀ n, calls n (start c) =
      ((c.below.map relative).map c.node.at? ++ List.replicate n none).take n := by
    intro n
    rw [calls_eq_take (Nat.le_refl n), hplaces, hnodes]
  have hstops : ∀ n p, (c.below.map relative)[n]? = some p →
      (after (n + 1) (start c)).finished = false ∧
        (after (n + 1) (start c)).cursor.position = c.position ++ p := by
    intro n p hp
    rw [List.getElem?_map] at hp
    obtain ⟨d, hd, rfl⟩ := Option.map_eq_some_iff.mp hp
    obtain ⟨hcursor, hfinished⟩ := (after_eq n (start c) rfl).1 d (hplaces ▸ hd)
    rw [hcursor]
    exact ⟨hfinished, (hbelow d (List.mem_of_getElem? hd)).1⟩
  have hover : ∀ n, (c.below.map relative).length < n → after n (start c) = ⟨c, 0, true⟩ := by
    intro n hn
    rw [List.length_map] at hn
    -- One call more than there are places is made, and that one ends the walk.
    obtain ⟨n, rfl⟩ : ∃ k, n = k + 1 := ⟨n - 1, by omega⟩
    have hlength : (start c).toCome.length ≤ n := by
      rw [hplaces]
      omega
    exact (after_eq n (start c) rfl).2 hlength
  exact ⟨c.below.map relative, hascending, hmembers, hdescendants, hcalls, hstops, hover,
    Node.count_eq_sum c.node⟩

end ClassGauge.Syntax
