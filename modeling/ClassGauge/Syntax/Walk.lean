import ClassGauge.Syntax.Tree

/-! # Walking a tree step by step

A cursor is a place in a tree that can move to the first child, to the next sibling and back to the
parent. A walk moves a cursor through everything below the node at which it starts, one node for
each call of `Walk.next`, and needs no memory but the cursor and a count of levels. It visits what
`Node.descendants` lists, without ever holding the list.
-/

namespace ClassGauge.Syntax

/-- One level above a place in a tree: the label of the parent and the siblings on both sides, the
nearest first. -/
structure Frame where
  label : Label
  before : List Tree
  after : List Tree

/-- A place in a tree: the subtree there, and the levels above it from the inside out. -/
structure Cursor where
  focus : Tree
  frames : List Frame

namespace Cursor

def node (c : Cursor) : Node :=
  ⟨c.frames.head?.map (·.label.kind), c.focus⟩

def firstChild? (c : Cursor) : Option Cursor :=
  match c.focus with
  | .node _ [] => none
  | .node l (t :: ts) => some ⟨t, ⟨l, [], ts⟩ :: c.frames⟩

def nextSibling? (c : Cursor) : Option Cursor :=
  match c.frames with
  | ⟨l, before, t :: after⟩ :: frames => some ⟨t, ⟨l, c.focus :: before, after⟩ :: frames⟩
  | _ => none

def parent? (c : Cursor) : Option Cursor :=
  match c.frames with
  | f :: frames => some ⟨.node f.label (f.before.reverse ++ c.focus :: f.after), frames⟩
  | [] => none

@[simp] theorem firstChild?_leaf (l : Label) (fs : List Frame) :
    (Cursor.mk (.node l []) fs).firstChild? = none := rfl

@[simp] theorem firstChild?_node (l : Label) (t : Tree) (ts : List Tree) (fs : List Frame) :
    (Cursor.mk (.node l (t :: ts)) fs).firstChild? = some ⟨t, ⟨l, [], ts⟩ :: fs⟩ := rfl

/-- Going down and up again leads back. -/
theorem parent?_firstChild? {c d : Cursor} (h : c.firstChild? = some d) : d.parent? = some c := by
  obtain ⟨⟨l, cs⟩, fs⟩ := c
  cases cs with
  | nil => simp at h
  | cons t ts =>
    rw [firstChild?_node, Option.some.injEq] at h
    subst h
    rfl

end Cursor

/-- A walk below the node at which it started: where it is, how many levels below the start, and
whether it is over. -/
structure Walk where
  cursor : Cursor
  depth : Nat
  finished : Bool

namespace Walk

/-- A walk that has not begun. -/
def start (c : Cursor) : Walk := ⟨c, 0, false⟩

/-- Moves right, or up and right, as soon as there is a sibling, but never further up than
`depth` levels. Answers with the cursor and the levels that are left. -/
def climb : (depth : Nat) → Cursor → Cursor × Option Nat
  | 0, c => (c, none)
  | depth + 1, c =>
    match c.nextSibling? with
    | some d => (d, some (depth + 1))
    | none => climb depth (c.parent?.getD c)

/-- The next node of a walk, `none` if there is no more, and the walk behind it. -/
def next (w : Walk) : Option Node × Walk :=
  if w.finished then (none, w)
  else
    match w.cursor.firstChild? with
    | some c => (some c.node, ⟨c, w.depth + 1, false⟩)
    | none =>
      match climb w.depth w.cursor with
      | (c, some depth) => (some c.node, ⟨c, depth, false⟩)
      | (c, none) => (none, ⟨c, 0, true⟩)

/-- What the first `n` calls of `next` give. -/
def calls : (n : Nat) → Walk → List (Option Node)
  | 0, _ => []
  | n + 1, w => w.next.1 :: calls n w.next.2

/-- A walk that is over stays over. -/
theorem next_of_finished {w : Walk} (h : w.finished = true) : w.next = (none, w) := by
  simp [next, h]

end Walk

end ClassGauge.Syntax
