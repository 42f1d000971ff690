import ClassGauge.Syntax.Tree

/-! # Listings of syntax trees

A parser hands a tree over as a listing: one row per node in pre-order, each with its depth and the
range of source bytes that it covers.

* `Tree.ofListing?`: the tree that the rows describe, every node with its text and its line;
* `Tree.ofListingText?`: the same for a listing that is written as text.
-/

namespace ClassGauge.Syntax

/-- One node of a listing. -/
structure Row where
  /-- The distance from the root. -/
  depth : Nat
  kind : String
  named : Bool
  role : Option Role
  /-- The offset of the first byte. -/
  start : Nat
  /-- The offset behind the last byte. -/
  stop : Nat
  deriving DecidableEq, Repr

/-- Reads a role from the grammar's word for it. -/
def Role.ofString? : String → Option Role
  | "name" => some .name
  | "body" => some .body
  | "value" => some .value
  | "parameters" => some .parameters
  | "pattern" => some .pattern
  | "declaration" => some .declaration
  | "function" => some .function
  | _ => none

/-- The text of the bytes from `start` up to `stop`: empty if the range leaves the source or cuts
a character. -/
def sliceText (bytes : ByteArray) (start stop : Nat) : String :=
  if start ≤ stop ∧ stop ≤ bytes.size then
    (String.fromUTF8? (bytes.extract start stop)).getD ""
  else ""

/-- The number of line feeds before each byte offset, the end of the text included. -/
def newlinesBefore (bytes : ByteArray) : Array Nat :=
  (bytes.foldl (fun (counts, n) b =>
    let n := if b = 10 then n + 1 else n
    (counts.push n, n)) (#[0], 0)).1

/-- Puts one row in front of the trees that follow it: those that lie deeper, up to the first that
does not, become its children. -/
def Row.attach (label : Row → Label) (r : Row) (later : List (Nat × Tree)) : List (Nat × Tree) :=
  let (below, rest) := later.span (·.1 > r.depth)
  (r.depth, .node (label r) (below.map (·.2))) :: rest

/-- The tree that a listing of `source` describes, `none` for an empty listing. -/
def Tree.ofListing? (source : String) (rows : List Row) : Option Tree :=
  let bytes := source.toUTF8
  let newlines := newlinesBefore bytes
  let label (r : Row) : Label :=
    { kind := r.kind, named := r.named, role := r.role
      line := 1 + newlines.getD r.start (newlines.back?.getD 0)
      text := sliceText bytes r.start r.stop }
  (rows.foldr (Row.attach label) []).head?.map (·.2)

/-! ## Written listings -/

/-- Reads a row from its line: the depth, the two offsets, `named` or `token`, the role or `-`, and
the kind, which may hold blanks. -/
def Row.ofLine? (line : String) : Option Row :=
  match line.splitOn " " with
  | depth :: start :: stop :: named :: role :: kind =>
    match depth.toNat?, start.toNat?, stop.toNat? with
    | some depth, some start, some stop =>
      some { depth, start, stop, named := named = "named", role := Role.ofString? role
             kind := " ".intercalate kind }
    | _, _, _ => none
  | _ => none

/-- Reads the tree of `source` from a written listing, and whether the parser had to recover from
errors. The first line says `clean` or `malformed`; each line behind it holds one row. -/
def Tree.ofListingText? (source text : String) : Option (Tree × Bool) :=
  match (text.splitOn "\n").filter (!·.isEmpty) with
  | state :: lines =>
    match lines.mapM Row.ofLine? with
    | some rows => (Tree.ofListing? source rows).map (·, state = "malformed")
    | none => none
  | [] => none

end ClassGauge.Syntax
