import ClassGauge.Toml.Value

/-! # Tables under construction

A document writes its tables piece by piece. Whether a key or a header may add to a table depends on
how the table came about: by a header of its own, as a part of a longer header, or as a part of a
dotted key.
-/

namespace ClassGauge.Toml

/-- How a table came about. -/
inductive Origin where
  /-- By a header or by braces of its own: no dotted key reaches into it, no header opens it
  again. -/
  | explicit
  /-- As a part of the header of another table: its own header may still come. -/
  | header
  /-- As a part of a dotted key. -/
  | dotted
  deriving DecidableEq, Repr

mutual

/-- A table under construction. -/
inductive Draft where
  | mk (origin : Origin) (entries : List (String × Item))

/-- What a key of a table under construction holds. -/
inductive Item where
  /-- A finished value. -/
  | value (v : Value)
  | table (t : Draft)
  /-- The tables of an array, the last one first. -/
  | tables (ts : List Draft)

end

namespace Draft

def empty (origin : Origin) : Draft := .mk origin []

def origin : Draft → Origin
  | .mk o _ => o

def entries : Draft → List (String × Item)
  | .mk _ es => es

/-- Whether a table is still unfinished enough for a dotted key to reach into it. -/
def isImplicit (t : Draft) : Bool :=
  t.origin != .explicit

def find? (t : Draft) (key : String) : Option Item :=
  t.entries.lookup key

/-- The table with `item` under `key`, in the place of an item that is there. -/
def set (t : Draft) (key : String) (item : Item) : Draft :=
  .mk t.origin <|
    if (t.find? key).isSome then t.entries.map fun (k, i) => if k = key then (k, item) else (k, i)
    else t.entries ++ [(key, item)]

/-- Changes the table that `path` leads to from `t` by `change`. Tables on the way that do not exist
yet come about as `made` says. An array on the way leads to its last table. Nothing leads through a
value, and a dotted key not through an explicit table. -/
def modifyAt (made : Origin) : (path : List String) → (change : Draft → Option Draft) →
    (t : Draft) → Option Draft
  | [], change, t => change t
  | key :: path, change, t =>
    match t.find? key with
    | none => (modifyAt made path change (empty made)).map fun sub => t.set key (.table sub)
    | some (.value _) => none
    | some (.table sub) =>
      if made = .dotted && !sub.isImplicit then none
      else (modifyAt made path change sub).map fun sub => t.set key (.table sub)
    | some (.tables []) => none
    | some (.tables (last :: before)) =>
      (modifyAt made path change last).map fun last => t.set key (.tables (last :: before))

/-- Adds a value under a key that is new. A plain key adds to a table that did not come about by a
dotted key, and a dotted key only to one that did. -/
def insertValue (path : List String) (key : String) (v : Value) (t : Draft) : Option Draft :=
  modifyAt .dotted path (fun sub =>
    if (sub.origin == .dotted) == path.isEmpty then none
    else if (sub.find? key).isSome then none
    else some (sub.set key (.value v))) t

/-- Opens the table `key` below `path` by its header: a new one, or one that so far is only a part
of other headers. -/
def openTable (path : List String) (key : String) (t : Draft) : Option Draft :=
  modifyAt .header path (fun parent =>
    match parent.find? key with
    | none => some (parent.set key (.table (empty .explicit)))
    | some (.table sub) =>
      if sub.origin = .header then some (parent.set key (.table (.mk .explicit sub.entries)))
      else none
    | some _ => none) t

/-- Opens a new table at the end of the array `key` below `path`. -/
def openArrayTable (path : List String) (key : String) (t : Draft) : Option Draft :=
  modifyAt .header path (fun parent =>
    match parent.find? key with
    | none => some (parent.set key (.tables [empty .explicit]))
    | some (.tables ts) => some (parent.set key (.tables (empty .explicit :: ts)))
    | some _ => none) t

end Draft

mutual

/-- The entries of a finished table. -/
def Draft.toEntries : Draft → List (String × Value)
  | .mk _ es => itemEntries es

/-- The values of finished items. -/
def itemEntries : List (String × Item) → List (String × Value)
  | [] => []
  | (k, i) :: es => (k, i.toValue) :: itemEntries es

/-- The value of a finished item. -/
def Item.toValue : Item → Value
  | .value v => v
  | .table t => .table t.toEntries
  | .tables ts => .array (draftValues ts).reverse

/-- The values of finished tables. -/
def draftValues : List Draft → List Value
  | [] => []
  | t :: ts => .table t.toEntries :: draftValues ts

end

end ClassGauge.Toml
