/-! # Directory trees

The files and directories of a disk as one tree, without symbolic links. A place in the tree is the
list of the names that lead to it from the root.
-/

namespace ClassGauge

/-- What a file holds: text, or bytes that are no text in UTF-8. -/
inductive Content where
  | text (s : String)
  | binary (bytes : List UInt8)
  deriving DecidableEq

def Content.ofBytes (bytes : List UInt8) : Content :=
  match String.fromUTF8? (ByteArray.mk bytes.toArray) with
  | some s => .text s
  | none => .binary bytes

/-- A file, or a directory with what it holds under each name. -/
inductive Entry where
  | file (c : Content)
  | directory (entries : List (String × Entry))

/-- The names that lead to a place, from the root down. -/
abbrev Place : Type := List String

/-- A place as the text of an absolute path. -/
def Place.toPath (p : Place) : String :=
  "/" ++ "/".intercalate p

namespace Entry

def isDirectory : Entry → Bool
  | .directory _ => true
  | .file _ => false

/-- What an entry holds under a name; a file holds nothing. -/
def child? (name : String) : Entry → Option Entry
  | .directory es => es.lookup name
  | .file _ => none

def at? (e : Entry) : Place → Option Entry
  | [] => some e
  | name :: rest => (e.child? name).bind (·.at? rest)

/-- Puts `e` under `name`, in the place of what is there. -/
def replace (name : String) (e : Entry) : List (String × Entry) → List (String × Entry)
  | [] => [(name, e)]
  | (n, x) :: es => if n = name then (n, e) :: es else (n, x) :: replace name e es

/-- The tree with `e` at a place. Directories that are missing on the way are made; a file in the way
stays, and the tree as it is. -/
def put : Entry → Place → Entry → Entry
  | _, [], e => e
  | .file c, _ :: _, _ => .file c
  | .directory es, name :: rest, e =>
    .directory (replace name (put ((es.lookup name).getD (.directory [])) rest e) es)

end Entry

mutual

/-- The places of all files, seen from an entry, directories that `pruned` names being left out.
Directories are walked with their entries in the order of their names, and what lies in one comes
where its name falls. -/
def Entry.filePlaces (pruned : String → Bool) : Entry → List Place
  | .file _ => [[]]
  | .directory es =>
    ((entryPlaces pruned es).mergeSort fun a b => a.1 ≤ b.1).flatMap (·.2)

/-- The places of all files below each of some named entries. -/
def entryPlaces (pruned : String → Bool) : List (String × Entry) → List (String × List Place)
  | [] => []
  | (name, e) :: es =>
    (name, if e.isDirectory && pruned name then []
      else (e.filePlaces pruned).map (name :: ·)) :: entryPlaces pruned es

end

mutual

/-- The places of all directories, seen from an entry, each in front of those below it. -/
def Entry.directoryPlaces : Entry → List Place
  | .file _ => []
  | .directory es => [] :: entryDirectoryPlaces es

/-- The places of all directories among some named entries and below them. -/
def entryDirectoryPlaces : List (String × Entry) → List Place
  | [] => []
  | (name, e) :: es => e.directoryPlaces.map (name :: ·) ++ entryDirectoryPlaces es

end

end ClassGauge
