/-! # Path texts

A path is a text whose segments are separated by slashes. Empty segments mean nothing, and neither
does a segment `.` unless it opens the text; a slash in front makes the path absolute.

* `Path.join`, `Path.parent?`: one path below another, and the path one component up;
* `Path.fileName?`, `Path.extension?`: the last component and the end of its name.

These functions work on the text alone: `..` is a component like any other.
-/

namespace ClassGauge.Path

def segments (path : String) : List String :=
  (path.toList.splitOn '/').map String.ofList

/-- Whether a path starts at the root of the file system. -/
def isAbsolute (path : String) : Bool :=
  path.toList.head? = some '/'

/-- `path` below `root`: an absolute path stays what it is. -/
def join (root path : String) : String :=
  if isAbsolute path then path
  else if root.isEmpty || root.toList.getLast? = some '/' then root ++ path
  else root ++ "/" ++ path

/-- The components of a path, each with the number of segments up to it. -/
def components (path : String) : List (String × Nat) :=
  (segments path).zipIdx.filterMap fun (s, i) =>
    if s.isEmpty || (s = "." && i ≠ 0) then none else some (s, i + 1)

/-- The path without its last component, `none` if it has no component. -/
def parent? (path : String) : Option String :=
  match (components path).reverse with
  | [] => none
  | [_] => some (if isAbsolute path then "/" else "")
  | _ :: (_, n) :: _ => some ("/".intercalate ((segments path).take n))

/-- The last component, unless it is `.` or `..`. -/
def fileName? (path : String) : Option String :=
  match (components path).getLast? with
  | some (s, _) => if s = "." || s = ".." then none else some s
  | none => none

/-- The part of a file name behind its last dot; a dot in front of the name does not count. -/
def extensionOf? (name : String) : Option String :=
  let (after, rest) := name.toList.reverse.span (· ≠ '.')
  match rest with
  | [] => none
  | _ :: before => if before.isEmpty then none else some (String.ofList after.reverse)

def extension? (path : String) : Option String :=
  (fileName? path).bind extensionOf?

end ClassGauge.Path
