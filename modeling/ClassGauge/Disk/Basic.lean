import ClassGauge.Disk.Entry
import ClassGauge.Disk.Path

/-! # Disks

A directory tree with a working directory. Paths are followed segment by segment: `..` leads up,
every other segment has to be found, and whatever has more of the path behind it has to be a
directory. The operations fail in the ways in which a Linux system reports failure.

* `Disk.resolve`: the place that a path leads to;
* `Disk.readText`: the text of a file;
* `Disk.makeDirectories`, `Disk.writeText`: the two ways in which a disk changes.
-/

namespace ClassGauge

/-- Why an operation on a disk fails. -/
inductive DiskFault where
  | notFound
  | alreadyExists
  | notADirectory
  | isADirectory
  | nameTooLong
  /-- A path holds the null character. -/
  | nullInPath
  /-- The bytes of a file are no text. -/
  | notText
  deriving DecidableEq, Repr

def DiskFault.message : DiskFault → String
  | .notFound => "No such file or directory (os error 2)"
  | .alreadyExists => "File exists (os error 17)"
  | .notADirectory => "Not a directory (os error 20)"
  | .isADirectory => "Is a directory (os error 21)"
  | .nameTooLong => "File name too long (os error 36)"
  | .nullInPath => "file name contained an unexpected NUL byte"
  | .notText => "stream did not contain valid UTF-8"

/-- A directory tree and the directory in which relative paths start. -/
structure Disk where
  root : Entry
  workingDirectory : Place

namespace Disk

/-! ## Following paths -/

/-- The longest name, in bytes. -/
def nameLimit : Nat := 255

/-- The longest path text, in bytes. -/
def pathLimit : Nat := 4095

/-- Follows one segment from a place, which has to be a directory. -/
def step (d : Disk) (here : Place) (segment : String) : Except DiskFault Place :=
  match d.root.at? here with
  | some (.directory es) =>
    if segment.isEmpty || segment = "." then .ok here
    else if segment = ".." then .ok here.dropLast
    else if segment.utf8ByteSize > nameLimit then .error .nameTooLong
    else if (es.lookup segment).isSome then .ok (here ++ [segment])
    else .error .notFound
  | _ => .error .notADirectory

def follow (d : Disk) (here : Place) : List String → Except DiskFault Place
  | [] => .ok here
  | s :: ss =>
    match d.step here s with
    | .ok next => d.follow next ss
    | .error e => .error e

/-- The place at which a path starts. -/
def start (d : Disk) (path : String) : Place :=
  if Path.isAbsolute path then [] else d.workingDirectory

/-- What rules out a path text before it is followed. -/
def pathFault? (path : String) : Option DiskFault :=
  if path.toList.contains '\x00' then some .nullInPath
  else if path.isEmpty then some .notFound
  else if path.utf8ByteSize > pathLimit then some .nameTooLong
  else none

/-- The place to which a path leads. -/
def resolve (d : Disk) (path : String) : Except DiskFault Place :=
  match pathFault? path with
  | some fault => .error fault
  | none => d.follow (d.start path) (Path.segments path)

/-- What lies where a path leads. -/
def entry? (d : Disk) (path : String) : Option Entry :=
  match d.resolve path with
  | .ok place => d.root.at? place
  | .error _ => none

def pathExists (d : Disk) (path : String) : Bool :=
  (d.entry? path).isSome

def isFile (d : Disk) (path : String) : Bool :=
  (d.entry? path).any (!·.isDirectory)

def isDirectory (d : Disk) (path : String) : Bool :=
  (d.entry? path).any (·.isDirectory)

/-- The text of the file to which a path leads. -/
def readText (d : Disk) (path : String) : Except DiskFault String :=
  match d.resolve path with
  | .error e => .error e
  | .ok place =>
    match d.root.at? place with
    | some (.file (.text s)) => .ok s
    | some (.file (.binary _)) => .error .notText
    | some (.directory _) => .error .isADirectory
    | none => .error .notFound

/-! ## Changing a disk -/

/-- Follows a path up to its last segment: the directory that would hold it, and the segment; empty
segments at the end are passed over. There is no last segment if the path is the root. -/
def resolveParent (d : Disk) (path : String) : Except DiskFault (Place × Option String) :=
  match pathFault? path with
  | some fault => .error fault
  | none =>
    match (Path.segments path).reverse.dropWhile String.isEmpty with
    | [] => .ok ([], none)
    | last :: before =>
      match d.follow (d.start path) before.reverse with
      | .error e => .error e
      | .ok place =>
        match d.step place "." with
        | .error e => .error e
        | .ok place => .ok (place, some last)

def put (d : Disk) (place : Place) (e : Entry) : Disk :=
  { d with root := d.root.put place e }

/-- Makes one directory, whose parent has to exist. -/
def makeDirectory (d : Disk) (path : String) : Except DiskFault Disk :=
  match d.resolveParent path with
  | .error e => .error e
  | .ok (_, none) => .error .alreadyExists
  | .ok (place, some last) =>
    if last = "." || last = ".." then .error .alreadyExists
    else if last.utf8ByteSize > nameLimit then .error .nameTooLong
    else if (d.root.at? (place ++ [last])).isSome then .error .alreadyExists
    else .ok (d.put (place ++ [last]) (.directory []))

/-- Makes a directory and the directories above it that are missing, `fuel` bounding their number.
Answers with the disk as it is then, and with what went wrong. -/
def makeDirectoriesFrom (d : Disk) : (fuel : Nat) → (path : String) → Disk × Option DiskFault
  | 0, _ => (d, some .notFound)
  | fuel + 1, path =>
    match d.makeDirectory path with
    | .ok d => (d, none)
    | .error .notFound =>
      match Path.parent? path with
      | none => (d, some .notFound)
      | some parent =>
        if parent.isEmpty then (d, some .notFound)
        else
          match d.makeDirectoriesFrom fuel parent with
          | (d, some fault) => (d, some fault)
          | (d, none) =>
            match d.makeDirectory path with
            | .ok d => (d, none)
            | .error fault => (d, if d.isDirectory path then none else some fault)
    | .error fault => (d, if d.isDirectory path then none else some fault)

/-- Makes a directory and the directories above it that are missing. Answers with the disk as it is
then, and with what went wrong. -/
def makeDirectories (d : Disk) (path : String) : Disk × Option DiskFault :=
  d.makeDirectoriesFrom ((Path.components path).length + 1) path

/-- Writes a file, which is made if it is missing; its directory has to exist. -/
def writeText (d : Disk) (path : String) (text : String) : Except DiskFault Disk :=
  match d.resolveParent path with
  | .error e => .error e
  | .ok (_, none) => .error .isADirectory
  | .ok (place, some last) =>
    if last = "." || last = ".." || path.toList.getLast? = some '/' then .error .isADirectory
    else if last.utf8ByteSize > nameLimit then .error .nameTooLong
    else if (d.root.at? (place ++ [last])).any (·.isDirectory) then .error .isADirectory
    else .ok (d.put (place ++ [last]) (.file (.text text)))

def content? (d : Disk) (place : Place) : Option Content :=
  match d.root.at? place with
  | some (.file c) => some c
  | _ => none

/-- The directories that a disk has and `old` has not, from the top down. -/
def newDirectories (old d : Disk) : List Place :=
  d.root.directoryPlaces.filter fun place => !(old.root.at? place).any (·.isDirectory)

/-- The files that a disk has and `old` has not, or not with that content. -/
def changedFiles (old d : Disk) : List (Place × Content) :=
  (d.root.filePlaces fun _ => false).filterMap fun place =>
    match d.content? place with
    | some c => if old.content? place = some c then none else some (place, c)
    | none => none

end Disk

end ClassGauge
