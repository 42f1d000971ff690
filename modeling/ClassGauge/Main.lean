import ClassGauge.CommandLine.Run
import ClassGauge.Syntax.Listing

/-! # The program

Loads what a run can see of the file system, runs, prints, and writes what the run has changed.
Parsing is not part of the program: the tree of a source file `a.ts` is read from the listing
`a.ts.tree` that a parser has left beside it, and a file without a listing is skipped.
-/

namespace ClassGauge.CommandLine

open Syntax

/-- What a load has found: the tree of entries, and the syntax tree of each source text. -/
structure Loading where
  root : Entry
  trees : List ((Dialect × String) × (Tree × Bool))

/-- Adds a file, and with a source file its syntax tree. -/
def Loading.addFile (l : Loading) (place : Place) : IO Loading := do
  let path := place.toPath
  let content := Content.ofBytes (← IO.FS.readBinFile path).toList
  let l := { l with root := l.root.put place (.file content) }
  let (some dialect, .text source) := (Dialect.ofPath? path, content) | return l
  let listing? ← try some <$> IO.FS.readFile (path ++ ".tree") catch _ => pure none
  match listing?.bind (Tree.ofListingText? source) with
  | some t => return { l with trees := ((dialect, source), t) :: l.trees }
  | none => return l

/-- Adds a file or a directory, as far as it is not there yet: a directory without what it holds. -/
def Loading.addPlace (l : Loading) (place : Place) : IO Loading := do
  if (l.root.at? place).isSome then return l
  try
    let path ← IO.FS.realPath place.toPath
    if ← path.isDir then return { l with root := l.root.put place (.directory []) }
    else if ← path.pathExists then l.addFile place
    else return l
  catch _ => return l

/-- Adds everything that a path runs through, from `here` on. -/
def Loading.addPath (l : Loading) (here : Place) (path : String) : IO Loading := do
  let mut l := l
  let mut place : Place := if Path.isAbsolute path then [] else here
  for segment in Path.segments path do
    if segment = ".." then
      place := place.dropLast
    else if segment ≠ "" && segment ≠ "." then
      place := place ++ [segment]
      l ← l.addPlace place
  return l

/-- Adds a directory with all that it holds, down to `depth` levels. -/
def Loading.addDirectory (l : Loading) (place : Place) : (depth : Nat) → IO Loading
  | 0 => return l
  | depth + 1 => do
    let mut l ← l.addPlace place
    if (l.root.at? place).any Entry.isDirectory then
      try
        for entry in ← (← IO.FS.realPath place.toPath).readDir do
          unless isIgnoredDirectory entry.fileName && (← entry.path.isDir) do
            l ← l.addDirectory (place ++ [entry.fileName]) depth
      catch _ => return l
    return l

/-- Loads what a run with options can see from the directory `here`. -/
def load (here : Place) (o : Options) : IO (Disk × Parser) := do
  let mut l : Loading := ⟨.directory [], []⟩
  l ← l.addPath [] here.toPath
  l ← l.addPath here o.project
  for path in Path.ancestors o.project do
    for name in settingsFileNames do
      l ← l.addPath here (Path.join path name)
  for path in o.config.toList ++ o.output.toList do
    l ← l.addPath here path
  let mut disk : Disk := ⟨l.root, here⟩
  if let .ok place := disk.resolve o.project then
    -- No path is long enough to lead further down.
    l ← l.addDirectory place Disk.pathLimit
  disk := ⟨l.root, here⟩
  if let .ok selection := selectionOf disk o then
    l ← l.addPath here (selection.outputFor (reportRoot disk o.project))
  let trees := l.trees
  return (⟨l.root, here⟩, fun dialect source => trees.lookup (dialect, source))

/-- Writes what a run has changed: the directories that are new, also those of a run that failed
afterwards, and then the files. -/
def store (old d : Disk) : IO Unit := do
  for place in old.newDirectories d do
    IO.FS.createDirAll (Place.toPath place)
  for (place, content) in old.changedFiles d do
    if let .text s := content then IO.FS.writeFile place.toPath s

/-- Runs the program and answers with its status. -/
def execute (arguments : List String) : IO UInt32 := do
  let here := (Path.segments (toString (← IO.currentDir))).filter (!·.isEmpty)
  let (disk, parse) ← match Options.parse arguments with
    | .ok (.run o) => load here o
    | _ => pure (⟨.directory [], here⟩, fun _ _ => none)
  let effect := run disk parse arguments
  IO.print effect.stdout
  IO.eprint effect.stderr
  store disk effect.disk
  return UInt32.ofNat effect.status

end ClassGauge.CommandLine

def main (arguments : List String) : IO UInt32 :=
  ClassGauge.CommandLine.execute arguments
