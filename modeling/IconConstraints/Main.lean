import IconConstraints.BuiltIn
import IconConstraints.CommandLine
import IconConstraints.CommandLine.Help

/-!
# The program

The files that a run looks at are read from the disk into a file tree, the run is
executed on it, and what it has changed is written back.
-/

namespace IconConstraints.Program

open CommandLine

def diskPath (place : Place) : String :=
  "/" ++ "/".intercalate place

/-- Only a directory has a dot in it. -/
def isDirectory (path : String) : IO Bool := do
  try
    discard (IO.FS.Handle.mk (path ++ "/.") .read)
    return true
  catch _ => return false

/-- What the disk has at a place. -/
def readNode (place : Place) : IO (Option Node) := do
  if ← isDirectory (diskPath place) then return some .directory
  try
    return some (.file (← IO.FS.readBinFile (diskPath place)))
  catch _ => return none

/-- The place of a path when no directory on the way is missing. -/
def placeOf (t : FileTree) (p : Path) : Place :=
  p.components.foldl (fun place c =>
    match c with
    | .root => []
    | .here => place
    | .up => place.dropLast
    | .name n => place ++ [n]) (t.start p)

/-- Adds to the tree what the disk has on the way to a path. -/
def addPath (t : FileTree) (p : Path) : IO FileTree := do
  let place := placeOf t p
  let mut t := t
  for n in List.range place.length do
    let above := place.take (n + 1)
    if let some node ← readNode above then
      t := t.insert above node
  return t

def writeNode (place : Place) : Node → IO Unit
  | .directory => IO.FS.createDirAll (diskPath place)
  | .file content => IO.FS.writeBinFile (diskPath place) content

/-- Writes what differs between two trees; directories come before what they hold. -/
def writeChanges (before after : FileTree) : IO Unit := do
  for (place, node) in after.nodes.toList do
    if before.nodes[place]? != some node then
      writeNode place node

variable (L : Libraries)

def run (i : Invocation) (start : FileTree) : IO UInt32 := do
  let withScript ← addPath start i.project.script
  let script := match withScript.readText i.project.script with
    | .ok s => s
    | .error _ => ""
  let before ← (i.paths script).foldlM addPath withScript
  let ending := i.execute L before
  writeChanges before ending.tree
  for e in ending.events do
    if e.level.within i.verbosity then
      IO.eprintln ("[" ++ e.level.name ++ " " ++ e.target ++ "] " ++ e.text)
  match ending.exit with
  | .failed text => IO.eprint text
  | _ => pure ()
  return UInt32.ofNat ending.exit.status

/-- The program with its arguments. -/
def main (arguments : List String) : IO UInt32 := do
  let workingDirectory := toString (← IO.currentDir)
  let environmentRoot ← IO.getEnv "GLYPHRULES_PROJECT_ROOT"
  match command arguments environmentRoot workingDirectory with
  | .error fault =>
    IO.eprint fault.text
    return UInt32.ofNat (Exit.usage fault).status
  | .ok (.inquire inquiry) =>
    IO.print inquiry.answer
    return UInt32.ofNat (Exit.inquiry inquiry).status
  | .ok (.run i) =>
    let place := (Path.mk workingDirectory).segments.filter (· != "")
    run L i ⟨(FileTree.empty.withDirectory place).nodes, place⟩

end IconConstraints.Program

def main (arguments : List String) : IO UInt32 :=
  IconConstraints.Program.main .builtIn arguments
