import IconConstraints.Path
import IconConstraints.Report
import Std.Data.ExtTreeMap

/-!
# File trees

A file tree holds directories and files by their place below the root.  A path is
walked piece by piece: every directory on the way has to exist, also one that a
later `..` leaves again.  A file is replaced as a whole, after the directories
that lead to it have been made.
-/

namespace IconConstraints

/-- The names from the root down. -/
abbrev Place := List String

inductive Node where
  | directory
  | file (content : ByteArray)

instance : DecidableEq Node
  | .directory, .directory => isTrue rfl
  | .directory, .file _ | .file _, .directory => isFalse nofun
  | .file a, .file b =>
    match ByteArray.instDecidableEq a b with
    | isTrue h => isTrue (congrArg Node.file h)
    | isFalse h => isFalse fun heq => h (Node.file.inj heq)

structure FileTree where
  /-- All directories and files except the root. -/
  nodes : Std.ExtTreeMap Place Node
  /-- Where relative paths start. -/
  workingDirectory : Place

namespace FileTree

def empty : FileTree := ⟨∅, []⟩

def node? (t : FileTree) (place : Place) : Option Node :=
  if place = [] then some .directory else t.nodes[place]?

/-- The files below a directory, each with its place seen from there. -/
def filesBelow (t : FileTree) (directory : Place) : List (Place × ByteArray) :=
  t.nodes.toList.filterMap fun (place, node) =>
    match node with
    | .directory => none
    | .file content =>
      if directory.isPrefixOf place then some (place.drop directory.length, content) else none

/-! ## Walking -/

/-- The greatest number of bytes in one name. -/
def nameLimit : Nat := 255

/-- The number of bytes that no path reaches. -/
def pathLimit : Nat := 4096

/-- Paths that are refused before the walk. -/
def pathFault? (p : Path) : Option IoFault :=
  if p.text.toList.contains '\x00' then some .nulInName
  else if p.text = "" then some .notFound
  else if pathLimit ≤ p.text.utf8ByteSize then some .nameTooLong
  else none

def start (t : FileTree) (p : Path) : Place :=
  if p.isAbsolute then [] else t.workingDirectory

/-- The place that the pieces lead to from `place`; the last one need not exist. -/
def walk (t : FileTree) (place : Place) : List String → Except IoFault Place
  | [] => .ok place
  | segment :: rest =>
    match t.node? place with
    | none => .error .notFound
    | some (.file _) => .error .notADirectory
    | some .directory =>
      if segment = "" ∨ segment = "." then walk t place rest
      else if segment = ".." then walk t place.dropLast rest
      else if nameLimit < segment.utf8ByteSize then .error .nameTooLong
      else walk t (place ++ [segment]) rest

def placeOf (t : FileTree) (p : Path) : Except IoFault Place :=
  match pathFault? p with
  | some fault => .error fault
  | none => t.walk (t.start p) p.segments

def nodeAt (t : FileTree) (p : Path) : Except IoFault Node :=
  match t.placeOf p with
  | .error fault => .error fault
  | .ok place =>
    match t.node? place with
    | some node => .ok node
    | none => .error .notFound

/-! ## Reading -/

def isFile (t : FileTree) (p : Path) : Bool :=
  match t.nodeAt p with
  | .ok (.file _) => true
  | _ => false

/-- The size of a file; a directory is small. -/
def sizeOf (t : FileTree) (p : Path) : Except IoFault Nat :=
  (t.nodeAt p).map fun
    | .directory => 0
    | .file content => content.size

def read (t : FileTree) (p : Path) : Except IoFault ByteArray :=
  match t.nodeAt p with
  | .error fault => .error fault
  | .ok .directory => .error .isADirectory
  | .ok (.file content) => .ok content

def readText (t : FileTree) (p : Path) : Except IoFault String :=
  match t.read p with
  | .error fault => .error fault
  | .ok content =>
    match String.fromUTF8? content with
    | some s => .ok s
    | none => .error .notUnicode

/-! ## Writing -/

def insert (t : FileTree) (place : Place) (node : Node) : FileTree :=
  { t with nodes := t.nodes.insert place node }

/-- Makes the directories that the components lead through; what is made before a fault stays. -/
def makeFrom (t : FileTree) (place : Place) : List Path.Component → FileTree × Option IoFault
  | [] => (t, none)
  | .root :: rest => makeFrom t [] rest
  | .here :: rest => makeFrom t place rest
  | .up :: rest => makeFrom t place.dropLast rest
  | .name n :: rest =>
    let next := place ++ [n]
    if nameLimit < n.utf8ByteSize then (t, some .nameTooLong)
    else
      match t.node? next with
      | none => makeFrom (t.insert next .directory) next rest
      | some .directory => makeFrom t next rest
      | some (.file _) => (t, some (if rest.isEmpty then .alreadyExists else .notADirectory))

def makeParents (t : FileTree) (p : Path) : FileTree × Option IoFault :=
  t.makeFrom (t.start p) p.parentComponents

/-- The place that a file takes.  The pieces before the last one have to lead to a directory.  The last one
cannot be dots, nor the name of a directory, nor be followed by a slash. -/
def replacePlace (t : FileTree) (p : Path) : Except IoFault Place :=
  let pieces := p.segments.reverse.dropWhile (· == "")
  match pieces with
  | [] => .error .busy
  | last :: above =>
    match t.walk (t.start p) above.reverse with
    | .error fault => .error fault
    | .ok directory =>
      match t.node? directory with
      | none => .error .notFound
      | some (.file _) => .error .notADirectory
      | some .directory =>
        let place := directory ++ [last]
        if last = "." ∨ last = ".." then .error .busy
        else if nameLimit < last.utf8ByteSize then .error .nameTooLong
        else if p.segments.getLast? = some "" then .error .notADirectory
        else if t.node? place = some .directory then .error .isADirectory
        else .ok place

/-- Replaces the file as a whole. -/
def write (t : FileTree) (p : Path) (content : ByteArray) : FileTree × Option IoFault :=
  match pathFault? p with
  | some fault => (t, some fault)
  | none =>
    match t.makeParents p with
    | (t, some fault) => (t, some fault)
    | (t, none) =>
      match t.replacePlace p with
      | .error fault => (t, some fault)
      | .ok place => (t.insert place (.file content), none)

/-- Writes a file and tells so. -/
def writeFile (p : Path) (content : ByteArray) : Session FileTree Unit := fun t =>
  match t.write p content with
  | (t, some fault) => ⟨t, .fail (.io fault)⟩
  | (t, none) => ⟨t, .tell (.fileWritten content.size p.text)⟩

/-! ## Arranging a tree -/

/-- The tree with a file at the place, and directories above it. -/
def withFile (t : FileTree) (place : Place) (content : ByteArray) : FileTree :=
  let above := (List.range place.length).foldl (fun (t : FileTree) n =>
    if n = 0 then t else t.insert (place.take n) .directory) t
  above.insert place (.file content)

/-- The tree with a directory at the place and above it. -/
def withDirectory (t : FileTree) (place : Place) : FileTree :=
  (List.range place.length).foldl (fun (t : FileTree) n => t.insert (place.take (n + 1)) .directory) t

/-- The tree without the place and all below it. -/
def without (t : FileTree) (place : Place) : FileTree :=
  { t with nodes := t.nodes.filter fun other _ => !place.isPrefixOf other }

end FileTree

end IconConstraints
