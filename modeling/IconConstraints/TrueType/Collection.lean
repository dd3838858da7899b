import IconConstraints.TrueType.Block

/-!
# The frame of font files

A font file begins with a magic number and a directory of its tables; a collection
begins with the offsets of its faces, of which the first one is read.
-/

namespace IconConstraints.TrueType

def unknownMagic : String := "unknown magic"

def malformed : String := "malformed font"

def noSuchFace : String := "face index is out of bounds"

def collectionMagic : Nat := 0x74746366

/-- The magic numbers of single faces. -/
def faceMagics : List Nat := [0x00010000, 0x74727565, 0x4f54544f]

/-- Where the directory of the face at an offset begins. -/
def directoryStart (file : Block) (offset : Nat) : Except String Nat :=
  match file.long? offset with
  | none => .error unknownMagic
  | some magic => if faceMagics.contains magic then .ok (offset + 4) else .error unknownMagic

/-- Where the first face of a collection begins. -/
def firstFace (file : Block) : Except String Nat :=
  match file.long? 8 with
  | none => .error malformed
  | some faces =>
    let behind := 12 + 4 * faces
    if file.size < behind then .error malformed
    else if faces = 0 then .error noSuchFace
    else
      match file.long? 12 with
      | none => .error malformed
      | some offset => if offset < behind ∨ file.size < offset then .error malformed else .ok offset

/-- The tables of a face, by their tags. -/
abbrev Directory := List (Nat × Block)

/-- A record of the directory; a table that is not inside of the file is left out. -/
def directoryRecord? (file : Block) (offset : Nat) : Option (Nat × Block) := do
  let tag ← file.long? offset
  let start ← file.long? (offset + 8)
  let size ← file.long? (offset + 12)
  let table ← file.part? start size
  return (tag, table)

def directory (file : Block) : Except String Directory := do
  let face ← if file.long? 0 = some collectionMagic then firstFace file else .ok 0
  let start ← directoryStart file face
  match file.word? start with
  | none => .error malformed
  | some tables =>
    if file.size < start + 8 + 16 * tables then .error malformed
    else .ok ((List.range tables).filterMap fun n => directoryRecord? file (start + 8 + 16 * n))

end IconConstraints.TrueType
