import IconConstraints.FileTree
import IconConstraints.Libraries

/-!
# Font caches

Faces that were read lately are kept.  A face that is asked for again becomes the latest;
when there are too many, the one not asked for the longest is dropped.  A font that cannot
be read is not kept.
-/

namespace IconConstraints

/-- The greatest size of a font file. -/
def greatestFontSize : Nat := 50 * 1024 * 1024

def checkFontSize (path : String) (size : Nat) : Except Error Unit :=
  if greatestFontSize < size then .error (.invalidFont path (.tooLarge size greatestFontSize)) else .ok ()

/-- A font that does not exist is told apart from one that cannot be read. -/
def fontError (path : String) : IoFault → Error
  | .notFound => .fontNotFound path
  | fault => .io fault

/-- Reads a font file of allowed size. -/
def Face.read (fonts : FontLibrary) (t : FileTree) (p : Path) : Except Error Face := do
  let size ← (t.sizeOf p).mapError (fontError p.text)
  checkFontSize p.text size
  let content ← (t.read p).mapError (fontError p.text)
  Face.ofContent fonts p.text content

/-- The faces that are kept. -/
structure FontCache (L : Libraries) where
  faces : L.faces.Map

namespace FontCache

variable {L : Libraries}

/-- There is room for at least one face. -/
def ofCapacity (capacity : Nat) : FontCache L :=
  ⟨L.faces.new (max capacity 1)⟩

def standardCapacity : Nat := 32

def standard : FontCache L := ofCapacity standardCapacity

def capacity (c : FontCache L) : Nat :=
  L.faces.capacity c.faces

def size (c : FontCache L) : Nat :=
  L.faces.size c.faces

def clear (c : FontCache L) : FontCache L :=
  ⟨L.faces.clear c.faces⟩

/-- The face of a path, if it is kept, and the cache after it has been asked for. -/
def get (c : FontCache L) (p : Path) : Option Face × FontCache L :=
  let (face, faces) := L.faces.get c.faces p.components
  (face, ⟨faces⟩)

def put (c : FontCache L) (p : Path) (face : Face) : FontCache L :=
  ⟨L.faces.put c.faces p.components face⟩

/-- The face of a path, from the cache or from its file. -/
def load (t : FileTree) (p : Path) : Session (FontCache L) Face := fun c =>
  match c.get p with
  | (some face, c) => ⟨c, .pure face⟩
  | (none, c) =>
    match Face.read L.fonts t p with
    | .error e => ⟨c, .fail e⟩
    | .ok face => ⟨c.put p face, ⟨[.fontLoaded p.text face.glyphCount face.unitsPerEm], .ok face⟩⟩

end FontCache

end IconConstraints
