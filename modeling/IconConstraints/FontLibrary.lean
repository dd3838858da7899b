import IconConstraints.Font

/-!
# Font libraries

Font files are parsed by a library, and so are the bounds of a drawn path computed.
No library belongs to the program: it works with any that has these operations.
-/

namespace IconConstraints

structure Point where
  x : Float
  y : Float
  deriving DecidableEq, Repr

/-- A step of a path; each draws from where the last one ended. -/
inductive PathElement where
  | move (p : Point)
  | line (p : Point)
  | quad (control p : Point)
  | cubic (control₁ control₂ p : Point)
  | close
  deriving DecidableEq, Repr

/-- A face as a library gives it. -/
structure ParsedFace where
  glyphCount : Nat
  unitsPerEm : Nat
  /-- Whether the file has a table of quadratic outlines. -/
  hasGlyf : Bool
  /-- Whether the file has a table of cubic outlines. -/
  hasCff : Bool
  glyph? : Char → Option GlyphId
  /-- What is drawn for a glyph, unless it has no outline. -/
  outline? : GlyphId → Option (List PathElement)
  advance? : GlyphId → Option Nat

structure FontLibrary where
  /-- The first face in the bytes of a file, or a text that tells why there is none. -/
  parse : ByteArray → Except String ParsedFace
  /-- The tight bounds of a path. -/
  bounds : List PathElement → BoundingBox

end IconConstraints
