import IconConstraints.Error
import IconConstraints.FontLibrary

/-!
# Faces

A face is a font that has been read from a file.
-/

namespace IconConstraints

/-- Glyphs are numbered with 16 bits. -/
def glyphBound : Nat := 0x10000

namespace ParsedFace

/-- Glyph 0 stands for a missing character, and only scalar values are mapped. -/
def glyphOf? (f : ParsedFace) (cp : Codepoint) : Option GlyphId :=
  if h : cp.isValidChar then (f.glyph? (Char.ofNatAux cp h)).filter (· != 0) else none

/-- The path of a glyph that draws something. -/
def path? (f : ParsedFace) (glyph : GlyphId) : Option (List PathElement) :=
  (f.outline? glyph).filter fun path => !path.isEmpty

/-- The access to the glyphs of a face. -/
def font (f : ParsedFace) (bounds : List PathElement → BoundingBox) : Font where
  glyph? := f.glyphOf?
  bounds? glyph := if glyph < glyphBound then (f.path? glyph).map bounds else none
  advance? glyph := if glyph < glyphBound then (f.advance? glyph).map .ofNat else none

end ParsedFace

structure Face where
  /-- Where the font comes from, for messages. -/
  path : String
  glyphCount : Nat
  unitsPerEm : Nat
  font : Font

namespace Face

variable (fonts : FontLibrary)

/-- A face has to have outlines, in either format. -/
def ofContent? (path : String) (content : ByteArray) : Except FontFault Face :=
  match fonts.parse content with
  | .error reason => .error (.unparsable reason)
  | .ok parsed =>
    if !parsed.hasGlyf && !parsed.hasCff then .error .noOutlines
    else .ok ⟨path, parsed.glyphCount, parsed.unitsPerEm, parsed.font fonts.bounds⟩

def ofContent (path : String) (content : ByteArray) : Except Error Face :=
  (ofContent? fonts path content).mapError (.invalidFont path)

end Face

end IconConstraints
