import IconConstraints.BoundingBox
import IconConstraints.Codepoint

/-!
# Fonts

What the compilation asks of a font: which glyph a codepoint has, and the extent
and the advance of a glyph in font units.
-/

namespace IconConstraints

abbrev GlyphId := Nat

structure Font where
  glyph? : Codepoint → Option GlyphId
  /-- The tight bounds of the outline; a glyph that draws nothing has none. -/
  bounds? : GlyphId → Option BoundingBox
  advance? : GlyphId → Option Float

namespace Font

def has (f : Font) (cp : Codepoint) : Bool :=
  (f.glyph? cp).isSome

/-- What is measured of a glyph. -/
structure Outline where
  bounds : BoundingBox
  advance : Option Float
  deriving DecidableEq, Repr

def outline? (f : Font) (cp : Codepoint) : Option Outline := do
  let glyph ← f.glyph? cp
  let bounds ← f.bounds? glyph
  return ⟨bounds, f.advance? glyph⟩

/-- A glyph that is given by its measures. -/
structure Glyph where
  bounds : Option BoundingBox
  advance : Option Float
  deriving DecidableEq, Repr

/-- The font that has exactly the given glyphs, each numbered by its codepoint. -/
def ofGlyphs (glyphs : CodepointMap Glyph) : Font where
  glyph? cp := if glyphs.contains cp then some cp else none
  bounds? glyph := glyphs[glyph]?.bind (·.bounds)
  advance? glyph := glyphs[glyph]?.bind (·.advance)

end Font

end IconConstraints
