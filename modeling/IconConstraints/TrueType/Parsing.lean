import IconConstraints.Outline
import IconConstraints.TrueType.Collection
import IconConstraints.TrueType.Glyph

/-!
# TrueType font files

A library that parses TrueType fonts.  A face needs a header, a horizontal header and a
count of glyphs; without a character map nothing is mapped, and without horizontal metrics
no advance is known.  Cubic outlines are found, but not drawn.
-/

namespace IconConstraints.TrueType

/-! ## Tables -/

/-- The number that the four characters of a tag write. -/
def tagNumber (tag : String) : Nat :=
  tag.toList.foldl (fun n c => 256 * n + c.toNat) 0

def Directory.table? (d : Directory) (tag : String) : Option Block :=
  d.lookup (tagNumber tag)

/-- What is read of a table, which must not be missing. -/
def Directory.required {α : Type} (d : Directory) (tag : String) (read : Block → Option α) : Except String α :=
  match (d.table? tag).bind read with
  | some a => .ok a
  | none => .error ("the " ++ tag ++ " table is missing or malformed")

/-- The size of the em square, and whether offsets of glyphs have 32 bits. -/
def header? (head : Block) : Option (Nat × Bool) := do
  let _ ← head.part? 0 54
  let units ← head.word? 18
  let format ← head.word? 50
  if units < 16 ∨ 16384 < units ∨ 1 < format then none
  else some (units, format == 1)

/-- The number of glyphs that have an advance of their own. -/
def metricCount? (hhea : Block) : Option Nat :=
  hhea.word? 34

def glyphCount? (maxp : Block) : Option Nat := do
  let version ← maxp.long? 0
  let count ← maxp.word? 4
  if (version = 0x5000 ∨ version = 0x10000) ∧ count ≠ 0 then some count else none

/-- Where the glyphs stand in their table. -/
structure Locations where
  table : Block
  isLong : Bool

namespace Locations

def offset? (l : Locations) (n : Nat) : Option Nat :=
  if l.isLong then l.table.long? (4 * n) else (l.table.word? (2 * n)).map (2 * ·)

/-- The bytes of a glyph. -/
def glyph? (l : Locations) (glyf : Block) (glyph : GlyphId) : Option Block := do
  let start ← l.offset? glyph
  let stop ← l.offset? (glyph + 1)
  if stop ≤ start then none else glyf.part? start (stop - start)

end Locations

/-- The advance of a glyph; the last one that is given counts for all that follow. -/
def advance? (hmtx : Block) (glyphs metrics : Nat) (glyph : GlyphId) : Option Nat :=
  if glyph < glyphs ∧ 0 < metrics then hmtx.word? (4 * min glyph (metrics - 1)) else none

/-! ## Character maps -/

/-- Looks a codepoint up in segments of 16 bits. -/
def segmentGlyph? (b : Block) (cp : Codepoint) : Option GlyphId := do
  let doubled ← b.word? 6
  let segment (n : Nat) : Option GlyphId := do
    let last ← b.word? (14 + 2 * n)
    let first ← b.word? (16 + doubled + 2 * n)
    let delta ← b.word? (16 + 2 * doubled + 2 * n)
    let place := 16 + 3 * doubled + 2 * n
    let range ← b.word? place
    if cp < first ∨ last < cp then none
    else if range = 0 then some ((cp + delta) % 0x10000)
    else do
      let glyph ← b.word? (place + range + 2 * (cp - first))
      if glyph = 0 then none else some ((glyph + delta) % 0x10000)
  (List.range (doubled / 2)).findSome? segment

/-- Looks a codepoint up in groups of 32 bits. -/
def groupGlyph? (b : Block) (cp : Codepoint) : Option GlyphId := do
  let count ← b.long? 12
  let group (n : Nat) : Option GlyphId := do
    let first ← b.long? (16 + 12 * n)
    let last ← b.long? (20 + 12 * n)
    let glyph ← b.long? (24 + 12 * n)
    if cp < first ∨ last < cp then none else some (glyph + (cp - first))
  (List.range (min count (b.size / 12))).findSome? group

def subtableGlyph? (b : Block) (cp : Codepoint) : Option GlyphId :=
  match b.word? 0 with
  | some 4 => segmentGlyph? b cp
  | some 12 => groupGlyph? b cp
  | _ => none

/-- Whether a subtable for this platform and encoding maps codepoints. -/
def isUnicode (platform encoding : Nat) : Bool :=
  platform == 0 || platform == 3 && (encoding == 1 || encoding == 10)

/-- The subtables that map codepoints. -/
def subtables (cmap : Block) : List Block :=
  let subtable? (n : Nat) : Option Block := do
    let platform ← cmap.word? (4 + 8 * n)
    let encoding ← cmap.word? (6 + 8 * n)
    let offset ← cmap.long? (8 + 8 * n)
    if isUnicode platform encoding then some (cmap.drop offset) else none
  (List.range ((cmap.word? 2).getD 0)).filterMap subtable?

/-! ## Faces -/

/-- Reads a face: its glyphs are looked up when they are asked for. -/
def parse (data : ByteArray) : Except String ParsedFace := do
  let tables ← directory (.ofData data)
  let (units, isLong) ← tables.required "head" header?
  let metrics ← tables.required "hhea" metricCount?
  let count ← tables.required "maxp" glyphCount?
  let maps := ((tables.table? "cmap").map subtables).getD []
  let locations := (tables.table? "loca").map (Locations.mk · isLong)
  let glyf := if locations.isSome then tables.table? "glyf" else none
  return {
    glyphCount := count
    unitsPerEm := units
    hasGlyf := glyf.isSome
    hasCff := (tables.table? "CFF ").isSome
    glyph? := fun c => maps.findSome? fun map => subtableGlyph? map c.toNat
    outline? := fun glyph => do
      if count ≤ glyph then none
      let block ← (← locations).glyph? (← glyf) glyph
      outline? (← contours? block)
    advance? := fun glyph => do
      advance? (← tables.table? "hmtx") count metrics glyph }

def library : FontLibrary where
  parse := parse
  bounds := Outline.bounds

end IconConstraints.TrueType
