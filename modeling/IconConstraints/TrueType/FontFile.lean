import IconConstraints.Font
import IconConstraints.TrueType.Glyph

/-!
# Writing TrueType font files

A font file is described by its glyphs and its character map, and may be left without
some of its tables.  Glyph offsets have 32 bits, and the character map has a group for
each codepoint.
-/

namespace IconConstraints.TrueType

structure Glyph where
  advance : Nat
  contours : List Contour
  deriving DecidableEq, Repr

structure FontFile where
  unitsPerEm : Nat
  glyphs : List Glyph
  /-- Codepoints with their glyphs; of several for one codepoint the least glyph counts. -/
  characterMap : List (Codepoint × GlyphId)
  /-- The tables that the file does not have. -/
  omitted : List String
  deriving DecidableEq, Repr

/-! ## Bytes -/

/-- The last `count` bytes of a number. -/
def bytesOf (count n : Nat) : List UInt8 :=
  (List.range count).reverse.map fun i => UInt8.ofNat (n >>> (8 * i))

def word (n : Nat) : List UInt8 :=
  bytesOf 2 n

def long (n : Nat) : List UInt8 :=
  bytesOf 4 n

def zeros (count : Nat) : List UInt8 :=
  List.replicate count 0

/-- The sums of the numbers up to each place, the first of them zero. -/
def sums (numbers : List Nat) : List Nat :=
  (List.range (numbers.length + 1)).map fun n => (numbers.take n).foldl (· + ·) 0

/-- The differences from each number to the next one, the first from zero. -/
def differences (numbers : List Int) : List UInt8 :=
  (numbers.zip (0 :: numbers)).flatMap fun (n, last) => word ((n - last) % 0x10000).toNat

def Glyph.bytes (g : Glyph) : List UInt8 :=
  if g.contours.isEmpty then []
  else
    let points := g.contours.flatten
    word g.contours.length ++ zeros 8 ++
      ((sums (g.contours.map (·.length))).drop 1).flatMap (fun n => word (n - 1)) ++ word 0 ++
      points.map (fun p => if p.onCurve then 1 else 0) ++
      differences (points.map (·.x)) ++ differences (points.map (·.y))

/-! ## Tables -/

namespace FontFile

def characterTable (f : FontFile) : List UInt8 :=
  let groups := f.characterMap.mergeSort fun a b => decide (a.1 < b.1) || a.1 == b.1 && decide (a.2 ≤ b.2)
  word 0 ++ word 1 ++ word 3 ++ word 10 ++ long 12 ++
    word 12 ++ word 0 ++ long (16 + 12 * groups.length) ++ long 0 ++ long groups.length ++
    groups.flatMap fun (cp, glyph) => long cp ++ long cp ++ long glyph

def tables (f : FontFile) : List (String × List UInt8) :=
  let glyphs := f.glyphs.map Glyph.bytes
  let all := [
    ("head", zeros 18 ++ word f.unitsPerEm ++ zeros 30 ++ word 1 ++ word 0),
    ("hhea", zeros 34 ++ word f.glyphs.length),
    ("maxp", long 0x5000 ++ word f.glyphs.length),
    ("glyf", glyphs.flatten),
    ("loca", (sums (glyphs.map (·.length))).flatMap long),
    ("cmap", f.characterTable),
    ("hmtx", f.glyphs.flatMap fun g => word g.advance ++ word 0)]
  all.filter fun table => !f.omitted.contains table.1

def bytes (f : FontFile) : ByteArray :=
  let tables := f.tables
  let starts := (sums (tables.map (·.2.length))).map (12 + 16 * tables.length + ·)
  let records := (tables.zip starts).flatMap fun ((tag, table), start) =>
    tag.toList.map (fun c => UInt8.ofNat c.toNat) ++ zeros 4 ++ long start ++ long table.length
  (long 0x10000 ++ word tables.length ++ zeros 6 ++ records ++ tables.flatMap (·.2)).toByteArray

end FontFile

/-- The bytes of a font with one glyph, which draws nothing. -/
def outlineFile : ByteArray :=
  FontFile.bytes ⟨1000, [⟨500, []⟩], [], ["cmap", "hmtx"]⟩

end IconConstraints.TrueType
