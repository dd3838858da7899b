import IconConstraints.FontLibrary
import IconConstraints.TrueType.Block

/-!
# TrueType glyphs

A glyph is drawn by closed contours.  Points on the curve are joined by lines,
points off the curve are quadratic controls, and between two of them the curve
passes through their midpoint.  A contour that begins off the curve begins at its
first point on the curve, or at the midpoint of its first two points, and comes
back to the skipped control at its end.  Glyphs that are composed of others are not
drawn.
-/

namespace IconConstraints.TrueType

structure ContourPoint where
  x : Int
  y : Int
  onCurve : Bool
  deriving DecidableEq, Repr

abbrev Contour := List ContourPoint

/-! ## Reading contours -/

/-- The flags of `count` points, the first of which repeats a flag so many times. -/
def flags? (b : Block) : (count : Nat) → (flag times : Nat) → (offset : Nat) → Option (List Nat × Nat)
  | 0, _, _, offset => some ([], offset)
  | count + 1, flag, times + 1, offset => do
    let (flags, offset) ← flags? b count flag times offset
    return (flag :: flags, offset)
  | count + 1, _, 0, offset => do
    let flag ← b.byte? offset
    let times ← if flag.testBit 3 then b.byte? (offset + 1) else some 0
    let (flags, offset) ← flags? b count flag times (if flag.testBit 3 then offset + 2 else offset + 1)
    return (flag :: flags, offset)

/-- Coordinates along one axis.  A flag tells with the bit `short` whether the difference to the last one takes
a single byte, and with the bit `same` its sign, or else that there is none. -/
def coordinates? (b : Block) (short same : Nat) : List Nat → (last : Int) → (offset : Nat) →
    Option (List Int × Nat)
  | [], _, offset => some ([], offset)
  | flag :: flags, last, offset => do
    let (difference, width) ←
      if flag.testBit short then do
        let size ← b.byte? offset
        pure (if flag.testBit same then (size : Int) else -size, 1)
      else if flag.testBit same then some (0, 0)
      else do
        let n ← b.word? offset
        pure ((n : Int), 2)
    let here := signed (last + difference)
    let (coordinates, offset) ← coordinates? b short same flags here (offset + width)
    return (here :: coordinates, offset)

/-- Splits points into contours, the last points of which are numbered from `first` on. -/
def contours : (ends : List Nat) → (first : Nat) → List ContourPoint → List Contour
  | [], _, _ => []
  | last :: ends, first, points =>
    points.take (last + 1 - first) :: contours ends (last + 1) (points.drop (last + 1 - first))

/-- The contours of a glyph that is not composed of others. -/
def contours? (b : Block) : Option (List Contour) := do
  let count ← b.word? 0
  if 0x8000 ≤ count then none
  let ends ← (List.range count).mapM fun n => b.word? (10 + 2 * n)
  let last ← ends.getLast?
  let instructions ← b.word? (10 + 2 * count)
  let (flags, offset) ← flags? b (last + 1) 0 0 (12 + 2 * count + instructions)
  let (xs, offset) ← coordinates? b 1 4 flags 0 offset
  let (ys, _) ← coordinates? b 2 5 flags 0 offset
  let points := (xs.zip (ys.zip flags)).map fun (x, y, flag) => ⟨x, y, flag.testBit 0⟩
  return contours ends 0 points

/-! ## Drawing contours -/

namespace ContourPoint

/-- Coordinates have 16 bits, so they and the midpoints of controls are exact. -/
def point (p : ContourPoint) : Point :=
  ⟨.ofInt p.x, .ofInt p.y⟩

end ContourPoint

def midpoint (p q : Point) : Point :=
  ⟨p.x + 0.5 * (q.x - p.x), p.y + 0.5 * (q.y - p.y)⟩

/-- The way around a contour: where the curve began, the control skipped before that, and the control that
waits for its end point. -/
structure Walk where
  start : Option Point
  skipped : Option Point
  pending : Option Point
  deriving DecidableEq, Repr

namespace Walk

def begin : Walk := ⟨none, none, none⟩

/-- One more point, and the element it draws. -/
def step (w : Walk) (p : ContourPoint) : Walk × List PathElement :=
  let here := p.point
  match w.start with
  | none =>
    if p.onCurve then ({ w with start := some here }, [.move here])
    else
      match w.skipped with
      | none => ({ w with skipped := some here }, [])
      | some first =>
        let middle := midpoint first here
        ({ w with start := some middle, pending := some here }, [.move middle])
  | some _ =>
    match w.pending, p.onCurve with
    | some control, true => ({ w with pending := none }, [.quad control here])
    | some control, false => ({ w with pending := some here }, [.quad control (midpoint control here)])
    | none, true => (w, [.line here])
    | none, false => ({ w with pending := some here }, [])

/-- The elements that close the contour. -/
def finish (w : Walk) : List PathElement :=
  match w.start, w.skipped, w.pending with
  | some start, some first, some last =>
    [.quad last (midpoint last first), .quad first start, .close]
  | some start, some first, none => [.quad first start, .close]
  | some start, none, some last => [.quad last start, .close]
  | some start, none, none => [.line start, .close]
  | none, _, _ => [.close]

def elements : Walk → Contour → List PathElement
  | w, [] => w.finish
  | w, p :: rest =>
    let (next, drawn) := w.step p
    drawn ++ elements next rest

end Walk

/-- What contours draw; a single point draws nothing. -/
def outline? (contours : List Contour) : Option (List PathElement) :=
  match contours with
  | [] => none
  | [[_]] => none
  | contours => some (contours.flatMap (Walk.elements .begin))

end IconConstraints.TrueType
