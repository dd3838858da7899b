/-!
# Bounding boxes

The extent of an outline in font units.  The smaller and the larger of two
numbers ignore an operand that is not a number.
-/

namespace IconConstraints

def smaller (a b : Float) : Float :=
  if a.isNaN then b
  else if b.isNaN then a
  else if b < a then b
  else a

def larger (a b : Float) : Float :=
  if a.isNaN then b
  else if b.isNaN then a
  else if a < b then b
  else a

structure BoundingBox where
  xMin : Float
  yMin : Float
  xMax : Float
  yMax : Float
  deriving DecidableEq, Repr

namespace BoundingBox

def width (b : BoundingBox) : Float :=
  b.xMax - b.xMin

def height (b : BoundingBox) : Float :=
  b.yMax - b.yMin

/-- The smallest box that contains both. -/
def union (a b : BoundingBox) : BoundingBox where
  xMin := smaller a.xMin b.xMin
  yMin := smaller a.yMin b.yMin
  xMax := larger a.xMax b.xMax
  yMax := larger a.yMax b.yMax

/-- The first box, extended upward and downward to the extent of the second. -/
def unionVertical (a b : BoundingBox) : BoundingBox :=
  { a with yMin := smaller a.yMin b.yMin, yMax := larger a.yMax b.yMax }

end BoundingBox

end IconConstraints
