import IconConstraints.BoundingBox
import IconConstraints.PatchSet
import IconConstraints.Text.Search

/-!
# Constraints

A constraint says how a terminal places one glyph in its cell.  It is the
canonical form of an attribute entry: fields that have no effect are left unset.
Two constraints are the same rule when their identities agree, which takes
floats by their bits and does not tell the two zeros apart.
-/

namespace IconConstraints

/-- How a glyph is sized into its cell. -/
inductive Sizing where
  | cover
  | fitCover
  | stretch
  deriving DecidableEq, Repr, Hashable

def Sizing.text : Sizing → String
  | .cover => "cover"
  | .fitCover => "fit_cover"
  | .stretch => "stretch"

/-- The height that a glyph is scaled against. -/
inductive HeightBasis where
  /-- The height of an icon, which is less than that of the cell. -/
  | icon
  deriving DecidableEq, Repr, Hashable

def HeightBasis.text : HeightBasis → String
  | .icon => "icon"

structure Constraint where
  sizing : Option Sizing
  height : Option HeightBasis
  /-- The number of cells that a glyph may be widened to. -/
  maxWidth : Option UInt8
  alignHorizontal : Option Alignment
  alignVertical : Option Alignment
  relativeWidth : Option Scalar
  relativeHeight : Option Scalar
  relativeX : Option Scalar
  relativeY : Option Scalar
  padLeft : Option Scalar
  padRight : Option Scalar
  padTop : Option Scalar
  padBottom : Option Scalar
  /-- The greatest ratio of width to height. -/
  maxRatio : Option Scalar
  deriving DecidableEq, Repr

namespace Constraint

/-! ## From attribute entries -/

/-- The flags of a stretch text: `pa` keeps the proportions, `!` lets them overflow, and `xy` does not keep
them. -/
def sizingOf (stretch : String) (overlap : Scalar) : Option Sizing :=
  if Text.occursIn "pa" stretch then
    if Text.occursIn "!" stretch || overlap.toFloat != 0.0 then some .cover else some .fitCover
  else if Text.occursIn "xy" stretch then some .stretch
  else none

/-- A caret scales against the full cell. -/
def heightOf (stretch : String) : Option HeightBasis :=
  if Text.occursIn "^" stretch then none else some .icon

/-- One cell if `1` asks for it, or where nothing allows two. -/
def maxWidthOf (stretch : String) : Option UInt8 :=
  if Text.occursIn "1" stretch || (!Text.occursIn "pa" stretch && !Text.occursIn "2" stretch) then some 1
  else none

def changed (neutral : Float) (x : Scalar) : Option Scalar :=
  if x.toFloat != neutral then some x else none

/-- The padding at the left and right: an overlap reaches over both sides. -/
def horizontalPad (entry : AttributeEntry) : Option Scalar :=
  if entry.overlap.toFloat != 0.0 then some entry.overlap.negated.halved else none

/-- The greatest overlap above and below. -/
def verticalOverlapLimit : Float := 0.01

/-- The padding above and below: the overlap up to its limit, or else the vertical padding. -/
def verticalPad (entry : AttributeEntry) : Option Scalar :=
  if entry.overlap.toFloat != 0.0 then
    some (.ofFloat (-(smaller entry.overlap.toFloat verticalOverlapLimit) / 2.0))
  else if entry.yPadding.toFloat != 0.0 then some entry.yPadding.halved
  else none

def ofEntry (entry : AttributeEntry) : Constraint where
  sizing := sizingOf entry.stretch entry.overlap
  height := heightOf entry.stretch
  maxWidth := maxWidthOf entry.stretch
  alignHorizontal := entry.align
  alignVertical := entry.valign
  relativeWidth := changed 1.0 entry.relativeWidth
  relativeHeight := changed 1.0 entry.relativeHeight
  relativeX := changed 0.0 entry.relativeX
  relativeY := changed 0.0 entry.relativeY
  padLeft := horizontalPad entry
  padRight := horizontalPad entry
  padTop := verticalPad entry
  padBottom := verticalPad entry
  maxRatio := if entry.xyRatio.toFloat > 0.0 then some entry.xyRatio else none

/-! ## Identity -/

/-- What two constraints have to share to be one rule. -/
structure Identity where
  sizing : Option Sizing
  height : Option HeightBasis
  maxWidth : Option UInt8
  alignHorizontal : Option Alignment
  alignVertical : Option Alignment
  relativeWidth : Option UInt64
  relativeHeight : Option UInt64
  relativeX : Option UInt64
  relativeY : Option UInt64
  padLeft : Option UInt64
  padRight : Option UInt64
  padTop : Option UInt64
  padBottom : Option UInt64
  maxRatio : Option UInt64
  deriving DecidableEq, Repr, Hashable

def identity (c : Constraint) : Identity where
  sizing := c.sizing
  height := c.height
  maxWidth := c.maxWidth
  alignHorizontal := c.alignHorizontal
  alignVertical := c.alignVertical
  relativeWidth := c.relativeWidth.map (·.identity)
  relativeHeight := c.relativeHeight.map (·.identity)
  relativeX := c.relativeX.map (·.identity)
  relativeY := c.relativeY.map (·.identity)
  padLeft := c.padLeft.map (·.identity)
  padRight := c.padRight.map (·.identity)
  padTop := c.padTop.map (·.identity)
  padBottom := c.padBottom.map (·.identity)
  maxRatio := c.maxRatio.map (·.identity)

end Constraint

end IconConstraints
