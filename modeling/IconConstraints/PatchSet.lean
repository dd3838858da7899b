import IconConstraints.Codepoint
import IconConstraints.Scalar

/-!
# Patch sets

A patch set takes a span of codepoints from an origin font, either at the same
codepoints (*exact*) or packed one after another from a start.  It says for each
codepoint how its glyph is aligned, stretched and padded, and which glyphs are
scaled together.
-/

namespace IconConstraints

inductive Alignment where
  | start
  | finish
  | center
  /-- A letter that has no alignment of its own. -/
  | other
  deriving DecidableEq, Repr, Hashable

namespace Alignment

/-- An empty text leaves the alignment open. -/
def ofLetter? (letter : String) : Option Alignment :=
  if letter = "l" then some .start
  else if letter = "r" then some .finish
  else if letter = "c" then some .center
  else if letter = "" then none
  else some .other

def text : Alignment → String
  | .start => "start"
  | .finish => "end"
  | .center => "center"
  | .other => "none"

end Alignment

/-- How one glyph is placed in its cell, as the script has it. -/
structure AttributeEntry where
  align : Option Alignment
  valign : Option Alignment
  stretch : String
  overlap : Scalar
  /-- The greatest ratio of width to height; not positive when there is none. -/
  xyRatio : Scalar
  yPadding : Scalar
  relativeX : Scalar
  relativeY : Scalar
  relativeWidth : Scalar
  relativeHeight : Scalar
  deriving DecidableEq, Repr

namespace AttributeEntry

/-- Nothing is set, and the glyph is its own scale group. -/
def unset : AttributeEntry where
  align := none
  valign := none
  stretch := ""
  overlap := .ofFloat 0.0
  xyRatio := .ofFloat (-1.0)
  yPadding := .ofFloat 0.0
  relativeX := .ofFloat 0.0
  relativeY := .ofFloat 0.0
  relativeWidth := .ofFloat 1.0
  relativeHeight := .ofFloat 1.0

end AttributeEntry

/-- A default entry and exceptions by origin codepoint. -/
structure PatchSetAttributes where
  default : AttributeEntry
  overrides : CodepointMap AttributeEntry

namespace PatchSetAttributes

def entryFor (attributes : PatchSetAttributes) (origin : Codepoint) : AttributeEntry :=
  attributes.overrides[origin]?.getD attributes.default

end PatchSetAttributes

/-- Origin codepoints that are scaled together; a range leaves out its stop. -/
inductive ScaleGroup where
  | list (codepoints : List Codepoint)
  | range (start stop : Codepoint)
  deriving DecidableEq, Repr

def ScaleGroup.codepoints : ScaleGroup → List Codepoint
  | .list cps => cps
  | .range start stop => List.range' start (stop - start)

structure ScaleRules where
  groups : List ScaleGroup
  shiftMode : Option String
  deriving DecidableEq, Repr

structure PatchSet where
  name : String
  /-- The file of the origin font. -/
  filename : String
  exact : Bool
  symStart : Codepoint
  symEnd : Codepoint
  /-- Where a packed patch set begins in the destination font. -/
  srcStart : Option Codepoint
  scaleRules : Option ScaleRules
  attributes : PatchSetAttributes

namespace PatchSet

/-- The origin codepoints that the patch set may take. -/
def span (p : PatchSet) : List Codepoint :=
  (CodepointRange.mk p.symStart p.symEnd).toList

end PatchSet

end IconConstraints
