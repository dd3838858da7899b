import IconConstraints.Crosswalk
import IconConstraints.Font
import IconConstraints.OverlapPolicy
import IconConstraints.PatchSet
import IconConstraints.Report

/-!
# The geometry of scale groups

The members of a scale group are sized relative to the union of their outlines.
Members are given by origin codepoints and found through the crosswalk.  A glyph
that the destination font does not ship may have a stand-in, which counts for the
vertical extent alone.
-/

namespace IconConstraints

namespace ScaleGroup

/-- What becomes of one origin codepoint of a group. -/
inductive Membership where
  | measured (destination : Codepoint) (outline : Font.Outline)
  | withoutOutline (destination : Codepoint)
  | byStandIn (origin : Codepoint) (extent : BoundingBox)
  | unmapped (origin : Codepoint)
  deriving DecidableEq, Repr

def membership (font : Font) (patchSet : String) (crosswalk : Crosswalk) (origin : Codepoint) :
    Membership :=
  match crosswalk.destination? origin with
  | some destination =>
    match font.outline? destination with
    | some outline => .measured destination outline
    | none => .withoutOutline destination
  | none =>
    match (standIn? patchSet origin).bind font.outline? with
    | some outline => .byStandIn origin outline.bounds
    | none => .unmapped origin

namespace Membership

def event? (patchSet : String) : Membership → Option Event
  | .measured .. => none
  | .withoutOutline destination => some (.memberWithoutOutline patchSet destination)
  | .byStandIn origin _ => some (.measuredByStandIn patchSet origin)
  | .unmapped origin => some (.memberUnmapped patchSet origin)

def member? : Membership → Option (Codepoint × Font.Outline)
  | .measured destination outline => some (destination, outline)
  | _ => none

def standInExtent? : Membership → Option BoundingBox
  | .byStandIn _ extent => some extent
  | _ => none

end Membership

/-- The union of all boxes. -/
def unionAll : List BoundingBox → Option BoundingBox
  | [] => none
  | b :: rest => some (rest.foldl .union b)

structure Geometry where
  /-- The union of the members' outlines, with the vertical extent of stand-ins. -/
  bounds : BoundingBox
  /-- Destination codepoints with their own bounds, in the order of the group. -/
  members : List (Codepoint × BoundingBox)
  /-- The advances of the members, by their bits. -/
  advances : List UInt64
  deriving DecidableEq, Repr

namespace Geometry

/-- Whether there are several members and all known advances agree. -/
def isMonospace (g : Geometry) : Bool :=
  decide (1 < g.members.length) &&
    match g.advances with
    | [] => false
    | first :: rest => rest.all (· == first)

end Geometry

/-- The geometry of a group; `none` where no member has an outline. -/
def measure (g : ScaleGroup) (font : Font) (patchSet : String) (crosswalk : Crosswalk) :
    Report (Option Geometry) := do
  let memberships := g.codepoints.map (membership font patchSet crosswalk)
  Report.tellAll (memberships.filterMap (·.event? patchSet))
  let members := memberships.filterMap (·.member?)
  match unionAll (members.map (·.2.bounds)) with
  | none => return none
  | some bounds =>
    let extended := match unionAll (memberships.filterMap (·.standInExtent?)) with
      | none => bounds
      | some extent => bounds.unionVertical extent
    return some {
      bounds := extended
      members := members.map fun (destination, outline) => (destination, outline.bounds)
      advances := members.filterMap fun (_, outline) => outline.advance.map (·.toBits) }

end ScaleGroup

end IconConstraints
