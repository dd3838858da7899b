import IconConstraints.PatchSet
import IconConstraints.ScaleGroup.Geometry

/-!
# Relative geometry from scale groups

Each member of a scale group gets its height and its vertical place relative to
the group, and in a monospace group its width and horizontal place too.  A
codepoint that is a member of several groups belongs to the first.  A group
without extent ends the work; what was assigned before stays.
-/

namespace IconConstraints

/-- The groups that were measured and the codepoints that got geometry from one. -/
structure ScaleCounts where
  groups : Nat
  assigned : Nat
  deriving DecidableEq, Repr

namespace ScaleCounts

def zero : ScaleCounts := ⟨0, 0⟩

def add (a b : ScaleCounts) : ScaleCounts :=
  ⟨a.groups + b.groups, a.assigned + b.assigned⟩

end ScaleCounts

/-- Entries by destination codepoint, and what the scale groups have done to them. -/
structure Scaling where
  entries : CodepointMap AttributeEntry
  /-- The codepoints that have found their group. -/
  grouped : CodepointMap Unit
  counts : ScaleCounts

namespace Scaling

def start (entries : CodepointMap AttributeEntry) : Scaling :=
  ⟨entries, ∅, .zero⟩

/-- The entry of a member with the extent `box` in a group with the extent `group`. -/
def relative (group box : BoundingBox) (monospace : Bool) (entry : AttributeEntry) : AttributeEntry :=
  let scaled := { entry with
    relativeHeight := .ofFloat (box.height / group.height)
    relativeY := .ofFloat ((box.yMin - group.yMin) / group.height) }
  if monospace then
    { scaled with
      relativeWidth := .ofFloat (box.width / group.width)
      relativeX := .ofFloat ((box.xMin - group.xMin) / group.width) }
  else scaled

def assign (s : Scaling) (g : ScaleGroup.Geometry) (destination : Codepoint) (box : BoundingBox)
    (entry : AttributeEntry) : Scaling :=
  { entries := s.entries.insert destination (relative g.bounds box g.isMonospace entry)
    grouped := s.grouped.insert destination ()
    counts := { s.counts with assigned := s.counts.assigned + 1 } }

/-- Assigns the members of a group that have an entry; the error is that of an overlap without policy. -/
def assignMembers (patchSet : String) (g : ScaleGroup.Geometry) :
    Scaling → List (Codepoint × BoundingBox) → Scaling × Option Error
  | s, [] => (s, none)
  | s, (destination, box) :: rest =>
    match s.entries[destination]? with
    | none => assignMembers patchSet g s rest
    | some entry =>
      if s.grouped.contains destination then
        match overlapPolicy? patchSet .scaleGroupMembership with
        | some .keepEarlier => assignMembers patchSet g s rest
        | some .overwrite => assignMembers patchSet g (s.assign g destination box entry) rest
        | none => (s, some (.overlap patchSet destination))
      else assignMembers patchSet g (s.assign g destination box entry) rest

def isDegenerate (b : BoundingBox) : Bool :=
  decide (b.height ≤ 0.0) || decide (b.width ≤ 0.0)

def applyGroup (font : Font) (patchSet : String) (crosswalk : Crosswalk) (group : ScaleGroup)
    (index : Nat) : Session Scaling Unit := do
  match ← Session.ofReport (group.measure font patchSet crosswalk) with
  | none => Session.tell (.groupUnresolved patchSet index)
  | some g =>
    if isDegenerate g.bounds then
      Session.fail (.geometry patchSet index g.bounds.width g.bounds.height)
    else
      Session.modify fun s => { s with counts := { s.counts with groups := s.counts.groups + 1 } }
      let (scaled, error) := assignMembers patchSet g (← Session.get) g.members
      Session.modify fun _ => scaled
      match error with
      | none => return ()
      | some e => Session.fail e

def applyGroups (font : Font) (patchSet : String) (crosswalk : Crosswalk) :
    (index : Nat) → List ScaleGroup → Session Scaling Unit
  | _, [] => pure ()
  | index, group :: rest => do
    applyGroup font patchSet crosswalk group index
    applyGroups font patchSet crosswalk (index + 1) rest

/-- Applies the scale groups of a patch set in their order. -/
def apply (font : Font) (p : PatchSet) (crosswalk : Crosswalk) : Session Scaling Unit :=
  match p.scaleRules with
  | none => pure ()
  | some rules => applyGroups font p.name crosswalk 0 rules.groups

end Scaling

end IconConstraints
