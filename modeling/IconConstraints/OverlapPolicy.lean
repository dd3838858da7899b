import IconConstraints.Codepoint

/-!
# Overlap policies

Patch sets sometimes claim the same codepoint: a later one fills a gap of an
earlier one, or the other way around.  The known cases are settled here by name;
a case that is not listed is an error and has to be looked at.
-/

namespace IconConstraints

/-- Where two claims to one codepoint meet. -/
inductive Situation where
  /-- A later patch set assigns a codepoint that an earlier one holds. -/
  | patchSetMerge
  /-- A codepoint is a member of more than one scale group. -/
  | scaleGroupMembership
  deriving DecidableEq, Repr

/-- What becomes of the later claim. -/
inductive OverlapPolicy where
  | keepEarlier
  | overwrite
  deriving DecidableEq, Repr

/-- The policy for the later claim of a patch set; without one the overlap is an error. -/
def overlapPolicy? (patchSet : String) (situation : Situation) : Option OverlapPolicy :=
  match situation with
  | .scaleGroupMembership => some .keepEarlier
  | .patchSetMerge =>
    -- the span of Font Awesome leaves a gap that the progress indicators fill
    if patchSet = "Font Awesome" then some .keepEarlier
    -- the fourth span of Octicons reaches into the first
    else if patchSet = "Octicons" then some .overwrite
    else none

/-- The destination codepoint whose outline is measured in the place of an origin codepoint that the
destination font does not ship. -/
def standIn? (patchSet : String) (origin : Codepoint) : Option Codepoint :=
  if patchSet = "Font Awesome" ∧ origin = 0xf0dc then some 0xf0dd else none

end IconConstraints
