import IconConstraints.Font
import IconConstraints.OverlapPolicy
import IconConstraints.PatchSet
import IconConstraints.Report
import IconConstraints.Snapshot

/-!
# Mapping patch sets into the destination font

The origin font of a patch set says which codepoints of its span exist.  An
exact patch set keeps them where they are, a packed one lays them down one after
another.  An exact patch set whose origin font cannot be had takes what the
destination font has of the span.  Every destination must exist, and only a
policy lets two patch sets share one.
-/

namespace IconConstraints

/-- Where origin fonts come from.  The answer `none` is a file that is no outline font. -/
structure OriginFonts (σ : Type) where
  request : (version filename : String) → Session σ (Option Font)

namespace Crosswalk

variable {σ : Type}

/-! ## One patch set -/

/-- The origin font that says what exists, or `none` where the identity is assumed. -/
def originMap (origins : OriginFonts σ) (version : String) (p : PatchSet) : Session σ (Option Font) := do
  match ← (origins.request version p.filename).attempt with
  | .ok (some font) => return some font
  | .ok none =>
    if p.exact then
      Session.tell (.identityWithoutMap p.name p.filename)
      return none
    else Session.fail (.mapping p.name (.needsCharacterMap p.filename))
  | .error e =>
    if p.exact && (e.isFetch || e.isFontNotFound) then
      Session.tell (.identityAfter p.name e)
      return none
    else Session.fail e

/-- The codepoints of the span that the destination font has, each mapped to itself. -/
def ofDestination (destination : Font) (index : Nat) (p : PatchSet) : Report Crosswalk := do
  let skipped := p.span.filter fun cp => !destination.has cp
  Report.tellAll (skipped.map .codepointSkipped)
  if skipped.isEmpty then pure () else Report.tell (.codepointsSkipped p.name skipped.length)
  let present := p.span.filter destination.has
  return .ofPairs p.name index true (present.map fun cp => (cp, cp))

/-- The pairs for the codepoints that exist, in ascending order. -/
def layOut (p : PatchSet) (present : List Codepoint) : Except Error (List (Codepoint × Codepoint)) :=
  if p.exact then .ok (present.map fun cp => (cp, cp))
  else
    match p.srcStart with
    | none => .error (.config p.name .packedWithoutStart)
    | some start => .ok (present.zip (List.range' start present.length))

/-- Whether a glyph is only measured, through its stand-in, and not mapped. -/
def isLeftToStandIn (destination : Font) (p : PatchSet) (pair : Codepoint × Codepoint) : Bool :=
  (standIn? p.name pair.1).isSome && !destination.has pair.2

def ofOrigin (destination origin : Font) (index : Nat) (p : PatchSet) : Report Crosswalk := do
  let pairs ← Report.ofExcept (layOut p (p.span.filter origin.has))
  let left := pairs.filter (isLeftToStandIn destination p)
  Report.tellAll (left.map fun pair => .leftToStandIn p.name pair.1)
  let kept := pairs.filter fun pair => !isLeftToStandIn destination p pair
  return .ofPairs p.name index p.exact kept

/-- The crosswalk of one patch set, made from its origin font. -/
def ofPatchSet (destination : Font) (origins : OriginFonts σ) (version : String) (index : Nat)
    (p : PatchSet) : Session σ Crosswalk := do
  match ← originMap origins version p with
  | none => Session.ofReport (ofDestination destination index p)
  | some origin => Session.ofReport (ofOrigin destination origin index p)

end Crosswalk

/-! ## All patch sets -/

structure Mapping where
  /-- One crosswalk for each patch set, in their order. -/
  crosswalks : List Crosswalk
  /-- What has to be stored; `none` where the stored snapshot is still current. -/
  snapshot : Option Snapshot
  reused : Nat
  computed : Nat

namespace Mapping

variable {σ : Type}

/-- The place of the patch set that claimed a destination last. -/
abbrev Claimed := CodepointMap Nat

def nameAt (patchSets : List PatchSet) (index : Nat) : String :=
  (patchSets[index]?.map (·.name)).getD "?"

/-- Claims the destinations of a crosswalk; `events` are those told so far, the latest first. -/
def claim (destination : Font) (patchSets : List PatchSet) (crosswalk : Crosswalk) :
    Claimed → (events : List Event) → List (Codepoint × Codepoint) → Report Claimed
  | claimed, events, [] => ⟨events.reverse, .ok claimed⟩
  | claimed, events, (origin, cp) :: rest =>
    let name := crosswalk.patchSet
    let taken := claimed.insert cp crosswalk.index
    if destination.has cp then
      match claimed[cp]? with
      | none => claim destination patchSets crosswalk taken events rest
      | some earlier =>
        let owner := nameAt patchSets earlier
        if earlier ≠ crosswalk.index ∧ (overlapPolicy? name .patchSetMerge).isSome then
          claim destination patchSets crosswalk taken (.claimedAgain name cp owner :: events) rest
        else ⟨events.reverse, .error (.mapping name (.alreadyClaimed cp owner))⟩
    else ⟨events.reverse, .error (.mapping name (.destinationMissing cp origin))⟩

/-- The crosswalks made so far, the latest first. -/
structure Progress where
  crosswalks : List Crosswalk
  claimed : Claimed
  reused : Nat
  computed : Nat

namespace Progress

def start : Progress := ⟨[], ∅, 0, 0⟩

end Progress

/-- The stored crosswalk of a patch set if there is a current one, or else a new one. -/
def nextCrosswalk (destination : Font) (origins : OriginFonts σ) (version : String)
    (previous : Option Snapshot) (index : Nat) (p : PatchSet) : Session σ (Crosswalk × Bool) := do
  match previous.bind (·.reusable? version index p.name p.exact) with
  | some entry =>
    Session.tell (.crosswalkReused p.name)
    return (entry.toCrosswalk, true)
  | none => return (← Crosswalk.ofPatchSet destination origins version index p, false)

def step (destination : Font) (origins : OriginFonts σ) (version : String) (patchSets : List PatchSet)
    (previous : Option Snapshot) (index : Nat) (p : PatchSet) (done : Progress) : Session σ Progress := do
  let (crosswalk, stored) ← nextCrosswalk destination origins version previous index p
  let claimed ← Session.ofReport (claim destination patchSets crosswalk done.claimed [] crosswalk.pairs)
  Session.tell (.crosswalkMade p.name crosswalk.size)
  return {
    crosswalks := crosswalk :: done.crosswalks
    claimed := claimed
    reused := if stored then done.reused + 1 else done.reused
    computed := if stored then done.computed else done.computed + 1 }

def steps (destination : Font) (origins : OriginFonts σ) (version : String) (patchSets : List PatchSet)
    (previous : Option Snapshot) : (index : Nat) → List PatchSet → Progress → Session σ Progress
  | _, [], done => pure done
  | index, p :: rest, done => do
    let done ← step destination origins version patchSets previous index p done
    steps destination origins version patchSets previous (index + 1) rest done

/-- Whether the stored snapshot has to be replaced. -/
def isStale (version : String) (previous : Option Snapshot) (done : Progress) : Bool :=
  decide (0 < done.computed) ||
    match previous with
    | none => true
    | some s => s.version != version || s.entries.length != done.crosswalks.length

/-- Maps all patch sets, with the stored crosswalks where they are current. -/
def ofPatchSets (destination : Font) (origins : OriginFonts σ) (version : String)
    (patchSets : List PatchSet) (previous : Option Snapshot) : Session σ Mapping := do
  let done ← steps destination origins version patchSets previous 0 patchSets .start
  let crosswalks := done.crosswalks.reverse
  let snapshot := if isStale version previous done then some (.ofCrosswalks version crosswalks) else none
  return ⟨crosswalks, snapshot, done.reused, done.computed⟩

end Mapping

end IconConstraints
