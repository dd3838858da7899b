import IconConstraints.RuleTable
import IconConstraints.ScaleGroup.Scaling

/-!
# Attribute tables

Patch sets are added one after another.  Each puts the attributes of its origin
codepoints at their destinations, with the geometry of its scale groups; where a
destination has an owner already, the overlap policy decides.  A patch set that
cannot be added leaves the table as it was.  A finished table is compiled into
rules, one for each distinct constraint.
-/

namespace IconConstraints

/-- The entry of a destination codepoint and the patch set that owns it. -/
structure Claim where
  owner : String
  entry : AttributeEntry
  deriving DecidableEq, Repr

structure AttributeTable where
  claims : CodepointMap Claim
  /-- What the scale groups of all added patch sets have done. -/
  counts : ScaleCounts

namespace AttributeTable

def empty : AttributeTable := ⟨∅, .zero⟩

def owner? (t : AttributeTable) (cp : Codepoint) : Option String :=
  t.claims[cp]?.map (·.owner)

def entries (t : AttributeTable) : List (Codepoint × AttributeEntry) :=
  t.claims.toList.map fun (cp, claim) => (cp, claim.entry)

/-! ## Adding a patch set -/

/-- The entries of the given pairs; of several origins for one destination the last counts. -/
def entriesOf (attributes : PatchSetAttributes) (pairs : List (Codepoint × Codepoint)) :
    CodepointMap AttributeEntry :=
  pairs.foldl (fun found (origin, destination) => found.insert destination (attributes.entryFor origin)) ∅

/-- The owned destinations among the pairs, with their owners. -/
def overlaps (t : AttributeTable) (pairs : List (Codepoint × Codepoint)) : List (Codepoint × String) :=
  pairs.filterMap fun (_, destination) => (t.owner? destination).map (destination, ·)

/-- The entries for the destinations that the patch set may claim. -/
def collect (t : AttributeTable) (p : PatchSet) (crosswalk : Crosswalk) :
    Report (CodepointMap AttributeEntry) := do
  let pairs := crosswalk.pairs
  let overlaps := t.overlaps pairs
  match overlapPolicy? p.name .patchSetMerge with
  | some .keepEarlier =>
    Report.tellAll (overlaps.map fun (cp, owner) => .keptEarlier p.name cp owner)
    return entriesOf p.attributes (pairs.filter fun (_, destination) => (t.owner? destination).isNone)
  | some .overwrite =>
    Report.tellAll (overlaps.map fun (cp, owner) => .overwritten p.name cp owner)
    return entriesOf p.attributes pairs
  | none =>
    match overlaps with
    | [] => return entriesOf p.attributes pairs
    | (cp, _) :: _ => Report.fail (.overlap p.name cp)

/-- Puts entries into the table, whoever owns their places. -/
def merge (t : AttributeTable) (patchSet : String) (entries : List (Codepoint × AttributeEntry)) :
    AttributeTable :=
  { t with claims := entries.foldl (fun claims (cp, entry) => claims.insert cp ⟨patchSet, entry⟩) t.claims }

/-- The table with the patch set added. -/
def add (t : AttributeTable) (font : Font) (p : PatchSet) (crosswalk : Crosswalk) :
    Report AttributeTable := do
  Report.tell (.patchSetAdded p.name)
  let collected ← t.collect p crosswalk
  let step := Scaling.apply font p crosswalk (.start collected)
  step.report
  let table := t.merge p.name step.state.entries.toList
  return { table with counts := t.counts.add step.state.counts }

def addAll (font : Font) : AttributeTable → List (PatchSet × Crosswalk) → Report AttributeTable
  | t, [] => pure t
  | t, (p, crosswalk) :: rest => do
    addAll font (← t.add font p crosswalk) rest

/-! ## Compiling -/

/-- The codepoints that share a constraint. -/
structure RuleClass where
  constraint : Constraint
  identity : Constraint.Identity
  /-- The first codepoint and its stretch text. -/
  first : Codepoint
  stretch : String
  /-- All codepoints, the latest first. -/
  codepoints : List Codepoint

namespace RuleClass

def single (cp : Codepoint) (entry : AttributeEntry) : RuleClass :=
  let constraint := Constraint.ofEntry entry
  ⟨constraint, constraint.identity, cp, entry.stretch, [cp]⟩

/-- Joins a class with one codepoint to the classes so far. -/
def join (new : RuleClass) : List RuleClass → List RuleClass
  | [] => [new]
  | c :: rest =>
    if c.identity = new.identity then { c with codepoints := new.codepoints ++ c.codepoints } :: rest
    else c :: join new rest

def rule (c : RuleClass) : Rule :=
  ⟨CodepointRange.coalesce c.codepoints, c.constraint⟩

/-- A constraint without sizing comes from a stretch text that is not known. -/
def event? (c : RuleClass) : Option Event :=
  match c.constraint.sizing with
  | none => some (.unknownStretch c.stretch c.first)
  | some _ => none

end RuleClass

/-- The classes in the order of their first codepoints. -/
def classes (t : AttributeTable) : List RuleClass :=
  t.entries.foldl (fun found (cp, entry) => (RuleClass.single cp entry).join found) []

def compile (t : AttributeTable) : RuleTable :=
  .ofRules (t.classes.map (·.rule))

def compileEvents (t : AttributeTable) : List Event :=
  t.classes.filterMap (·.event?) ++ [.tableCompiled t.claims.size t.classes.length]

end AttributeTable

end IconConstraints
