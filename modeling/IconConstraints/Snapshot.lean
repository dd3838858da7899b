import IconConstraints.Crosswalk

/-!
# Snapshots

A snapshot keeps the crosswalks of a run for later ones.  It can always be made
again, so it is used only where the version, the place, the name and the mode of
a patch set are still the same.
-/

namespace IconConstraints

/-- Places of patch sets are numbers of 64 bits where they are stored. -/
def indexBound : Nat := 0x10000000000000000

/-- A stored crosswalk; its pairs are kept as they are, in any order. -/
structure SnapshotEntry where
  index : Nat
  name : String
  exact : Bool
  pairs : List (Codepoint × Codepoint)
  deriving DecidableEq, Repr

namespace SnapshotEntry

def ofCrosswalk (c : Crosswalk) : SnapshotEntry :=
  ⟨c.index, c.patchSet, c.exact, c.pairs⟩

def toCrosswalk (e : SnapshotEntry) : Crosswalk :=
  .ofPairs e.name e.index e.exact e.pairs

def isFor (e : SnapshotEntry) (index : Nat) (name : String) (exact : Bool) : Bool :=
  e.index == index && e.name == name && e.exact == exact

end SnapshotEntry

structure Snapshot where
  /-- The version of the script that the crosswalks were made for. -/
  version : String
  entries : List SnapshotEntry
  deriving DecidableEq, Repr

namespace Snapshot

def ofCrosswalks (version : String) (crosswalks : List Crosswalk) : Snapshot :=
  ⟨version, crosswalks.map .ofCrosswalk⟩

/-- The entry for the patch set at `index`, if the snapshot is current. -/
def reusable? (s : Snapshot) (version : String) (index : Nat) (name : String) (exact : Bool) :
    Option SnapshotEntry :=
  if s.version = version then s.entries.find? (·.isFor index name exact) else none

end Snapshot

end IconConstraints
