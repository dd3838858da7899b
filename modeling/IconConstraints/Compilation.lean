import IconConstraints.AttributeTable
import IconConstraints.Extraction
import IconConstraints.Mapping

/-!
# Compilation

The whole way from a script to the rule table: the patch sets are extracted,
mapped into the destination font, measured, merged and compiled.  The store is
written only when everything else has succeeded, and only if it is stale.
-/

namespace IconConstraints

/-- Where snapshots live between runs. -/
structure CrosswalkStore (σ : Type) where
  load : Session σ (Option Snapshot)
  save : Snapshot → Session σ Unit

structure Compilation where
  version : String
  table : RuleTable
  counts : Diagnostics

namespace Compilation

variable {σ : Type}

def countsOf (patchSets : List PatchSet) (mapping : Mapping) (attributes : AttributeTable)
    (table : RuleTable) : Diagnostics where
  patchSets := patchSets.length
  reusedCrosswalks := mapping.reused
  computedCrosswalks := mapping.computed
  mappedCodepoints := mapping.crosswalks.foldl (fun n c => n + c.size) 0
  scaleGroups := attributes.counts.groups
  groupedCodepoints := attributes.counts.assigned
  codepoints := attributes.claims.size
  rules := table.size

def saveIfStale (store : CrosswalkStore σ) (snapshot : Option Snapshot) : Session σ Unit := do
  match snapshot with
  | none => return ()
  | some s =>
    store.save s
    Session.tell .snapshotSaved

/-- Compiles a script for the destination font. -/
def ofSource (source : String) (options : ExtractOptions) (destination : Font) (origins : OriginFonts σ)
    (store : CrosswalkStore σ) : Session σ Compilation := do
  let extraction ← Session.ofReport (Extraction.ofSource source options)
  let version := extraction.version
  let patchSets := extraction.patchSets
  Session.tell (.compiling version patchSets.length)
  let previous ← store.load
  let mapping ← Mapping.ofPatchSets destination origins version patchSets previous
  let attributes ← Session.ofReport (AttributeTable.addAll destination .empty (patchSets.zip mapping.crosswalks))
  let table := attributes.compile
  Session.tellAll attributes.compileEvents
  saveIfStale store mapping.snapshot
  let counts := countsOf patchSets mapping attributes table
  Session.tell (.finished version counts)
  return ⟨version, table, counts⟩

end Compilation

/-! ## In memory -/

/-- A snapshot kept in memory, with the number of times that it was saved, and the number of requests for
origin fonts. -/
structure MemoryStore where
  snapshot : Option Snapshot
  saves : Nat
  requests : Nat
  deriving DecidableEq, Repr

namespace MemoryStore

def empty : MemoryStore := ⟨none, 0, 0⟩

def store : CrosswalkStore MemoryStore where
  load s := ⟨s, .pure s.snapshot⟩
  save snapshot s := ⟨{ s with snapshot := some snapshot, saves := s.saves + 1 }, .pure ()⟩

/-- Origin fonts with a fixed answer to each request. -/
def origins (answer : (version filename : String) → Except Error (Option Font)) :
    OriginFonts MemoryStore where
  request version filename s := ⟨{ s with requests := s.requests + 1 }, .ofExcept (answer version filename)⟩

end MemoryStore

end IconConstraints
