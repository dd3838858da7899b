/-!
# The counts of one run
-/

namespace IconConstraints

structure Diagnostics where
  patchSets : Nat
  reusedCrosswalks : Nat
  computedCrosswalks : Nat
  /-- Pairs over all crosswalks. -/
  mappedCodepoints : Nat
  /-- Scale groups with at least one measured member. -/
  scaleGroups : Nat
  /-- Codepoints whose geometry comes from a scale group. -/
  groupedCodepoints : Nat
  codepoints : Nat
  rules : Nat
  deriving DecidableEq, Repr

end IconConstraints
