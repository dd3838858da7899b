import IconConstraints.Constraint

/-!
# Rule tables

A rule gives one constraint to all codepoints of its ranges.  The rules of a
table are in the order of their first codepoints.
-/

namespace IconConstraints

structure Rule where
  ranges : List CodepointRange
  constraint : Constraint
  deriving DecidableEq, Repr

namespace Rule

def firstCodepoint? (r : Rule) : Option Codepoint :=
  r.ranges.head?.map (·.first)

def contains (r : Rule) (cp : Codepoint) : Bool :=
  r.ranges.any (·.contains cp)

/-- A rule without ranges comes before all others. -/
def notAfter (r s : Rule) : Bool :=
  match r.firstCodepoint?, s.firstCodepoint? with
  | none, _ => true
  | some _, none => false
  | some a, some b => decide (a ≤ b)

end Rule

structure RuleTable where
  rules : List Rule
  deriving DecidableEq, Repr

namespace RuleTable

/-- Rules with the same first codepoint stay in their order. -/
def ofRules (rules : List Rule) : RuleTable :=
  ⟨rules.mergeSort Rule.notAfter⟩

def size (t : RuleTable) : Nat :=
  t.rules.length

def isEmpty (t : RuleTable) : Bool :=
  t.rules.isEmpty

/-- The constraint of the first rule that covers the codepoint. -/
def lookup? (t : RuleTable) (cp : Codepoint) : Option Constraint :=
  (t.rules.find? (·.contains cp)).map (·.constraint)

end RuleTable

end IconConstraints
