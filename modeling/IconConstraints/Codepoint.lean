import Std.Data.ExtTreeMap

/-!
# Codepoints and ranges of them

Fonts and patch sets number their characters with codepoints.  A set of
codepoints is written as few inclusive ranges as possible.
-/

namespace IconConstraints

abbrev Codepoint := Nat

/-- The greatest codepoint a script may name. -/
def greatestCodepoint : Codepoint := 0x10ffff

/-- Codepoints are numbers of 32 bits where they are stored. -/
def codepointBound : Nat := 0x100000000

/-- A map from codepoints that is read in ascending order. -/
abbrev CodepointMap (α : Type) := Std.ExtTreeMap Codepoint α

/-- The codepoints from `first` to `last`, both included. -/
structure CodepointRange where
  first : Codepoint
  last : Codepoint
  deriving DecidableEq, Repr

namespace CodepointRange

def single (cp : Codepoint) : CodepointRange :=
  ⟨cp, cp⟩

def isSingle (r : CodepointRange) : Bool :=
  r.first == r.last

def contains (r : CodepointRange) (cp : Codepoint) : Bool :=
  decide (r.first ≤ cp) && decide (cp ≤ r.last)

def toList (r : CodepointRange) : List Codepoint :=
  List.range' r.first (r.last + 1 - r.first)

/-- Puts a codepoint before ranges none of which begins earlier. -/
def attach (cp : Codepoint) : List CodepointRange → List CodepointRange
  | [] => [single cp]
  | r :: rest =>
    if cp = r.first then r :: rest
    else if cp + 1 = r.first then ⟨cp, r.last⟩ :: rest
    else single cp :: r :: rest

/-- The fewest ranges that hold exactly the given codepoints, in ascending order. -/
def coalesce (cps : List Codepoint) : List CodepointRange :=
  (cps.mergeSort fun a b => decide (a ≤ b)).foldr attach []

end CodepointRange

end IconConstraints
