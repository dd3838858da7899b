import IconConstraints.Json.Fault
import IconConstraints.Text.Utf8

/-!
# The text that is read as JSON

Readers take what they expect from the front of the text and give back the rest.
A reader that fails names its place by the number of bytes behind it, which the
rest of the text alone tells; line and column are found when all is over.
-/

namespace IconConstraints.Json

/-- The text still to be read; `none` is a byte that belongs to no character. -/
abbrev Input := List (Option Char)

/-- A fault and the number of bytes behind its place. -/
structure Failure where
  fault : Fault
  left : Nat
  deriving DecidableEq, Repr

abbrev Outcome (α : Type) := Except Failure α

/-- A fault before the first byte of `rest`. -/
def failBefore {α : Type} (fault : Fault) (rest : Input) : Outcome α :=
  .error ⟨fault, Text.byteCount rest⟩

/-- A fault that lies with the first byte of `rest`: readers look at single bytes, so a character of several
bytes is not passed as a whole. -/
def failOn {α : Type} (fault : Fault) (rest : Input) : Outcome α :=
  .error ⟨fault, Text.byteCount rest - 1⟩

/-- The place that has `left` bytes behind it. -/
def placeOf (input : Input) (left : Nat) : Position :=
  let size (c : Option Char) : Nat := (c.map Char.utf8Size).getD 1
  let step (at_ : Nat × Position) (c : Option Char) : Nat × Position :=
    let (ahead, place) := at_
    let taken := min ahead (size c)
    if ahead = 0 then at_
    else if c = some '\n' then (ahead - taken, ⟨place.line + 1, 0⟩)
    else (ahead - taken, ⟨place.line, place.column + taken⟩)
  (input.foldl step (Text.byteCount input - left, ⟨1, 0⟩)).2

/-! ## Blanks, words and digits -/

def isBlank : Option Char → Bool
  | some c => c == ' ' || c == '\n' || c == '\t' || c == '\r'
  | none => false

def skipBlanks (input : Input) : Input :=
  input.dropWhile isBlank

/-- Takes the given characters one by one. -/
def word : List Char → Input → Outcome Input
  | [], input => .ok input
  | _ :: _, [] => failBefore .endInValue []
  | c :: cs, d :: rest => if d = some c then word cs rest else failOn .wordExpected (d :: rest)

/-- The value of a decimal digit. -/
def digit? : Option Char → Option Nat
  | some c => if '0' ≤ c ∧ c ≤ '9' then some (c.toNat - '0'.toNat) else none
  | none => none

def isDigit (c : Option Char) : Bool :=
  (digit? c).isSome

def startsWithDigit (input : Input) : Bool :=
  input.head?.any isDigit

end IconConstraints.Json
