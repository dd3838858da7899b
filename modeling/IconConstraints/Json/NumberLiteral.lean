import IconConstraints.Decimal.Reading
import IconConstraints.Json.Input

/-!
# Numbers of JSON texts

A number is a significand and a power of ten.  The significand takes digits as
long as it fits into 64 bits; of the digits after that only their number counts.
A number with a fraction, an exponent or too many digits is a binary64 number:
its significand is rounded and then scaled by a rounded power of ten, which may
miss the nearest number by a little.
-/

namespace IconConstraints.Json

/-! ## Scaling -/

/-- The greatest power of ten that is a binary64 number. -/
def greatestPower : Nat := 308

def powerOfTen (power : Nat) : Float :=
  Decimal.Scaled.toFloat ⟨1, power⟩

/-- The number divided by a power of ten, in steps that have a binary64 number. -/
def scaledDown (x : Float) (power : Nat) : Float :=
  if power ≤ greatestPower then x / powerOfTen power
  else if x == 0.0 then x
  else scaledDown (x / powerOfTen greatestPower) (power - greatestPower)
termination_by power
decreasing_by simp only [greatestPower] at *; omega

/-- The number times a power of ten, unless it is too large. -/
def scaledUp? (x : Float) (power : Nat) : Option Float :=
  if power ≤ greatestPower then
    let y := x * powerOfTen power
    if y.isInf then none else some y
  else if x == 0.0 then some x
  else none

def scaled? (significand : Nat) (power : Int) : Option Float :=
  let x := Decimal.Scaled.toFloat ⟨significand, 0⟩
  if power < 0 then some (scaledDown x power.natAbs) else scaledUp? x power.toNat

/-! ## Digits -/

/-- Significands are below this bound. -/
def significandBound : Nat := 0x10000000000000000

/-- Exponents are below this bound. -/
def exponentBound : Nat := 0x80000000

/-- Takes digits behind those of `n` while the number stays below `bound`: gives the number, how many digits
were taken, and the rest. -/
def digitsBelow (bound : Nat) (n : Nat) : Input → Nat × Nat × Input
  | [] => (n, 0, [])
  | c :: rest =>
    match digit? c with
    | none => (n, 0, c :: rest)
    | some d =>
      if 10 * n + d < bound then
        let (m, count, rest) := digitsBelow bound (10 * n + d) rest
        (m, count + 1, rest)
      else (n, 0, c :: rest)

/-- The significand and the power of ten that have been read so far, and whether only an integer has. -/
structure Numeral where
  significand : Nat
  power : Int
  isInteger : Bool
  deriving DecidableEq, Repr

/-- The digits before the point: no zero leads other digits. -/
def wholePart (input : Input) : Outcome (Numeral × Input) :=
  match input with
  | [] => failBefore .endInValue []
  | some '0' :: rest => if startsWithDigit rest then failOn .badNumber rest else .ok (⟨0, 0, true⟩, rest)
  | input =>
    if startsWithDigit input then
      let (n, _, rest) := digitsBelow significandBound 0 input
      let further := rest.takeWhile isDigit
      .ok (⟨n, further.length, further.isEmpty⟩, rest.dropWhile isDigit)
    else failOn .badNumber input

/-- The digits after the point. -/
def fraction (n : Numeral) (input : Input) : Outcome (Numeral × Input) :=
  let (significand, places, rest) := digitsBelow significandBound n.significand input
  if startsWithDigit input then .ok (⟨significand, n.power - places, false⟩, rest.dropWhile isDigit)
  else if input.isEmpty then failOn .endInValue []
  else failOn .badNumber input

/-- The digits of an exponent.  One that does not fit into 32 bits makes every number but zero too large or
zero, and a number that is too large is refused at once. -/
def exponentDigits (n : Numeral) (negative : Bool) (input : Input) : Outcome (Numeral × Input) :=
  let (value, _, rest) := digitsBelow exponentBound 0 input
  let power : Int := if negative then n.power - value else n.power + value
  match rest with
  | c :: further =>
    if !isDigit c then .ok (⟨n.significand, power, false⟩, rest)
    else if !negative && n.significand != 0 then failBefore .numberTooLarge further
    else .ok (⟨0, 0, false⟩, rest.dropWhile isDigit)
  | [] => .ok (⟨n.significand, power, false⟩, [])

/-- The power of ten after the letter that announces it. -/
def exponent (n : Numeral) (input : Input) : Outcome (Numeral × Input) :=
  let (negative, rest) := match input with
    | some '+' :: rest => (false, rest)
    | some '-' :: rest => (true, rest)
    | rest => (false, rest)
  if startsWithDigit rest then exponentDigits n negative rest
  else if rest.isEmpty then failBefore .endInValue []
  else failOn .badNumber rest

def optionalFraction (n : Numeral) : Input → Outcome (Numeral × Input)
  | some '.' :: rest => fraction n rest
  | rest => .ok (n, rest)

def optionalExponent (n : Numeral) : Input → Outcome (Numeral × Input)
  | some 'e' :: rest | some 'E' :: rest => exponent n rest
  | rest => .ok (n, rest)

/-! ## Numbers -/

def signedFloat (negative : Bool) (x : Float) : Float :=
  if negative then -x else x

/-- An integer keeps its kind if its sign fits with it into 64 bits; there is no negative zero among the
integers. -/
def integerFound (negative : Bool) (n : Nat) : Found :=
  if !negative then .unsigned n
  else if 0 < n ∧ n ≤ 0x8000000000000000 then .signed (-n)
  else .float (signedFloat true (Decimal.Scaled.toFloat ⟨n, 0⟩))

/-- The number behind its sign. -/
def number (negative : Bool) (input : Input) : Outcome (Found × Input) := do
  let (n, rest) ← wholePart input
  let (n, rest) ← optionalFraction n rest
  let (n, rest) ← optionalExponent n rest
  if n.isInteger then return (integerFound negative n.significand, rest)
  else
    match scaled? n.significand n.power with
    | none => failBefore .numberTooLarge rest
    | some x => return (.float (signedFloat negative x), rest)

end IconConstraints.Json
