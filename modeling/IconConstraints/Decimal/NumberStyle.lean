import IconConstraints.Decimal.Shortest

/-!
# How numbers are written

Three styles are in use.  Values and single fields use the *full* one: the
shortest digits, positional between `10 ^ -4` and `10 ^ 16` and always with a
fraction, else with an exponent.  Running text uses the *plain* one: the
shortest digits, always positional, with a fraction only where there is one.
Relative geometry uses sixteen fixed places.
-/

namespace IconConstraints.Decimal

/-- The choices of a style that prints the shortest digits. -/
structure NumberStyle where
  /-- Powers of ten of the first digit that are written without exponent; `none` is all of them. -/
  positional : Option (Int × Int)
  /-- A whole number is written with the fraction `.0`. -/
  fraction : Bool
  /-- An exponent that is not negative is written with a plus sign. -/
  plus : Bool
  /-- How the digits are chosen between two equally near decimals. -/
  tie : Tie
  deriving DecidableEq, Repr

def fullStyle : NumberStyle := ⟨some (-4, 15), true, false, .up⟩

def plainStyle : NumberStyle := ⟨none, false, false, .up⟩

def decimalDigits (n : Nat) : List Char :=
  Nat.toDigits 10 n

/-- The digits with the point put before the last `places` of them. -/
def pointed (places : Nat) (digits : List Char) : List Char :=
  let padded := List.replicate (places + 1 - digits.length) '0' ++ digits
  let whole := padded.length - places
  padded.take whole ++ '.' :: padded.drop whole

namespace NumberStyle

def positionalText (style : NumberStyle) (d : Scaled) : List Char :=
  if 0 ≤ d.exponent then
    decimalDigits d.digits ++ List.replicate d.exponent.toNat '0' ++ (if style.fraction then ['.', '0'] else [])
  else pointed (-d.exponent).toNat (decimalDigits d.digits)

def exponentText (style : NumberStyle) (d : Scaled) : List Char :=
  let digits := decimalDigits d.digits
  let power := d.exponent + (digits.length - 1 : Nat)
  let mantissa := match digits with
    | first :: second :: rest => first :: '.' :: second :: rest
    | short => short
  let sign := if style.plus && decide (0 ≤ power) then ['+'] else []
  mantissa ++ 'e' :: (sign ++ (toString power).toList)

def isPositional (style : NumberStyle) (d : Scaled) : Bool :=
  match style.positional with
  | none => true
  | some (least, greatest) =>
    let power := d.exponent + (digitCount d.digits - 1 : Nat)
    d.digits == 0 || (decide (least ≤ power) && decide (power ≤ greatest))

def magnitude (style : NumberStyle) (d : Scaled) : List Char :=
  if style.isPositional d then style.positionalText d else style.exponentText d

end NumberStyle

def signed (negative : Bool) (magnitude : List Char) : String :=
  String.ofList (if negative then '-' :: magnitude else magnitude)

/-- The text of a number that is given by its exact value. -/
def Binary64.write (magnitude : (significand : Nat) → (exponent : Int) → List Char) : Binary64 → String
  | .nan => "NaN"
  | .infinite negative => signed negative "inf".toList
  | .finite negative significand exponent => signed negative (magnitude significand exponent)

def NumberStyle.write (style : NumberStyle) (x : Float) : String :=
  (Binary64.ofFloat x).write fun significand exponent =>
    style.magnitude (if significand = 0 then ⟨0, 0⟩ else shortest style.tie significand exponent)

/-- Shortest digits, with a fraction or an exponent. -/
def full (x : Float) : String :=
  fullStyle.write x

/-- Shortest digits in positional notation. -/
def plain (x : Float) : String :=
  plainStyle.write x

/-- The quotient rounded to the nearest whole number, a half to the even neighbour. -/
def roundHalfEven (numerator denominator : Nat) : Nat :=
  let quotient := numerator / denominator
  let remainder := numerator % denominator
  if 2 * remainder < denominator then quotient
  else if denominator < 2 * remainder then quotient + 1
  else if quotient % 2 = 0 then quotient
  else quotient + 1

/-- The exact value rounded to `places` decimal places. -/
def fixed (places : Nat) (x : Float) : String :=
  (Binary64.ofFloat x).write fun significand exponent =>
    let value := Ratio.ofBinary significand exponent
    pointed places (decimalDigits (roundHalfEven (value.numerator * Nat.pow 10 places) value.denominator))

end IconConstraints.Decimal
