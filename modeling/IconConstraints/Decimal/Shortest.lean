import IconConstraints.Decimal.Binary64

/-!
# The shortest decimal that reads back

Among the decimals that round to a given binary64 number, the printed one has
the fewest significant digits, and of those it is the nearest to the number;
between two equally near ones a rule for ties decides.  For one, two, three, …
digits the two neighbours of the number on the decimal grid of that many digits
are tried, in exact arithmetic; the first grid with a hit decides.
-/

namespace IconConstraints.Decimal

/-- The number `digits * 10 ^ exponent`. -/
structure Scaled where
  digits : Nat
  exponent : Int
  deriving DecidableEq, Repr

/-- The fraction `numerator / denominator`; the denominator is positive. -/
structure Ratio where
  numerator : Nat
  denominator : Nat
  deriving DecidableEq, Repr

namespace Ratio

def ofBinary (significand : Nat) (exponent : Int) : Ratio :=
  if 0 ≤ exponent then ⟨significand * Nat.pow 2 exponent.toNat, 1⟩
  else ⟨significand, Nat.pow 2 (-exponent).toNat⟩

def ofScaled (d : Scaled) : Ratio :=
  if 0 ≤ d.exponent then ⟨d.digits * Nat.pow 10 d.exponent.toNat, 1⟩
  else ⟨d.digits, Nat.pow 10 (-d.exponent).toNat⟩

def le (a b : Ratio) : Bool :=
  decide (a.numerator * b.denominator ≤ b.numerator * a.denominator)

def lt (a b : Ratio) : Bool :=
  decide (a.numerator * b.denominator < b.numerator * a.denominator)

/-- How often `10 ^ exponent` goes into the fraction. -/
def floorOver (a : Ratio) (exponent : Int) : Nat :=
  if 0 ≤ exponent then a.numerator / (a.denominator * Nat.pow 10 exponent.toNat)
  else a.numerator * Nat.pow 10 (-exponent).toNat / a.denominator

end Ratio

/-- The reals that round to one binary64 number. -/
structure Interval where
  low : Ratio
  high : Ratio
  closed : Bool
  deriving DecidableEq, Repr

namespace Interval

def ofBinary (significand : Nat) (exponent : Int) : Interval where
  low :=
    let below := if Binary64.lowerGapIsHalf significand exponent then 1 else 2
    Ratio.ofBinary (4 * significand - below) (exponent - 2)
  high := Ratio.ofBinary (4 * significand + 2) (exponent - 2)
  closed := significand % 2 == 0

def contains (i : Interval) (a : Ratio) : Bool :=
  if i.closed then i.low.le a && a.le i.high else i.low.lt a && a.lt i.high

end Interval

/-- Number of decimal digits; zero has one. -/
def digitCount (n : Nat) : Nat :=
  (Nat.toDigits 10 n).length

/-- The greatest `e` with `10 ^ e` at most the positive fraction `a`, searched upward from `e`. -/
def Ratio.decade (a : Ratio) : Int :=
  let estimate : Int := (digitCount a.numerator : Int) - digitCount a.denominator
  if 0 < a.floorOver estimate then estimate else estimate - 1

/-- A decimal without trailing zeros, removing at most `steps` of them. -/
def Scaled.trim : (steps : Nat) → Scaled → Scaled
  | 0, d => d
  | steps + 1, d =>
    if d.digits ≠ 0 ∧ d.digits % 10 = 0 then Scaled.trim steps ⟨d.digits / 10, d.exponent + 1⟩ else d

/-- Which of two equally near decimals is taken. -/
inductive Tie where
  /-- The larger one. -/
  | up
  /-- The one with an even last digit. -/
  | even
  deriving DecidableEq, Repr

/-- Of a multiple of `10 ^ step` and the next one, the one that is nearer to `value`. -/
def Tie.nearer (tie : Tie) (value : Ratio) (below above : Scaled) : Scaled :=
  let middle := Ratio.ofScaled ⟨10 * below.digits + 5, below.exponent - 1⟩
  if value.lt middle then below
  else if middle.lt value then above
  else
    match tie with
    | .up => above
    | .even => if below.digits % 2 = 0 then below else above

/-- The neighbour of `value` on the grid of multiples of `10 ^ step` that lies in the interval. -/
def gridPoint? (tie : Tie) (value : Ratio) (interval : Interval) (step : Int) : Option Scaled :=
  let below : Scaled := ⟨value.floorOver step, step⟩
  let above : Scaled := ⟨value.floorOver step + 1, step⟩
  let belowFits := decide (0 < below.digits) && interval.contains (Ratio.ofScaled below)
  let aboveFits := interval.contains (Ratio.ofScaled above)
  if belowFits && aboveFits then some (tie.nearer value below above)
  else if belowFits then some below
  else if aboveFits then some above
  else none

/-- The digits of a positive number. -/
def shortest (tie : Tie) (significand : Nat) (exponent : Int) : Scaled :=
  let value := Ratio.ofBinary significand exponent
  let interval := Interval.ofBinary significand exponent
  let decade := value.decade
  let hit := (List.range 17).findSome? fun (n : Nat) => gridPoint? tie value interval (decade - n)
  (hit.getD ⟨value.floorOver (decade - 16), decade - 16⟩).trim 20

end IconConstraints.Decimal
