/-!
# The exact value of a binary64 number

A finite number is a significand times a power of two.  Everything that prints
or reads numbers starts from this exact value, never from a rounded one.
-/

namespace IconConstraints.Decimal

/-- A binary64 number, taken apart. -/
inductive Binary64 where
  | nan
  | infinite (negative : Bool)
  | finite (negative : Bool) (significand : Nat) (exponent : Int)
  deriving DecidableEq, Repr

namespace Binary64

def fractionBits : Nat := 52

/-- The significand of the least normal number. -/
def hiddenBit : Nat := 0x10000000000000

def leastExponent : Int := -1074

def ofFloat (x : Float) : Binary64 :=
  let bits := x.toBits.toNat
  let negative := bits.testBit 63
  let biased := (bits >>> fractionBits) % 2048
  let fraction := bits % hiddenBit
  if biased = 2047 then
    if fraction = 0 then .infinite negative else .nan
  else if biased = 0 then .finite negative fraction leastExponent
  else .finite negative (hiddenBit + fraction) (leastExponent + (biased - 1 : Nat))

/-- The next smaller number is only half as far away as the next larger one. -/
def lowerGapIsHalf (significand : Nat) (exponent : Int) : Bool :=
  decide (significand = hiddenBit ∧ leastExponent < exponent)

end Binary64

end IconConstraints.Decimal
