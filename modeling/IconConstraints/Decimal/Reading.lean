import IconConstraints.Decimal.Shortest

/-!
# From a decimal to the nearest binary64 number

Exponents can be written with any number of digits, so a decimal that is
certainly too large or too small is decided by its order of magnitude alone.
-/

namespace IconConstraints.Decimal

/-- Above this order of magnitude every decimal is infinite. -/
def overflowOrder : Int := 310

/-- Below this order of magnitude every decimal is zero. -/
def underflowOrder : Int := -330

def infinity : Float :=
  Float.ofBits 0x7ff0000000000000

def Scaled.toFloat (d : Scaled) : Float :=
  let order := d.exponent + digitCount d.digits
  if d.digits = 0 then 0.0
  else if overflowOrder < order then infinity
  else if order < underflowOrder then 0.0
  else if 0 ≤ d.exponent then Float.ofScientific d.digits false d.exponent.toNat
  else Float.ofScientific d.digits true (-d.exponent).toNat

end IconConstraints.Decimal
