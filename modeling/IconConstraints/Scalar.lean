/-!
# Numbers of attributes

The numbers of attributes and constraints are told apart by their bits.  A NaN
keeps the bits it was given, which `Float` alone does not tell apart, through
every step that only passes a number on, changes its sign or halves it.
-/

namespace IconConstraints

/-- A binary64 number by its bits. -/
structure Scalar where
  bits : UInt64
  deriving DecidableEq, Repr

namespace Scalar

def ofFloat (x : Float) : Scalar :=
  ⟨x.toBits⟩

def toFloat (s : Scalar) : Float :=
  .ofBits s.bits

def signBit : UInt64 := 0x8000000000000000

/-- The bit that a NaN gets from arithmetic. -/
def quietBit : UInt64 := 0x0008000000000000

def negated (s : Scalar) : Scalar :=
  if s.toFloat.isNaN then ⟨s.bits ^^^ signBit⟩ else .ofFloat (-s.toFloat)

def halved (s : Scalar) : Scalar :=
  if s.toFloat.isNaN then ⟨s.bits ||| quietBit⟩ else .ofFloat (s.toFloat / 2.0)

/-- The bits of a number, with the negative zero taken for the positive one. -/
def identity (s : Scalar) : UInt64 :=
  if s.toFloat == 0.0 then (ofFloat 0.0).bits else s.bits

end Scalar

end IconConstraints
