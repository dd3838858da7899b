import IconConstraints.Evaluation.EvalFault

/-!
# Operators on values

Integers are computed without bound and must then fit into 64 bits.  Division
and remainder round toward minus infinity.  A float and an integer meet as
floats.  Strings, lists and tuples can be joined, strings and lists repeated.
-/

namespace IconConstraints

namespace Value

/-! ## Integers -/

/-- The exact result of an integer operation, if 64 bits can hold it. -/
def exactly (n : Int) : Except EvalFault Value :=
  if -0x8000000000000000 ≤ n ∧ n < 0x8000000000000000 then .ok (.int (Int64.ofInt n)) else .error .integerOverflow

/-- Exponents above this one are refused for every base. -/
def greatestExponent : Int := 0xffffffff

/-- A power; with a base beyond one in size, an exponent of 64 is too large already. -/
def power (base : Int) (exponent : Nat) : Except EvalFault Value :=
  if base.natAbs ≤ 1 then
    exactly (if exponent = 0 then 1 else if exponent % 2 = 0 then base * base else base)
  else if exponent < 64 then exactly (Int.pow base exponent)
  else .error .integerOverflow

def intBinary (op : BinaryOp) (a b : Int64) : Except EvalFault Value :=
  let x := a.toInt
  let y := b.toInt
  match op with
  | .add => exactly (x + y)
  | .sub => exactly (x - y)
  | .mul => exactly (x * y)
  | .div =>
    if y = 0 then .error .divisionByZero else .ok (.float (Float.ofInt x / Float.ofInt y))
  | .floorDiv => if y = 0 then .error .divisionByZero else exactly (x.fdiv y)
  | .mod =>
    if y = 0 then .error .divisionByZero
    else do
      -- the remainder is refused where the quotient is
      let _ ← exactly (x.fdiv y)
      exactly (x.fmod y)
  | .pow =>
    if y < 0 then .ok (.float (Float.pow (Float.ofInt x) (Float.ofInt y)))
    else if greatestExponent < y then .error .integerOverflow
    else power x y.toNat
  | .bitOr => .ok (.int (a ||| b))
  | .bitXor => .ok (.int (a ^^^ b))
  | .bitAnd => .ok (.int (a &&& b))
  | .shl => if 0 ≤ y ∧ y < 64 then exactly (x * Int.pow 2 y.toNat) else .error .integerOverflow
  | .shr => if y < 0 then .error .negativeShift else exactly (x.fdiv (Int.pow 2 (min y 63).toNat))

/-! ## Floats -/

/-- `none` for an operator that floats do not have. -/
def floatBinary? (op : BinaryOp) (a b : Float) : Option (Except EvalFault Value) :=
  match op with
  | .add => some (.ok (.float (a + b)))
  | .sub => some (.ok (.float (a - b)))
  | .mul => some (.ok (.float (a * b)))
  | .div => some (if b == 0.0 then .error .floatDivisionByZero else .ok (.float (a / b)))
  | .floorDiv => some (if b == 0.0 then .error .floatDivisionByZero else .ok (.float (a / b).floor))
  | .mod =>
    some (if b == 0.0 then .error .floatDivisionByZero else .ok (.float (a - b * (a / b).floor)))
  | .pow => some (.ok (.float (Float.pow a b)))
  | _ => none

/-! ## Sequences -/

/-- The longest repetition, in bytes for strings and in items for lists. -/
def repetitionLimit : Nat := 0x10000

def repeatString (s : String) (times : Int64) : Except EvalFault Value :=
  let count := times.toInt.toNat
  if repetitionLimit < s.utf8ByteSize * count then .error .stringTooLarge
  else .ok (.str (if s == "" then "" else String.join (List.replicate count s)))

def repeatItems (items : List Value) (times : Int64) : Except EvalFault Value :=
  let count := times.toInt.toNat
  if repetitionLimit < items.length * count then .error .repetitionTooLarge
  else .ok (.list (if items.isEmpty then [] else (List.replicate count items).flatten))

def unsupported (op : BinaryOp) (left right : Value) : Except EvalFault Value :=
  .error (.unsupportedOperands op left.typeName right.typeName)

def numericBinary (op : BinaryOp) (left right : Value) : Except EvalFault Value :=
  match left.toInt64?, right.toInt64? with
  | some a, some b => intBinary op a b
  | _, _ =>
    match left.toFloat?, right.toFloat? with
    | some a, some b => (floatBinary? op a b).getD (unsupported op left right)
    | _, _ => unsupported op left right

def binary (op : BinaryOp) (left right : Value) : Except EvalFault Value :=
  match op, left, right with
  | .add, .str a, .str b => .ok (.str (a ++ b))
  | .add, .list as, .list bs => .ok (.list (as ++ bs))
  | .add, .tuple as, .tuple bs => .ok (.tuple (as ++ bs))
  | .mul, .str s, n =>
    match n.toInt64? with
    | some times => repeatString s times
    | none => unsupported op left right
  | .mul, n, .str s =>
    match n.toInt64? with
    | some times => repeatString s times
    | none => unsupported op left right
  | .mul, .list items, n =>
    match n.toInt64? with
    | some times => repeatItems items times
    | none => unsupported op left right
  | .mul, n, .list items =>
    match n.toInt64? with
    | some times => repeatItems items times
    | none => unsupported op left right
  | _, _, _ => numericBinary op left right

def unary (op : UnaryOp) (v : Value) : Except EvalFault Value :=
  match op, v with
  | .not, v => .ok (.bool !v.truthy)
  | .neg, .float x => .ok (.float (-x))
  | .pos, .float x => .ok (.float x)
  | op, v =>
    match v.toInt64? with
    | none => .error (.badOperand v.typeName)
    | some n =>
      match op with
      | .neg => exactly (-n.toInt)
      | .invert => .ok (.int (~~~n))
      | _ => .ok (.int n)

end Value

end IconConstraints
