import IconConstraints.Evaluation.EvalFault
import IconConstraints.Text.Search

/-!
# Comparison of values

Strings are ordered by their code points, lists and tuples by the first element
that differs, numbers as floats.  Membership in a range is decided by
arithmetic.
-/

namespace IconConstraints

namespace Value

/-! ## Order -/

def compareFloats (a b : Float) : Except EvalFault Ordering :=
  if a < b then .ok .lt
  else if a == b then .ok .eq
  else if b < a then .ok .gt
  else .error .notANumber

def numericOrder (a b : Value) : Except EvalFault Ordering :=
  match a.toFloat?, b.toFloat? with
  | some x, some y => compareFloats x y
  | _, _ => .error (.notOrdered a.typeName b.typeName)

mutual

def order : Value → Value → Except EvalFault Ordering
  | .str a, .str b => .ok (compare a b)
  | .list as, .list bs => orderItems as bs
  | .tuple as, .tuple bs => orderItems as bs
  | a, b => numericOrder a b
  termination_by structural a => a

/-- The first elements that differ decide, and the length if there are none. -/
def orderItems : List Value → List Value → Except EvalFault Ordering
  | [], [] => .ok .eq
  | [], _ :: _ => .ok .lt
  | _ :: _, [] => .ok .gt
  | a :: as, b :: bs => if eqv a b then orderItems as bs else order a b
  termination_by structural as => as

end

/-! ## Membership -/

def inRange (start stop step n : Int) : Bool :=
  let inside := if 0 < step then start ≤ n ∧ n < stop else stop < n ∧ n ≤ start
  decide (inside ∧ (n - start) % step = 0)

def contains (container item : Value) : Except EvalFault Bool :=
  match container, item with
  | .str s, .str needle => .ok (Text.occursIn needle s)
  | .str _, other => .error (.notInString other.typeName)
  | .range start stop step, item =>
    match item.toInt64? with
    | none => .ok false
    | some n => .ok (inRange start.toInt stop.toInt step.toInt n.toInt)
  | container, item =>
    match container.items? with
    | some items => .ok (items.any fun x => eqv x item)
    | none => .error (.notIterable container.typeName)

/-! ## Identity -/

/-- Containers and floats are never the same object. -/
def isSame : Value → Value → Bool
  | .nothing, .nothing => true
  | .bool a, .bool b => a == b
  | .int a, .int b => a == b
  | .str a, .str b => a == b
  | _, _ => false

def compareBy (op : CompareOp) (left right : Value) : Except EvalFault Bool :=
  match op with
  | .eq => .ok (eqv left right)
  | .notEq => .ok !(eqv left right)
  | .lt => (order left right).map (· == .lt)
  | .ltE => (order left right).map (· != .gt)
  | .gt => (order left right).map (· == .gt)
  | .gtE => (order left right).map (· != .lt)
  | .isIn => contains right left
  | .notIn => (contains right left).map (!·)
  | .is => .ok (isSame left right)
  | .isNot => .ok !(isSame left right)

/-! ## Subscripts -/

/-- The element at an index, which counts from the end if it is negative. -/
def itemAt? (items : List Value) (index : Int) : Option Value :=
  let position := if index < 0 then index + items.length else index
  if position < 0 then none else items[position.toNat]?

def subscript (base index : Value) : Except EvalFault Value :=
  match base with
  | .dict _ =>
    match base.get? index with
    | some v => .ok v
    | none => .error (.missingKey index)
  | base =>
    match base.items? with
    | none => .error (.notSubscriptable base.typeName)
    | some items =>
      match index.toInt64? with
      | none => .error (.indexNotInteger index.typeName)
      | some i =>
        match itemAt? items i.toInt with
        | some v => .ok v
        | none => .error .indexOutOfRange

end Value

end IconConstraints
