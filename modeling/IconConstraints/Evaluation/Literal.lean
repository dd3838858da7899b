import IconConstraints.Evaluation.Arithmetic

/-!
# Literals

Constants, displays of literals, and signs before numbers.
-/

namespace IconConstraints

/-- A sign before a literal number. -/
def signedLiteral (op : UnaryOp) (v : Value) : Except EvalFault Value :=
  match op, v with
  | .neg, .int n => Value.exactly (-n.toInt)
  | .neg, .float x => .ok (.float (-x))
  | _, .int n => .ok (.int n)
  | _, .float x => .ok (.float x)
  | _, v => .error (.signOnNonNumber v.typeName)

mutual

def Expr.literal : Expr → Except EvalFault Value
  | .int n => .ok (.int n)
  | .float x => .ok (.float x)
  | .str s => .ok (.str s)
  | .bool b => .ok (.bool b)
  | .nothing => .ok .nothing
  | .list items => (literalItems items).map .list
  | .tuple items => (literalItems items).map .tuple
  | .set items => (literalItems items).map Value.setOfItems
  | .dict items => (literalPairs items).map Value.dictOfPairs
  | .unary .neg operand => do signedLiteral .neg (← operand.literal)
  | .unary .pos operand => do signedLiteral .pos (← operand.literal)
  | e => .error (.notLiteral e.kindText)
  termination_by structural e => e

def literalItems : List Expr → Except EvalFault (List Value)
  | [] => .ok []
  | item :: rest => do
    let v ← item.literal
    let vs ← literalItems rest
    return v :: vs
  termination_by structural items => items

def literalPair : DictItem → Except EvalFault (Value × Value)
  | .pair key value => do
    let k ← key.literal
    let v ← value.literal
    return (k, v)
  | .unpack _ => .error .unpackInLiteral
  termination_by structural item => item

def literalPairs : List DictItem → Except EvalFault (List (Value × Value))
  | [] => .ok []
  | item :: rest => do
    let pair ← literalPair item
    let pairs ← literalPairs rest
    return pair :: pairs
  termination_by structural items => items

end

end IconConstraints
