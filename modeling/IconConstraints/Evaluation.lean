import IconConstraints.Evaluation.Arithmetic
import IconConstraints.Evaluation.Comparison
import IconConstraints.Evaluation.Literal
import IconConstraints.Evaluation.Switches

/-!
# Evaluation

The closed evaluator for the expressions of a script.  Names and attributes have
a value only if they are switches, and the only call is `range`, so evaluation
reads nothing but the expression and the table of switches.
-/

namespace IconConstraints

/-! ## Names -/

def evalName (switches : Switches) (n : String) : Except EvalFault Value :=
  match switches.global? n with
  | some b => .ok (.bool b)
  | none => .error (.undefinedName n)

/-- The name of the switch that the path `self.args.name` names. -/
def switchName? (path : String) : Option String :=
  let head := "self.args.".toList
  if head.isPrefixOf path.toList then
    let name := path.toList.drop head.length
    if name.contains '.' then none else some (String.ofList name)
  else none

def evalAttribute (switches : Switches) (e : Expr) : Except EvalFault Value :=
  match e.dottedPath? with
  | none => .error .computedAttribute
  | some path =>
    match switchName? path with
    | none => .error (.unavailableAttribute path)
    | some name =>
      match switches.arg? name with
      | some b => .ok (.bool b)
      | none => .error (.unknownSwitch name)

/-! ## Ranges -/

/-- The longest range, give or take one: the number of code points. -/
def rangeLimit : Nat := 0x110000

def boundedRange (start stop step : Int64) : Except EvalFault Value :=
  if step = 0 then .error .rangeStepZero
  else if rangeLimit < (stop.toInt - start.toInt).natAbs / step.toInt.natAbs then .error .rangeTooLarge
  else .ok (.range start stop step)

def makeRange (bounds : List Int64) : Except EvalFault Value :=
  match bounds with
  | [stop] => boundedRange 0 stop 1
  | [start, stop] => boundedRange start stop 1
  | [start, stop, step] => boundedRange start stop step
  | _ => .error (.rangeArity bounds.length)

def rangeBound (v : Value) : Except EvalFault Int64 :=
  match v.toInt64? with
  | some n => .ok n
  | none => .error (.boundNotInteger v.typeName)

/-- Whether a chain of `op` ends with an operand of this truth. -/
def Connective.stopsAt (op : Connective) (truth : Bool) : Bool :=
  match op with
  | .and => !truth
  | .or => truth

/-! ## Expressions -/

mutual

def Expr.eval (switches : Switches) : Expr → Except EvalFault Value
  | .name n => evalName switches n
  | .int n => .ok (.int n)
  | .float x => .ok (.float x)
  | .str s => .ok (.str s)
  | .bool b => .ok (.bool b)
  | .nothing => .ok .nothing
  | .ellipsis => .error .ellipsis
  | .list items => (evalItems switches items).map .list
  | .tuple items => (evalItems switches items).map .tuple
  | .set items => (evalItems switches items).map Value.setOfItems
  | .dict items => (evalPairs switches items).map Value.dictOfPairs
  | .unary op operand => do Value.unary op (← operand.eval switches)
  | .binary op left right => do
    let a ← left.eval switches
    let b ← right.eval switches
    Value.binary op a b
  | .chain op operands => evalChain switches op .nothing operands
  | .compare left rest => do
    let a ← left.eval switches
    evalComparisons switches a rest
  | .conditional body test orelse => do
    let t ← test.eval switches
    if t.truthy then body.eval switches else orelse.eval switches
  | .attribute base n => evalAttribute switches (.attribute base n)
  | .call callee arguments =>
    match callee with
    | .name "range" => do makeRange (← evalBounds switches arguments)
    | other => .error (.callNotPermitted other.kindText)
  | .subscript base index => do
    let b ← base.eval switches
    let i ← index.eval switches
    Value.subscript b i
  termination_by structural e => e

def evalItems (switches : Switches) : List Expr → Except EvalFault (List Value)
  | [] => .ok []
  | item :: rest => do
    let v ← item.eval switches
    let vs ← evalItems switches rest
    return v :: vs
  termination_by structural items => items

/-- The pairs that one item of a dict display stands for. -/
def evalPair (switches : Switches) : DictItem → Except EvalFault (List (Value × Value))
  | .pair key value => do
    let k ← key.eval switches
    let v ← value.eval switches
    return [(k, v)]
  | .unpack mapping => do
    match ← mapping.eval switches with
    | .dict pairs => return pairs
    | other => .error (.notMapping other.typeName)
  termination_by structural item => item

def evalPairs (switches : Switches) : List DictItem → Except EvalFault (List (Value × Value))
  | [] => .ok []
  | item :: rest => do
    let here ← evalPair switches item
    let later ← evalPairs switches rest
    return here ++ later
  termination_by structural items => items

/-- The operand that decides a chain, or the last one; `last` is the operand before. -/
def evalChain (switches : Switches) (op : Connective) (last : Value) :
    List Expr → Except EvalFault Value
  | [] => .ok last
  | operand :: rest => do
    let v ← operand.eval switches
    if op.stopsAt v.truthy then return v else evalChain switches op v rest
  termination_by structural operands => operands

/-- Each comparison is between neighbours; the first one that fails decides. -/
def evalComparisons (switches : Switches) (left : Value) :
    List (CompareOp × Expr) → Except EvalFault Value
  | [] => .ok (.bool true)
  | (op, operand) :: rest => do
    let right ← operand.eval switches
    if ← Value.compareBy op left right then evalComparisons switches right rest
    else return .bool false
  termination_by structural rest => rest

def evalBound (switches : Switches) : Argument → Except EvalFault Int64
  | .positional value => do rangeBound (← value.eval switches)
  | .keyword n _ => .error (.rangeKeyword n)
  termination_by structural argument => argument

def evalBounds (switches : Switches) : List Argument → Except EvalFault (List Int64)
  | [] => .ok []
  | argument :: rest => do
    let bound ← evalBound switches argument
    let bounds ← evalBounds switches rest
    return bound :: bounds
  termination_by structural arguments => arguments

end

end IconConstraints
