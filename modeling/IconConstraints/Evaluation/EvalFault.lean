import IconConstraints.Expression
import IconConstraints.Value

/-!
# Why an expression has no value
-/

namespace IconConstraints

inductive EvalFault where
  | undefinedName (name : String)
  | computedAttribute
  | unavailableAttribute (path : String)
  | unknownSwitch (name : String)
  | ellipsis
  | notLiteral (what : String)
  | unpackInLiteral
  | signOnNonNumber (typeName : String)
  | integerOverflow
  | badOperand (typeName : String)
  | unsupportedOperands (op : BinaryOp) (left right : String)
  | divisionByZero
  | floatDivisionByZero
  | negativeShift
  | repetitionTooLarge
  | stringTooLarge
  | notANumber
  | notOrdered (left right : String)
  | notInString (typeName : String)
  | notIterable (typeName : String)
  | notMapping (typeName : String)
  | missingKey (key : Value)
  | notSubscriptable (typeName : String)
  | indexNotInteger (typeName : String)
  | indexOutOfRange
  | callNotPermitted (what : String)
  | rangeKeyword (name : String)
  | boundNotInteger (typeName : String)
  | rangeArity (count : Nat)
  | rangeStepZero
  | rangeTooLarge

def EvalFault.message : EvalFault → String
  | .undefinedName n => "name '" ++ n ++ "' is not defined"
  | .computedAttribute => "attribute access on a computed value"
  | .unavailableAttribute path => "attribute '" ++ path ++ "' is not available"
  | .unknownSwitch n => "unknown flag 'self.args." ++ n ++ "'"
  | .ellipsis => "ellipsis is not a value"
  | .notLiteral what => "not a literal: " ++ what
  | .unpackInLiteral => "mapping unpack is not a literal"
  | .signOnNonNumber t => "unary sign on non-numeric " ++ t
  | .integerOverflow => "integer overflow"
  | .badOperand t => "bad operand type for unary op: '" ++ t ++ "'"
  | .unsupportedOperands op left right =>
    "unsupported operand types for " ++ op.name ++ ": '" ++ left ++ "' and '" ++ right ++ "'"
  | .divisionByZero => "division by zero"
  | .floatDivisionByZero => "float division by zero"
  | .negativeShift => "negative shift count"
  | .repetitionTooLarge => "sequence repetition is too large"
  | .stringTooLarge => "string repetition is too large"
  | .notANumber => "comparison with NaN"
  | .notOrdered left right =>
    "'<' not supported between instances of '" ++ left ++ "' and '" ++ right ++ "'"
  | .notInString t => "'in <string>' requires string as left operand, not " ++ t
  | .notIterable t => "argument of type '" ++ t ++ "' is not iterable"
  | .notMapping t => "'" ++ t ++ "' object is not a mapping"
  | .missingKey key => "key " ++ key.text ++ " not found"
  | .notSubscriptable t => "'" ++ t ++ "' object is not subscriptable"
  | .indexNotInteger t => "indices must be integers, not " ++ t
  | .indexOutOfRange => "index out of range"
  | .callNotPermitted what => "call of " ++ what ++ " is not permitted"
  | .rangeKeyword n => "range() takes no keyword argument '" ++ n ++ "'"
  | .boundNotInteger t => "'" ++ t ++ "' object cannot be interpreted as an integer"
  | .rangeArity count => "range expected 1 to 3 arguments, got " ++ toString count
  | .rangeStepZero => "range() arg 3 must not be zero"
  | .rangeTooLarge => "range is larger than the Unicode codespace"

/-- An expression as messages name its kind. -/
def Expr.kindText (e : Expr) : String :=
  match e with
  | .name n => "name '" ++ n ++ "'"
  | .attribute .. =>
    match e.dottedPath? with
    | some path => "attribute '" ++ path ++ "'"
    | none => "attribute access"
  | .call .. => "call"
  | .binary .. => "binary operation"
  | .chain .. => "boolean operation"
  | .compare .. => "comparison"
  | .conditional .. => "conditional expression"
  | .subscript .. => "subscript"
  | .unary .. => "unary operation"
  | .ellipsis => "ellipsis"
  | _ => "expression"

end IconConstraints
