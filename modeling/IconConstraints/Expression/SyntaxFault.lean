import IconConstraints.Source.Token

/-!
# Why tokens are not an expression
-/

namespace IconConstraints

open Source

inductive SyntaxFault where
  | emptyExpression
  | unexpectedEnd
  | unexpectedToken (kind : TokenKind)
  | expectedOperator (o : Operator)
  | expectedElse
  | expectedAttribute
  | lambdaExpression
  | comprehension
  | slice
  | starredItem
  | argumentUnpacking
  | unpackInSet
  | pairInSet
  | keyWithoutValue
  deriving DecidableEq, Repr

def SyntaxFault.message : SyntaxFault → String
  | .emptyExpression => "empty expression"
  | .unexpectedEnd => "unexpected end of expression"
  | .unexpectedToken kind => "unexpected token " ++ kind.describe
  | .expectedOperator o => "expected '" ++ o.text ++ "'"
  | .expectedElse => "expected 'else' in conditional expression"
  | .expectedAttribute => "expected attribute name after '.'"
  | .lambdaExpression => "lambda expressions are not supported"
  | .comprehension => "comprehensions are not supported"
  | .slice => "slices are not supported"
  | .starredItem => "starred items are not supported"
  | .argumentUnpacking => "argument unpacking is not supported"
  | .unpackInSet => "mapping unpack inside a set"
  | .pairInSet => "mixed set and dict display"
  | .keyWithoutValue => "expected ':' in dict display"

/-- A fault and the line of the token it lies at. -/
structure SyntaxError where
  line : Nat
  fault : SyntaxFault
  deriving DecidableEq, Repr

end IconConstraints
