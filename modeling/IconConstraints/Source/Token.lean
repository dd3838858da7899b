import IconConstraints.Decimal.NumberStyle
import IconConstraints.Source.Operator
import IconConstraints.Text.Quoted

/-!
# Tokens

A token is a name, a literal or an operator, with the physical line on which it
ends.  A logical line is a sequence of tokens that belongs together: physical
lines are joined inside brackets and after a backslash.
-/

namespace IconConstraints.Source

inductive TokenKind where
  | name (name : String)
  | int (value : Int64)
  | float (value : Float)
  | str (value : String)
  | op (operator : Operator)
  deriving DecidableEq, Repr

structure Token where
  kind : TokenKind
  line : Nat
  deriving DecidableEq, Repr

/-- One logical line; `indent` is the column of its first token. -/
structure LogicalLine where
  indent : Nat
  line : Nat
  tokens : List Token
  deriving DecidableEq, Repr

namespace TokenKind

/-- A token as messages show it. -/
def describe : TokenKind → String
  | .name n => "Name(" ++ Text.quoted n ++ ")"
  | .int n => "Int(" ++ toString n.toInt ++ ")"
  | .float x => "Float(" ++ Decimal.full x ++ ")"
  | .str s => "Str(" ++ Text.quoted s ++ ")"
  | .op o => "Op(" ++ Text.quoted o.text ++ ")"

def isOp (k : TokenKind) (o : Operator) : Bool :=
  match k with
  | .op p => p == o
  | _ => false

def isName (k : TokenKind) (n : String) : Bool :=
  match k with
  | .name m => m == n
  | _ => false

end TokenKind

namespace Token

def isOp (t : Token) (o : Operator) : Bool :=
  t.kind.isOp o

def isName (t : Token) (n : String) : Bool :=
  t.kind.isName n

/-- The number of open brackets after the token. -/
def depthAfter (t : Token) (depth : Nat) : Nat :=
  match t.kind with
  | .op o => o.depthAfter depth
  | _ => depth

end Token

end IconConstraints.Source
