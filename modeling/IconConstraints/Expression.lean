/-!
# Expressions

The part of the script's language that can stand for a value: constants,
displays, operators, conditionals, attribute paths, calls and subscripts.
Chains of `and`, of `or` and of comparisons are flat; every other operator has
two operands.
-/

namespace IconConstraints

inductive UnaryOp where
  | neg | pos | not | invert
  deriving DecidableEq, Repr

inductive BinaryOp where
  | add | sub | mul | div | floorDiv | mod | pow | bitOr | bitXor | bitAnd | shl | shr
  deriving DecidableEq, Repr

inductive Connective where
  | and | or
  deriving DecidableEq, Repr

inductive CompareOp where
  | eq | notEq | lt | ltE | gt | gtE | isIn | notIn | is | isNot
  deriving DecidableEq, Repr

mutual

inductive Expr where
  | name (name : String)
  | int (value : Int64)
  | float (value : Float)
  | str (value : String)
  | bool (value : Bool)
  | nothing
  | ellipsis
  | list (items : List Expr)
  | tuple (items : List Expr)
  | set (items : List Expr)
  | dict (items : List DictItem)
  | unary (op : UnaryOp) (operand : Expr)
  | binary (op : BinaryOp) (left right : Expr)
  | chain (op : Connective) (operands : List Expr)
  | compare (left : Expr) (rest : List (CompareOp × Expr))
  | conditional (body test orelse : Expr)
  | attribute (base : Expr) (name : String)
  | call (callee : Expr) (arguments : List Argument)
  | subscript (base index : Expr)

/-- A key with its value, or a mapping whose items are taken over. -/
inductive DictItem where
  | pair (key value : Expr)
  | unpack (mapping : Expr)

inductive Argument where
  | positional (value : Expr)
  | keyword (name : String) (value : Expr)

end

/-- The name of an operator in messages. -/
def BinaryOp.name : BinaryOp → String
  | .add => "Add"
  | .sub => "Sub"
  | .mul => "Mul"
  | .div => "Div"
  | .floorDiv => "FloorDiv"
  | .mod => "Mod"
  | .pow => "Pow"
  | .bitOr => "BitOr"
  | .bitXor => "BitXor"
  | .bitAnd => "BitAnd"
  | .shl => "Shl"
  | .shr => "Shr"

/-- The path of a name followed by attributes, such as `self.args.careful`. -/
def Expr.dottedPath? : Expr → Option String
  | .name n => some n
  | .attribute base n => base.dottedPath?.map (· ++ "." ++ n)
  | _ => none

end IconConstraints
