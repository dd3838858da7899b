import IconConstraints.Decimal.NumberStyle
import IconConstraints.Text.Quoted

/-!
# Values

What an expression can evaluate to.  Sets and dicts keep the order in which
their elements came; a range is kept as its bounds and step.
-/

namespace IconConstraints

inductive Value where
  | nothing
  | bool (b : Bool)
  | int (n : Int64)
  | float (x : Float)
  | str (s : String)
  | list (items : List Value)
  | tuple (items : List Value)
  | set (items : List Value)
  | dict (pairs : List (Value × Value))
  | range (start stop step : Int64)

namespace Value

def typeName : Value → String
  | .nothing => "NoneType"
  | .bool _ => "bool"
  | .int _ => "int"
  | .float _ => "float"
  | .str _ => "str"
  | .list _ => "list"
  | .tuple _ => "tuple"
  | .set _ => "set"
  | .dict _ => "dict"
  | .range .. => "range"

/-! ## Ranges -/

/-- The number of elements of a range; an empty one has none, and so has one with step zero. -/
def rangeLength (start stop step : Int) : Nat :=
  if 0 < step ∧ start < stop then ((stop - start + step - 1) / step).toNat
  else if step < 0 ∧ stop < start then ((start - stop - step - 1) / -step).toNat
  else 0

def rangeItems (start stop step : Int64) : List Int64 :=
  (List.range (rangeLength start.toInt stop.toInt step.toInt)).map fun (i : Nat) =>
    Int64.ofInt (start.toInt + i * step.toInt)

/-! ## Views -/

/-- Numbers and bools as integers; floats are none. -/
def toInt64? : Value → Option Int64
  | .bool b => some (if b then 1 else 0)
  | .int n => some n
  | _ => none

/-- Numbers and bools as floats. -/
def toFloat? : Value → Option Float
  | .bool b => some (if b then 1.0 else 0.0)
  | .int n => some (Float.ofInt n.toInt)
  | .float x => some x
  | _ => none

def toStr? : Value → Option String
  | .str s => some s
  | _ => none

def truthy : Value → Bool
  | .nothing => false
  | .bool b => b
  | .int n => n != 0
  | .float x => x != 0.0
  | .str s => s != ""
  | .list items => !items.isEmpty
  | .tuple items => !items.isEmpty
  | .set items => !items.isEmpty
  | .dict pairs => !pairs.isEmpty
  | .range start stop step => decide (0 < rangeLength start.toInt stop.toInt step.toInt)

/-- The elements of a value that has some; those of a dict are its keys. -/
def items? : Value → Option (List Value)
  | .list items => some items
  | .tuple items => some items
  | .set items => some items
  | .dict pairs => some (pairs.map Prod.fst)
  | .str s => some (s.toList.map fun c => .str (String.singleton c))
  | .range start stop step => some ((rangeItems start stop step).map .int)
  | _ => none

/-! ## Equality -/

/-- Numbers are equal across their types if they are as floats. -/
def numericEq (a b : Value) : Bool :=
  match a.toFloat?, b.toFloat? with
  | some x, some y => x == y
  | _, _ => false

mutual

/-- Equality as the script's language has it. -/
def eqv : Value → Value → Bool
  | .str a, .str b => a == b
  | .nothing, .nothing => true
  | .list as, .list bs => eqvAll as bs
  | .tuple as, .tuple bs => eqvAll as bs
  | .set as, .set bs => as.length == bs.length && eqvEachIn as bs
  | .dict as, .dict bs => as.length == bs.length && eqvPairEachIn as bs
  | .range a b c, .range d e f => rangeItems a b c == rangeItems d e f
  | a, b => numericEq a b
  termination_by structural a => a

/-- Equality element by element. -/
def eqvAll : List Value → List Value → Bool
  | [], [] => true
  | a :: as, b :: bs => eqv a b && eqvAll as bs
  | _, _ => false
  termination_by structural as => as

/-- Every element of the first list equals one of the second. -/
def eqvEachIn : List Value → List Value → Bool
  | [], _ => true
  | a :: as, bs => bs.any (fun b => eqv a b) && eqvEachIn as bs
  termination_by structural as => as

/-- Every pair of the first list equals one of the second in key and value. -/
def eqvPairEachIn : List (Value × Value) → List (Value × Value) → Bool
  | [], _ => true
  | (k, v) :: as, bs => bs.any (fun other => eqv k other.1 && eqv v other.2) && eqvPairEachIn as bs
  termination_by structural as => as

end

/-! ## Dicts and sets -/

/-- Binds a key; a key that is equal to an earlier one keeps its place and takes the new value. -/
def insertPair (key value : Value) : List (Value × Value) → List (Value × Value)
  | [] => [(key, value)]
  | (k, v) :: rest => if eqv k key then (k, value) :: rest else (k, v) :: insertPair key value rest

def dictOfPairs (pairs : List (Value × Value)) : Value :=
  .dict (pairs.foldl (fun found (k, v) => insertPair k v found) [])

/-- Adds an element unless an equal one is there. -/
def insertItem (items : List Value) (item : Value) : List Value :=
  if items.any (eqv · item) then items else items ++ [item]

def setOfItems (items : List Value) : Value :=
  .set (items.foldl insertItem [])

/-- The value of the last key that equals `key`. -/
def get? (v : Value) (key : Value) : Option Value :=
  match v with
  | .dict pairs => (pairs.reverse.find? fun p => eqv p.1 key).map Prod.snd
  | _ => none

def field? (v : Value) (name : String) : Option Value :=
  v.get? (.str name)

/-! ## Text -/

/-- Texts with a comma and a space between them. -/
def commaSeparated (texts : List String) : String :=
  ", ".intercalate texts

mutual

/-- A value as messages show it. -/
def text : Value → String
  | .nothing => "None"
  | .bool true => "True"
  | .bool false => "False"
  | .int n => toString n.toInt
  | .float x => Decimal.full x
  | .str s => Text.quoted s
  | .list items => "[" ++ commaSeparated (itemTexts items) ++ "]"
  | .tuple items => "(" ++ commaSeparated (itemTexts items) ++ ")"
  | .set items => "\x7b" ++ commaSeparated (itemTexts items) ++ "\x7d"
  | .dict pairs => "\x7b" ++ commaSeparated (pairTexts pairs) ++ "\x7d"
  | .range start stop step =>
    "range(" ++ commaSeparated ([start, stop, step].map fun n => toString n.toInt) ++ ")"
  termination_by structural v => v

def itemTexts : List Value → List String
  | [] => []
  | item :: rest => text item :: itemTexts rest
  termination_by structural items => items

def pairTexts : List (Value × Value) → List String
  | [] => []
  | (k, v) :: rest => (text k ++ ": " ++ text v) :: pairTexts rest
  termination_by structural pairs => pairs

end

end Value

end IconConstraints
