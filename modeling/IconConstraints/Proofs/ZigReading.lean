import IconConstraints.Codepoint
import IconConstraints.Proofs.ZigTokens
import IconConstraints.Text.Hexadecimal

/-!
# Reading a generated switch

The tokens of a generated file read as the switch that they spell.  An arm has items, each
one codepoint or an inclusive range of them, and a struct literal, which is taken as the
list of its fields with the texts of their values.
-/

namespace IconConstraints.Zig

structure Arm where
  items : List CodepointRange
  fields : List (String × String)
  deriving DecidableEq, Repr

/-- Whether the arm is taken for the codepoint. -/
def Arm.covers (arm : Arm) (cp : Codepoint) : Bool :=
  arm.items.any fun item => decide (item.first ≤ cp) && decide (cp ≤ item.last)

/-- The value of a hexadecimal number. -/
def hexNumber? (text : String) : Option Nat :=
  match text.toList with
  | '0' :: 'x' :: d :: digits =>
    (d :: digits).foldlM (fun n c => (Text.hexValue? c).map (16 * n + ·)) 0
  | _ => none

/-- A number, or a name for one. -/
def Token.operand? : Token → Option String
  | .number text => some text
  | .word text => some text
  | _ => none

/-- The text of a value with a mark before it: a negative number or an enum literal. -/
def Token.marked? : Char → Token → Option String
  | '-', .number text => some ("-" ++ text)
  | '-', .word text => some ("-" ++ text)
  | '.', .word text => some ("." ++ text)
  | _, _ => none

/-- What a file is made of up to its first arm. -/
def opening : List Token :=
  [.word "const", .word "Constraint", .mark '=', .word "@import", .mark '(', .quoted "face.zig",
   .mark ')', .mark '.', .word "RenderOptions", .mark '.', .word "Constraint", .mark ';',
   .word "pub", .word "fn", .word "getConstraint", .mark '(', .word "cp", .mark ':', .word "u21",
   .mark ')', .mark '?', .word "Constraint", .mark '\x7b',
   .word "return", .word "switch", .mark '(', .word "cp", .mark ')', .mark '\x7b']

/-- The last arm, for all other codepoints, and the end of the file. -/
def closing : List Token :=
  [.word "else", .arrow, .word "null", .mark ',', .mark '\x7d', .mark ';', .mark '\x7d']

mutual

/-- The arms of a switch from an arm on of which `items` were read; each item ends with a comma. -/
def arms? (items : List CodepointRange) : List Token → Option (List Arm)
  | .number first :: .ellipsis :: .number last :: .mark ',' :: rest =>
    match hexNumber? first, hexNumber? last with
    | some a, some b => arms? (items ++ [⟨a, b⟩]) rest
    | _, _ => none
  | .number only :: .mark ',' :: rest =>
    match hexNumber? only with
    | some a => arms? (items ++ [⟨a, a⟩]) rest
    | none => none
  | .arrow :: .mark '.' :: .mark '\x7b' :: rest => bodies? items [] rest
  | rest => if items.isEmpty && rest == closing then some [] else none
  termination_by structural ts => ts

/-- The arms of a switch from inside the struct literal of one, of which `fields` were read. -/
def bodies? (items : List CodepointRange) (fields : List (String × String)) :
    List Token → Option (List Arm)
  | .mark '\x7d' :: .mark ',' :: rest => (arms? [] rest).map (⟨items, fields⟩ :: ·)
  | .mark '.' :: .word name :: .mark '=' :: .mark c :: operand :: .mark ',' :: rest =>
    match operand.marked? c with
    | some value => bodies? items (fields ++ [(name, value)]) rest
    | none => none
  | .mark '.' :: .word name :: .mark '=' :: operand :: .mark ',' :: rest =>
    match operand.operand? with
    | some value => bodies? items (fields ++ [(name, value)]) rest
    | none => none
  | _ => none
  termination_by structural ts => ts

end

/-- The arms before the last one of the switch that a whole file is. -/
def switch? (source : String) : Option (List Arm) :=
  if opening <+: tokens source then arms? [] ((tokens source).drop opening.length) else none

end IconConstraints.Zig
