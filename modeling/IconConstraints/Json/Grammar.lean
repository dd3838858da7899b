import IconConstraints.JsonLibrary
import IconConstraints.Text.Hexadecimal

/-!
# JSON texts of values

Which texts are texts of a value.  Blanks may stand around every value, key and mark of
punctuation, and a character of a string may be written as an escape.  A library follows
JSON if it writes and reads texts in this sense.
-/

namespace IconConstraints

namespace Json

/-! ## Values as JSON has them -/

/-- All numbers that are stored are whole and not negative. -/
inductive Tree where
  | bool (b : Bool)
  | number (n : Nat)
  | string (s : String)
  | array (items : List Tree)
  | object (members : List (String × Tree))

mutual

/-- A pair is an array of two, a record an object with its fields in order. -/
def Shape.tree : (shape : Shape) → shape.Value → Tree
  | .bool, b => .bool b
  | .string, s => .string s
  | .unsigned _ _, n => .number n
  | .list item, values => .array (List.map item.tree values)
  | .pair item, (first, second) => .array [item.tree first, item.tree second]
  | .record _ fields, values => .object (fields.members values)

def Fields.members : (fields : Fields) → fields.Values → List (String × Tree)
  | .nil, _ => []
  | .cons name shape rest, (value, values) => (name, shape.tree value) :: rest.members values

end

def Fields.names : Fields → List String
  | .nil => []
  | .cons name _ rest => name :: rest.names

mutual

/-- The numbers of a value have as many bits as its shape allows, and no record has two fields of one name. -/
def Shape.Fits : (shape : Shape) → shape.Value → Prop
  | .bool, _ => True
  | .string, _ => True
  | .unsigned _ bits, (n : Nat) => bits ≤ 64 ∧ n < 2 ^ bits
  | .list item, (values : List item.Value) => ∀ value ∈ values, item.Fits value
  | .pair item, (first, second) => item.Fits first ∧ item.Fits second
  | .record _ fields, values => fields.Fit values

def Fields.Fit : (fields : Fields) → fields.Values → Prop
  | .nil, _ => True
  | .cons name shape rest, (value, values) => name ∉ rest.names ∧ shape.Fits value ∧ rest.Fit values

end

mutual

/-- How many brackets are open at most inside of a value. -/
def Shape.depth : Shape → Nat
  | .bool | .string | .unsigned _ _ => 0
  | .list item | .pair item => item.depth + 1
  | .record _ fields => fields.depth + 1

def Fields.depth : Fields → Nat
  | .nil => 0
  | .cons _ shape rest => max shape.depth rest.depth

end

/-! ## Strings -/

def blanks : List Char := [' ', '\n', '\t', '\r']

/-- The letters that may follow a backslash, with the characters that they stand for. -/
def shortEscapes : List (Char × Char) :=
  [('"', '"'), ('\\', '\\'), ('/', '/'), ('b', '\x08'), ('f', '\x0c'), ('n', '\n'), ('r', '\r'), ('t', '\t')]

/-- Four hexadecimal digits and the number that they write. -/
inductive FourDigits : List Char → Nat → Prop
  | intro {a b c d : Char} {w x y z : Nat} : Text.hexValue? a = some w → Text.hexValue? b = some x →
      Text.hexValue? c = some y → Text.hexValue? d = some z →
      FourDigits [a, b, c, d] (16 * (16 * (16 * w + x) + y) + z)

/-- The ways to write a character in a string. -/
inductive Spells (c : Char) : List Char → Prop
  | itself : 0x20 ≤ c.toNat → c ≠ '"' → c ≠ '\\' → Spells c [c]
  | letter {l : Char} : (l, c) ∈ shortEscapes → Spells c ['\\', l]
  | numbered {digits : List Char} : FourDigits digits c.toNat → Spells c ('\\' :: 'u' :: digits)
  /-- A character with more than 16 bits, as its two surrogates. -/
  | paired {high low : List Char} {a b : Nat} : FourDigits high (0xd800 + a) → FourDigits low (0xdc00 + b) →
      a < 0x400 → b < 0x400 → c.toNat = 0x10000 + 0x400 * a + b →
      Spells c ('\\' :: 'u' :: (high ++ '\\' :: 'u' :: low))

/-- What may stand between the quotes of a string with the given characters. -/
inductive IsBody : List Char → List Char → Prop
  | nil : IsBody [] []
  | cons {c : Char} {cs text rest : List Char} : Spells c text → IsBody cs rest →
      IsBody (c :: cs) (text ++ rest)

def IsLiteral (s : String) (text : List Char) : Prop :=
  ∃ body, IsBody s.toList body ∧ text = '"' :: (body ++ ['"'])

/-! ## Texts -/

/-- The outer text is the inner one with blanks around it. -/
def Around (inner outer : List Char) : Prop :=
  ∃ before after, (∀ c ∈ before, c ∈ blanks) ∧ (∀ c ∈ after, c ∈ blanks) ∧
    outer = before ++ (inner ++ after)

mutual

/-- The texts of a value without blanks around it. -/
inductive IsValue : Tree → List Char → Prop
  | true : IsValue (.bool true) "true".toList
  | false : IsValue (.bool false) "false".toList
  /-- Decimal digits, of which no zero leads others. -/
  | number (n : Nat) : IsValue (.number n) (toString n).toList
  | string {s : String} {text : List Char} : IsLiteral s text → IsValue (.string s) text
  | array {items : List Tree} {text : List Char} : AreItems items text →
      IsValue (.array items) ('[' :: (text ++ [']']))
  | object {members : List (String × Tree)} {text : List Char} : AreMembers members text →
      IsValue (.object members) ('\x7b' :: (text ++ ['\x7d']))

inductive IsText : Tree → List Char → Prop
  | intro {tree : Tree} {inner outer : List Char} : IsValue tree inner → Around inner outer → IsText tree outer

/-- What may stand between the brackets of an array. -/
inductive AreItems : List Tree → List Char → Prop
  | none {text : List Char} : Around [] text → AreItems [] text
  | last {tree : Tree} {text : List Char} : IsText tree text → AreItems [tree] text
  | cons {tree next : Tree} {items : List Tree} {text rest : List Char} : IsText tree text →
      AreItems (next :: items) rest → AreItems (tree :: next :: items) (text ++ ',' :: rest)

/-- What may stand between the brackets of an object. -/
inductive AreMembers : List (String × Tree) → List Char → Prop
  | none {text : List Char} : Around [] text → AreMembers [] text
  | last {name : String} {tree : Tree} {literal key text : List Char} : IsLiteral name literal →
      Around literal key → IsText tree text → AreMembers [(name, tree)] (key ++ ':' :: text)
  | cons {name : String} {tree : Tree} {next : String × Tree} {members : List (String × Tree)}
      {literal key text rest : List Char} : IsLiteral name literal → Around literal key → IsText tree text →
      AreMembers (next :: members) rest →
      AreMembers ((name, tree) :: next :: members) (key ++ ':' :: (text ++ ',' :: rest))

end

end Json

/-! ## Libraries that follow JSON -/

/-- How many brackets may be open in a text that is read. -/
def JsonLibrary.depthLimit : Nat := 128

structure JsonLibrary.FollowsJson (json : JsonLibrary) : Prop where
  /-- What is written is a text of the value. -/
  written : ∀ (shape : Json.Shape) (value : shape.Value), shape.Fits value →
    ∃ text : String, json.write shape value = .ok text.toUTF8 ∧ Json.IsText (shape.tree value) text.toList
  /-- Every text of a value is read as this value. -/
  read : ∀ (shape : Json.Shape) (value : shape.Value) (text : String), shape.Fits value →
    shape.depth < depthLimit → Json.IsText (shape.tree value) text.toList →
    json.read shape text.toUTF8 = .ok value

end IconConstraints
