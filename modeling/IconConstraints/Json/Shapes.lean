import IconConstraints.Json.Grammar
import IconConstraints.Json.Reading
import IconConstraints.Json.Writing

/-!
# Reading and writing values of a shape

A library that writes values over several lines and reads every JSON text.
-/

namespace IconConstraints.Json

/-! ## Writing -/

mutual

/-- The text of a value whose brackets stand at `level`. -/
def Tree.text (level : Nat) : Tree → String
  | .bool b => writtenBool b
  | .number n => toString n
  | .string s => written s
  | .array items => writtenArray level (itemTexts (level + 1) items)
  | .object members => writtenObject level (memberTexts (level + 1) members)

def itemTexts (level : Nat) : List Tree → List String
  | [] => []
  | tree :: items => tree.text level :: itemTexts level items

def memberTexts (level : Nat) : List (String × Tree) → List (String × String)
  | [] => []
  | (name, tree) :: members => (name, tree.text level) :: memberTexts level members

end

/-! ## Reading -/

/-- Reads an array of exactly two values. -/
def pair {α : Type} (read : Input → Outcome (α × Input)) (input : Input) : Outcome ((α × α) × Input) :=
  let expected := "an array of length 2"
  value (fun input =>
    match input with
    | some '[' :: rest => do
      let (first, rest) ← elementAt read 0 expected rest
      let (second, rest) ← elementAt read 1 expected rest
      let rest ← closeArray rest
      return ((first, second), rest)
    | input => mistyped expected input) input

/-- Reads a record, from an array of all its fields by `inOrder`, or from an object member by member, starting
with `unknown`. -/
def record {α ρ : Type} (expected : String) (inOrder : Input → Outcome (α × Input)) (unknown : ρ)
    (field : ρ → String → Option (Input → Outcome (ρ × Input))) (complete : ρ → Input → Outcome α)
    (input : Input) : Outcome (α × Input) :=
  value (fun input =>
    match input with
    | some '[' :: rest => do
      let (a, rest) ← inOrder rest
      let rest ← closeArray rest
      return (a, rest)
    | some '{' :: rest => do
      let (known, rest) ← members field (rest.length + 1) true unknown rest
      let a ← complete known rest
      let rest ← closeObject rest
      return (a, rest)
    | input => mistyped expected input) input

/-- The fields of a record that have been read so far. -/
def Fields.Known : Fields → Type
  | .nil => Unit
  | .cons _ shape rest => Option shape.Value × rest.Known

def Fields.unknown : (fields : Fields) → fields.Known
  | .nil => ()
  | .cons _ _ rest => (none, rest.unknown)

/-- The values of all fields, if they have been read. -/
def Fields.complete : (fields : Fields) → fields.Known → Input → Outcome fields.Values
  | .nil, _, _ => .ok ()
  | .cons name _ rest, (known, others), input => do
    let value ← required name known input
    let values ← rest.complete others input
    return (value, values)

mutual

def Shape.read : (shape : Shape) → Input → Outcome (shape.Value × Input)
  | .bool => bool
  | .string => string
  | .unsigned name bits => unsigned (2 ^ bits) name
  | .list item => array item.read
  | .pair item => pair item.read
  | .record name fields =>
    let expected := "struct " ++ name
    let count := expected ++ " with " ++ toString fields.names.length ++ " elements"
    record expected (fields.inOrder count 0) fields.unknown fields.field fields.complete

/-- Reads the fields from `index` on as elements of an array. -/
def Fields.inOrder (expected : String) : (fields : Fields) → (index : Nat) → Input →
    Outcome (fields.Values × Input)
  | .nil, _, input => .ok ((), input)
  | .cons _ shape rest, index, input => do
    let (value, input) ← elementAt shape.read index expected input
    let (values, input) ← rest.inOrder expected (index + 1) input
    return ((value, values), input)

/-- How the value behind a key is read, if the key is known. -/
def Fields.field : (fields : Fields) → fields.Known → String → Option (Input → Outcome (fields.Known × Input))
  | .nil, _, _ => none
  | .cons name shape rest, (known, others), key =>
    if key = name then some (fieldValue name known shape.read fun value => (some value, others))
    else (rest.field others key).map fun read input =>
      (read input).map fun (others, input) => ((known, others), input)

end

/-! ## The library -/

def library : JsonLibrary where
  write shape value := .ok ((shape.tree value).text 0).toUTF8
  read shape content := (whole shape.read (Text.characters content)).mapError (·.message)

end IconConstraints.Json
