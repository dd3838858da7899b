/-!
# JSON libraries

What is stored as JSON has a shape: a record of named fields, a list, a pair, a text,
a number or a truth value.  The text of a value is written, and read again under its
shape, by a library; the program works with any library that has these operations.
-/

namespace IconConstraints

namespace Json

mutual

inductive Shape where
  | bool
  | string
  /-- Numbers of so many bits, with the name of their type. -/
  | unsigned (name : String) (bits : Nat)
  | list (item : Shape)
  | pair (item : Shape)
  /-- A record, with the name of its type. -/
  | record (name : String) (fields : Fields)

inductive Fields where
  | nil
  | cons (name : String) (shape : Shape) (rest : Fields)

end

mutual

/-- The values that have a shape. -/
def Shape.Value : Shape → Type
  | .bool => Bool
  | .string => String
  | .unsigned _ _ => Nat
  | .list item => List item.Value
  | .pair item => item.Value × item.Value
  | .record _ fields => fields.Values

def Fields.Values : Fields → Type
  | .nil => Unit
  | .cons _ shape rest => shape.Value × rest.Values

end

end Json

structure JsonLibrary where
  /-- The bytes of a text of the value, or a text that tells why it cannot be written. -/
  write : (shape : Json.Shape) → shape.Value → Except String ByteArray
  /-- The value that the bytes of a text have under a shape, or a text that tells why they have none. -/
  read : (shape : Json.Shape) → ByteArray → Except String shape.Value

end IconConstraints
