import IconConstraints.Decimal.NumberStyle
import IconConstraints.Text.Quoted

/-!
# Faults of JSON texts

Why a JSON text cannot be read, and where: lines and columns are counted from one
and in bytes.
-/

namespace IconConstraints.Json

/-- What stands where something else is expected. -/
inductive Found where
  | null
  | bool (b : Bool)
  | unsigned (n : Nat)
  | signed (n : Int)
  | float (x : Float)
  | string (s : String)
  | array
  | object
  deriving DecidableEq, Repr

/-- Numbers that are reported are positional from `10 ^ -5` on, their exponents have a sign, and ties go to the
even digit. -/
def reportedStyle : Decimal.NumberStyle := ⟨some (-5, 15), true, true, .even⟩

def Found.text : Found → String
  | .null => "null"
  | .bool b => "boolean `" ++ (if b then "true" else "false") ++ "`"
  | .unsigned n => "integer `" ++ toString n ++ "`"
  | .signed n => "integer `" ++ toString n ++ "`"
  | .float x => "floating point `" ++ reportedStyle.write x ++ "`"
  | .string s => "string " ++ Text.quoted s
  | .array => "sequence"
  | .object => "map"

inductive Fault where
  | endInArray
  | endInObject
  | endInString
  | endInValue
  | colonExpected
  | arrayGoesOn
  | objectGoesOn
  | wordExpected
  | valueExpected
  | badEscape
  | badNumber
  | numberTooLarge
  | badCharacter
  | controlInString
  | keyNotString
  | loneSurrogate
  | unfinishedPair
  | trailingComma
  | trailingCharacters
  | wrongType (found : Found) (expected : String)
  | wrongValue (found : Found) (expected : String)
  | wrongLength (length : Nat) (expected : String)
  | missingField (name : String)
  | duplicateField (name : String)
  deriving DecidableEq, Repr

def Fault.message : Fault → String
  | .endInArray => "EOF while parsing a list"
  | .endInObject => "EOF while parsing an object"
  | .endInString => "EOF while parsing a string"
  | .endInValue => "EOF while parsing a value"
  | .colonExpected => "expected `:`"
  | .arrayGoesOn => "expected `,` or `]`"
  | .objectGoesOn => "expected `,` or `\x7d`"
  | .wordExpected => "expected ident"
  | .valueExpected => "expected value"
  | .badEscape => "invalid escape"
  | .badNumber => "invalid number"
  | .numberTooLarge => "number out of range"
  | .badCharacter => "invalid unicode code point"
  | .controlInString => "control character (\\u0000-\\u001F) found while parsing a string"
  | .keyNotString => "key must be a string"
  | .loneSurrogate => "lone leading surrogate in hex escape"
  | .unfinishedPair => "unexpected end of hex escape"
  | .trailingComma => "trailing comma"
  | .trailingCharacters => "trailing characters"
  | .wrongType found expected => "invalid type: " ++ found.text ++ ", expected " ++ expected
  | .wrongValue found expected => "invalid value: " ++ found.text ++ ", expected " ++ expected
  | .wrongLength length expected => "invalid length " ++ toString length ++ ", expected " ++ expected
  | .missingField name => "missing field `" ++ name ++ "`"
  | .duplicateField name => "duplicate field `" ++ name ++ "`"

structure Position where
  line : Nat
  column : Nat
  deriving DecidableEq, Repr

/-- A fault and its place in the text. -/
structure Misreading where
  fault : Fault
  place : Position
  deriving DecidableEq, Repr

def Misreading.message (m : Misreading) : String :=
  m.fault.message ++ " at line " ++ toString m.place.line ++ " column " ++ toString m.place.column

end IconConstraints.Json
