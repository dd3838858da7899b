import IconConstraints.Text.Hexadecimal

/-!
# Writing JSON

Values are written over several lines, two blanks for each level.  A string
escapes the quote, the backslash and the controls, and nothing else.
-/

namespace IconConstraints.Json

def controlEscape (c : Char) : String :=
  "\\u00" ++ (if c.toNat < 0x10 then "0" else "") ++ Text.hexDigits c.toNat

def writtenChar (c : Char) : String :=
  match c with
  | '"' => "\\\""
  | '\\' => "\\\\"
  | '\x08' => "\\b"
  | '\x0c' => "\\f"
  | '\n' => "\\n"
  | '\r' => "\\r"
  | '\t' => "\\t"
  | c => if c.toNat < 0x20 then controlEscape c else String.singleton c

def written (s : String) : String :=
  "\"" ++ String.join (s.toList.map writtenChar) ++ "\""

def writtenBool (b : Bool) : String :=
  if b then "true" else "false"

/-- A line break and the blanks of a level. -/
def newLine (level : Nat) : String :=
  String.ofList ('\n' :: List.replicate (2 * level) ' ')

/-- Parts one below the other between brackets that stand at `level`; without parts the brackets touch. -/
def bracketed (left right : String) (level : Nat) (parts : List String) : String :=
  if parts.isEmpty then left ++ right
  else
    left ++ newLine (level + 1) ++ String.intercalate ("," ++ newLine (level + 1)) parts ++
      newLine level ++ right

def writtenArray (level : Nat) (items : List String) : String :=
  bracketed "[" "]" level items

def writtenObject (level : Nat) (fields : List (String × String)) : String :=
  bracketed "\x7b" "\x7d" level (fields.map fun (name, text) => written name ++ ": " ++ text)

end IconConstraints.Json
