import IconConstraints.Text.Hexadecimal

/-!
# Why a text cannot be split into tokens
-/

namespace IconConstraints.Source

inductive LexFault where
  | unclosedBracket
  | unterminatedString
  | lineEndInString
  | truncatedHexEscape
  | badHexEscape (digits : String)
  | noSuchCharacter (code : Nat)
  | emptyInteger
  | integerTooLarge
  | complexNumber
  | unexpectedCharacter (c : Char)
  deriving DecidableEq, Repr

def LexFault.message : LexFault → String
  | .unclosedBracket => "unexpected end of input inside brackets"
  | .unterminatedString => "unterminated string literal"
  | .lineEndInString => "newline in single-quoted string"
  | .truncatedHexEscape => "truncated hex escape"
  | .badHexEscape digits => "bad escape '" ++ digits ++ "'"
  | .noSuchCharacter code => "invalid code point " ++ Text.hex code
  | .emptyInteger => "invalid integer literal: cannot parse integer from empty string"
  | .integerTooLarge => "invalid integer literal: number too large to fit in target type"
  | .complexNumber => "complex literals are not supported"
  | .unexpectedCharacter c => "unexpected character '" ++ String.singleton c ++ "'"

/-- A fault and the physical line it lies on, counted from one. -/
structure LexError where
  line : Nat
  fault : LexFault
  deriving DecidableEq, Repr

def LexError.message (e : LexError) : String :=
  "line " ++ toString e.line ++ ": " ++ e.fault.message

/-- A part of the text that was read, what follows it, and the number of line ends it spans. -/
structure Reading (α : Type) where
  value : α
  rest : List Char
  lineEnds : Nat
  deriving Repr

/-- Why reading stops, and the number of line ends before that place. -/
structure Stop where
  fault : LexFault
  lineEnds : Nat
  deriving DecidableEq, Repr

def Reading.map {α β : Type} (f : α → β) (r : Reading α) : Reading β :=
  ⟨f r.value, r.rest, r.lineEnds⟩

end IconConstraints.Source
