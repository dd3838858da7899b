import IconConstraints.Text.GraphemeExtend
import IconConstraints.Text.Hexadecimal
import IconConstraints.Text.Unprintable

/-!
# Quoted text

The form in which messages show a string: between double quotes, with short
escapes for the quote, the backslash and four controls, and a number in braces
for every other character that does not print by itself.
-/

namespace IconConstraints.Text

def numberedEscape (c : Char) : String :=
  "\\u\x7b" ++ hexDigits c.toNat ++ "\x7d"

def quotedChar (c : Char) : String :=
  match c with
  | '\x00' => "\\0"
  | '\t' => "\\t"
  | '\r' => "\\r"
  | '\n' => "\\n"
  | '\\' => "\\\\"
  | '"' => "\\\""
  | c => if !extendsGrapheme c && isPrintable c then String.singleton c else numberedEscape c

def quoted (s : String) : String :=
  "\"" ++ String.join (s.toList.map quotedChar) ++ "\""

end IconConstraints.Text
