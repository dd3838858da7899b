import IconConstraints.Json.Input
import IconConstraints.Text.Hexadecimal

/-!
# Strings of JSON texts

A string is read up to its closing quote.  Runs of characters that stand for
themselves alternate with escapes, and bytes that are no characters are found
when the string is over.  A string that is only passed over has to have the same
form, but its bytes and the numbers of its escapes may be any.
-/

namespace IconConstraints.Json

def isControl (c : Option Char) : Bool :=
  c.any fun c => decide (c.toNat < 0x20)

/-- Whether a character stands for itself. -/
def isPlain (c : Option Char) : Bool :=
  c != some '"' && c != some '\\' && !isControl c

/-! ## Escapes -/

/-- The character that a backslash and this letter stand for. -/
def escaped? (letter : Char) : Option Char :=
  match letter with
  | '"' => some '"'
  | '\\' => some '\\'
  | '/' => some '/'
  | 'b' => some '\x08'
  | 'f' => some '\x0c'
  | 'n' => some '\n'
  | 'r' => some '\r'
  | 't' => some '\t'
  | _ => none

def fourHexDigits (rest : Input) : Outcome (Nat × Input) :=
  if Text.byteCount (rest.take 4) < 4 then failBefore .endInString []
  else
    match (rest.take 4).mapM (fun d => d.bind Text.hexValue?) with
    | some [a, b, c, d] => .ok (16 * (16 * (16 * a + b) + c) + d, rest.drop 4)
    | _ => .error ⟨.badEscape, Text.byteCount rest - 4⟩

def isLeading (unit : Nat) : Bool :=
  decide (0xd800 ≤ unit) && decide (unit < 0xdc00)

def isTrailing (unit : Nat) : Bool :=
  decide (0xdc00 ≤ unit) && decide (unit < 0xe000)

/-- The character after `\u`.  One that is a leading surrogate has to be followed by a trailing one. -/
def numberedCharacter (rest : Input) : Outcome (Char × Input) :=
  match fourHexDigits rest with
  | .error e => .error e
  | .ok (unit, rest) =>
    if isTrailing unit then failBefore .loneSurrogate rest
    else if !isLeading unit then .ok (Char.ofNat unit, rest)
    else
      match rest with
      | [] => failBefore .endInString []
      | some '\\' :: some 'u' :: rest =>
        match fourHexDigits rest with
        | .error e => .error e
        | .ok (second, rest) =>
          if isTrailing second then
            .ok (Char.ofNat (0x10000 + 0x400 * (unit - 0xd800) + (second - 0xdc00)), rest)
          else failBefore .loneSurrogate rest
      | some '\\' :: [] => failBefore .endInString []
      | some '\\' :: rest => failOn .unfinishedPair rest
      | rest => failOn .unfinishedPair rest

/-- The character after a backslash. -/
def escape : Input → Outcome (Char × Input)
  | [] => failBefore .endInString []
  | some 'u' :: rest => numberedCharacter rest
  | letter :: rest =>
    match letter.bind escaped? with
    | some c => .ok (c, rest)
    | none => failOn .badEscape (letter :: rest)

/-- Passes over what follows a backslash. -/
def skipEscape : Input → Outcome Input
  | [] => failBefore .endInString []
  | some 'u' :: rest => (fourHexDigits rest).map (·.2)
  | letter :: rest =>
    if (letter.bind escaped?).isSome then .ok rest else failOn .badEscape (letter :: rest)

/-! ## Strings -/

/-- The characters up to the closing quote, with `none` for bytes that are no characters; `fuel` bounds their
number. -/
def characters : (fuel : Nat) → Input → Outcome (List (Option Char) × Input)
  | 0, _ => failBefore .endInString []
  | fuel + 1, input =>
    let run := input.takeWhile isPlain
    match input.dropWhile isPlain with
    | [] => failBefore .endInString []
    | some '"' :: rest => .ok (run, rest)
    | some '\\' :: rest =>
      match escape rest with
      | .error e => .error e
      | .ok (c, rest) => (characters fuel rest).map fun (cs, rest) => (run ++ some c :: cs, rest)
    | _ :: rest => failBefore .controlInString rest

/-- The string behind its opening quote.  Its bytes are checked when it is over.  The place of one that is no
character is counted back from the closing quote by the bytes that the string takes from there on, in which
an escape counts as the character that it stands for. -/
def stringBody (rest : Input) : Outcome (String × Input) :=
  match characters (rest.length + 1) rest with
  | .error e => .error e
  | .ok (cs, rest) =>
    match Text.text? cs with
    | some s => .ok (s, rest)
    | none => .error ⟨.badCharacter, Text.byteCount rest + Text.byteCount (cs.dropWhile Option.isSome)⟩

/-- Passes over the characters up to the closing quote; `fuel` bounds their number. -/
def skipCharacters : (fuel : Nat) → Input → Outcome Input
  | 0, _ => failBefore .endInString []
  | fuel + 1, input =>
    match input.dropWhile isPlain with
    | [] => failBefore .endInString []
    | some '"' :: rest => .ok rest
    | some '\\' :: rest =>
      match skipEscape rest with
      | .error e => .error e
      | .ok rest => skipCharacters fuel rest
    | rest => failBefore .controlInString rest

/-- Passes over a string behind its opening quote. -/
def skipStringBody (rest : Input) : Outcome Input :=
  skipCharacters (rest.length + 1) rest

end IconConstraints.Json
