import IconConstraints.Json.StringLiteral

/-!
# Passing over JSON values

A value that nobody asks for has to be well formed, but it is not made: its
numbers may be too large, its strings may hold anything, and it may be nested to
any depth.  The brackets that are open are kept in a list.
-/

namespace IconConstraints.Json

/-! ## Numbers -/

/-- Passes over an exponent behind its letter. -/
def skipExponent (input : Input) : Outcome Input :=
  let rest := match input with
    | some '+' :: rest | some '-' :: rest => rest
    | rest => rest
  if startsWithDigit rest then .ok (rest.dropWhile isDigit) else failOn .badNumber rest

def skipOptionalExponent : Input → Outcome Input
  | some 'e' :: rest | some 'E' :: rest => skipExponent rest
  | rest => .ok rest

def skipOptionalFraction : Input → Outcome Input
  | some '.' :: rest =>
    if startsWithDigit rest then skipOptionalExponent (rest.dropWhile isDigit) else failOn .badNumber rest
  | rest => skipOptionalExponent rest

/-- Passes over a number behind its sign. -/
def skipNumber (input : Input) : Outcome Input :=
  match input with
  | some '0' :: rest => if startsWithDigit rest then failOn .badNumber rest else skipOptionalFraction rest
  | input =>
    if startsWithDigit input then skipOptionalFraction (input.dropWhile isDigit) else failOn .badNumber input

/-! ## Values -/

/-- Passes over a value without brackets. -/
def skipScalar (input : Input) : Outcome Input :=
  match input with
  | some 'n' :: rest => word "ull".toList rest
  | some 't' :: rest => word "rue".toList rest
  | some 'f' :: rest => word "alse".toList rest
  | some '-' :: rest => skipNumber rest
  | some '"' :: rest => skipStringBody rest
  | input => if startsWithDigit input then skipNumber input else failOn .valueExpected input

inductive Bracket where
  | square
  | curly
  deriving DecidableEq, Repr

/-- Passes over the key of a member and its colon. -/
def skipKey (input : Input) : Outcome Input :=
  match skipBlanks input with
  | [] => failOn .endInObject []
  | some '"' :: rest =>
    match skipStringBody rest with
    | .error e => .error e
    | .ok rest =>
      match skipBlanks rest with
      | [] => failOn .endInObject []
      | some ':' :: rest => .ok rest
      | rest => failOn .colonExpected rest
  | rest => failOn .keyNotString rest

/-- What follows a value inside of the open brackets: either all of them are closed, or another value has
to come. -/
def afterValue : List Bracket → Input → Outcome (List Bracket × Input)
  | [], input => .ok ([], input)
  | b :: open_, input =>
    match b, skipBlanks input with
    | .square, [] => failOn .endInArray []
    | .curly, [] => failOn .endInObject []
    | .square, some ']' :: rest => afterValue open_ rest
    | .curly, some '}' :: rest => afterValue open_ rest
    | .square, some ',' :: rest => .ok (.square :: open_, rest)
    | .curly, some ',' :: rest => (skipKey rest).map (.curly :: open_, ·)
    | .square, rest => failOn .arrayGoesOn rest
    | .curly, rest => failOn .objectGoesOn rest

/-- Takes the front of a value: gives the brackets that are open where the next value has to come, or none
of them where the whole value is over. -/
def skipStep (open_ : List Bracket) (input : Input) : Outcome (List Bracket × Input) :=
  match skipBlanks input with
  | [] => failOn .endInValue []
  | some '[' :: rest =>
    match skipBlanks rest with
    | [] => failOn .endInArray []
    | some ']' :: rest => afterValue open_ rest
    | rest => .ok (.square :: open_, rest)
  | some '{' :: rest =>
    match skipBlanks rest with
    | some '}' :: rest => afterValue open_ rest
    | rest => (skipKey rest).map (.curly :: open_, ·)
  | input =>
    match skipScalar input with
    | .error e => .error e
    | .ok rest => afterValue open_ rest

/-- Passes over a value and all that it leaves open; `fuel` bounds the number of steps. -/
def skipOpen : (fuel : Nat) → List Bracket → Input → Outcome Input
  | 0, _, _ => failOn .endInValue []
  | fuel + 1, open_, input =>
    match skipStep open_ input with
    | .error e => .error e
    | .ok ([], rest) => .ok rest
    | .ok (open_, rest) => skipOpen fuel open_ rest

def skip (input : Input) : Outcome Input :=
  skipOpen (input.length + 1) [] input

end IconConstraints.Json
