import IconConstraints.Json.NumberLiteral
import IconConstraints.Json.Skipping
import IconConstraints.Json.StringLiteral

/-!
# Reading JSON

Readers of scalars, arrays and records.  A record is an object whose keys may
come in any order and may be joined by unknown ones, or an array of all its
fields in order.
-/

namespace IconConstraints.Json

/-! ## Scalars -/

/-- Reads a value that is not of the expected type, to tell what it is. -/
def found (input : Input) : Outcome (Found × Input) :=
  match input with
  | some 'n' :: rest => (word "ull".toList rest).map (.null, ·)
  | some 't' :: rest => (word "rue".toList rest).map (.bool true, ·)
  | some 'f' :: rest => (word "alse".toList rest).map (.bool false, ·)
  | some '-' :: rest => number true rest
  | some '"' :: rest => (stringBody rest).map fun (s, rest) => (.string s, rest)
  | some '[' :: _ => .ok (.array, input)
  | some '{' :: _ => .ok (.object, input)
  | input => if startsWithDigit input then number false input else failOn .valueExpected input

def mistyped {α : Type} (expected : String) (input : Input) : Outcome α :=
  match found input with
  | .error e => .error e
  | .ok (f, rest) => failBefore (.wrongType f expected) rest

/-- Goes on with the next value, if there is one. -/
def value {α : Type} (read : Input → Outcome α) (input : Input) : Outcome α :=
  match skipBlanks input with
  | [] => failOn .endInValue []
  | c :: rest => read (c :: rest)

def string (input : Input) : Outcome (String × Input) :=
  value (fun input =>
    match input with
    | some '"' :: rest => stringBody rest
    | input => mistyped "a string" input) input

def bool (input : Input) : Outcome (Bool × Input) :=
  value (fun input =>
    match input with
    | some 't' :: rest => (word "rue".toList rest).map (true, ·)
    | some 'f' :: rest => (word "alse".toList rest).map (false, ·)
    | input => mistyped "a boolean" input) input

/-- A number below `bound`. -/
def unsigned (bound : Nat) (expected : String) (input : Input) : Outcome (Nat × Input) :=
  value (fun input =>
    match found input with
    | .error e => .error e
    | .ok (.unsigned n, rest) =>
      if n < bound then .ok (n, rest) else failBefore (.wrongValue (.unsigned n) expected) rest
    | .ok (.signed n, rest) => failBefore (.wrongValue (.signed n) expected) rest
    | .ok (f, rest) => failBefore (.wrongType f expected) rest) input

/-! ## Arrays -/

/-- Where the next element begins, or `none` before the closing bracket. -/
def nextElement (first : Bool) (input : Input) : Outcome (Option Input) :=
  match skipBlanks input with
  | [] => failOn .endInArray []
  | some ']' :: _ => .ok none
  | some ',' :: rest =>
    if first then .ok (some (some ',' :: rest))
    else
      match skipBlanks rest with
      | [] => failOn .endInValue []
      | some ']' :: rest => failOn .trailingComma (some ']' :: rest)
      | rest => .ok (some rest)
  | rest => if first then .ok (some rest) else failOn .arrayGoesOn rest

/-- The closing bracket where no further element is expected. -/
def closeArray (input : Input) : Outcome Input :=
  match skipBlanks input with
  | [] => failOn .endInArray []
  | some ']' :: rest => .ok rest
  | some ',' :: rest =>
    match skipBlanks rest with
    | some ']' :: rest => failOn .trailingComma (some ']' :: rest)
    | rest => failOn .trailingCharacters rest
  | rest => failOn .trailingCharacters rest

/-- The elements up to the closing bracket; `fuel` bounds their number. -/
def elements {α : Type} (read : Input → Outcome (α × Input)) :
    (fuel : Nat) → (first : Bool) → Input → Outcome (List α × Input)
  | 0, _, _ => failOn .endInArray []
  | fuel + 1, first, input =>
    match nextElement first input with
    | .error e => .error e
    | .ok none => (closeArray input).map ([], ·)
    | .ok (some input) =>
      match read input with
      | .error e => .error e
      | .ok (a, rest) =>
        match elements read fuel false rest with
        | .error e => .error e
        | .ok (as, rest) => .ok (a :: as, rest)

def array {α : Type} (read : Input → Outcome (α × Input)) (input : Input) : Outcome (List α × Input) :=
  value (fun input =>
    match input with
    | some '[' :: rest => elements read (rest.length + 1) true rest
    | input => mistyped "a sequence" input) input

/-- The element at `index` of an array that has to have more. -/
def elementAt {α : Type} (read : Input → Outcome (α × Input)) (index : Nat) (expected : String)
    (input : Input) : Outcome (α × Input) :=
  match nextElement (index == 0) input with
  | .error e => .error e
  | .ok none =>
    match closeArray input with
    | .error e => .error e
    | .ok rest => failBefore (.wrongLength index expected) rest
  | .ok (some input) => read input

/-! ## Objects -/

/-- The next key, or `none` before the closing bracket. -/
def nextKey (first : Bool) (input : Input) : Outcome (Option (String × Input)) :=
  match skipBlanks input with
  | [] => failOn .endInObject []
  | some '}' :: _ => .ok none
  | some ',' :: rest =>
    if first then failOn .keyNotString (some ',' :: rest)
    else
      match skipBlanks rest with
      | [] => failOn .endInValue []
      | some '"' :: rest => (stringBody rest).map some
      | some '}' :: rest => failOn .trailingComma (some '}' :: rest)
      | rest => failOn .keyNotString rest
  | some '"' :: rest =>
    if first then (stringBody rest).map some else failOn .objectGoesOn (some '"' :: rest)
  | rest => if first then failOn .keyNotString rest else failOn .objectGoesOn rest

def colon (input : Input) : Outcome Input :=
  match skipBlanks input with
  | [] => failOn .endInObject []
  | some ':' :: rest => .ok rest
  | rest => failOn .colonExpected rest

def closeObject (input : Input) : Outcome Input :=
  match skipBlanks input with
  | [] => failOn .endInObject []
  | some '}' :: rest => .ok rest
  | some ',' :: rest => failOn .trailingComma (some ',' :: rest)
  | rest => failOn .trailingCharacters rest

/-- A fault of the record as a whole lies behind its closing bracket, if that follows. -/
def failAfterObject {α : Type} (fault : Fault) (input : Input) : Outcome α :=
  match closeObject input with
  | .ok rest => failBefore fault rest
  | .error _ => failBefore fault (skipBlanks input)

/-- The members up to the closing bracket, which is left; `fuel` bounds their number.  A member is read into
the record by `field`, which knows its key or gives `none`. -/
def members {ρ : Type} (field : ρ → String → Option (Input → Outcome (ρ × Input))) :
    (fuel : Nat) → (first : Bool) → ρ → Input → Outcome (ρ × Input)
  | 0, _, _, _ => failOn .endInObject []
  | fuel + 1, first, record, input =>
    match nextKey first input with
    | .error e => .error e
    | .ok none => .ok (record, input)
    | .ok (some (key, rest)) =>
      match field record key with
      | some read =>
        match read rest with
        | .error e => .error e
        | .ok (record, rest) => members field fuel false record rest
      | none =>
        match colon rest with
        | .error e => .error e
        | .ok rest =>
          match skip rest with
          | .error e => .error e
          | .ok rest => members field fuel false record rest

/-- The value of a field that must not have been read before. -/
def fieldValue {α ρ : Type} (name : String) (known : Option α) (read : Input → Outcome (α × Input))
    (set : α → ρ) (rest : Input) : Outcome (ρ × Input) :=
  match known with
  | some _ => failAfterObject (.duplicateField name) rest
  | none =>
    match colon rest with
    | .error e => .error e
    | .ok rest => (read rest).map fun (a, rest) => (set a, rest)

/-- The value of a field that must have been read. -/
def required {α : Type} (name : String) (known : Option α) (input : Input) : Outcome α :=
  match known with
  | some a => .ok a
  | none => failAfterObject (.missingField name) input

/-! ## Whole texts -/

/-- Reads a whole text. -/
def whole {α : Type} (read : Input → Outcome (α × Input)) (input : Input) : Except Misreading α :=
  let outcome : Outcome α :=
    match read input with
    | .error e => .error e
    | .ok (a, rest) =>
      match skipBlanks rest with
      | [] => .ok a
      | rest => failOn .trailingCharacters rest
  outcome.mapError fun e => ⟨e.fault, placeOf input e.left⟩

end IconConstraints.Json
