import IconConstraints.Source.LexFault

/-!
# String literals

A literal opens with one quote or three and ends with as many of the same.
Outside raw literals a backslash starts an escape; an escape that is not known
keeps its backslash.  A line end is allowed in a literal with three quotes and
directly after a backslash.
-/

namespace IconConstraints.Source

def isQuote (c : Char) : Bool :=
  c == '"' || c == '\''

/-! ## Escapes -/

/-- Reads hexadecimal digits, which a plus sign may precede. -/
def hexNumeral? (digits : List Char) : Option Nat :=
  let unsigned := match digits with
    | '+' :: rest => rest
    | all => all
  if unsigned.isEmpty then none
  else unsigned.foldlM (fun n c => (Text.hexValue? c).map (16 * n + ·)) 0

/-- The character with the code that the next `count` digits give, and the text after them. -/
def hexEscape (count : Nat) (cs : List Char) : Except LexFault (List Char × List Char) :=
  let digits := cs.take count
  if digits.length < count then .error .truncatedHexEscape
  else match hexNumeral? digits with
    | none => .error (.badHexEscape (String.ofList digits))
    | some code =>
      if code.isValidChar then .ok ([Char.ofNat code], cs.drop count)
      else .error (.noSuchCharacter code)

def isOctalDigit (c : Char) : Bool :=
  decide ('0' ≤ c) && decide (c ≤ '7')

def octalValue (digits : List Char) : Nat :=
  digits.foldl (fun n c => 8 * n + (c.toNat - '0'.toNat)) 0

/-- What the escape with the letter `c` stands for, and the text after it. -/
def escape (c : Char) (cs : List Char) : Except LexFault (List Char × List Char) :=
  match c with
  | '\n' => .ok ([], cs)
  | 'n' => .ok (['\n'], cs)
  | 't' => .ok (['\t'], cs)
  | 'r' => .ok (['\r'], cs)
  | 'a' => .ok (['\x07'], cs)
  | 'b' => .ok (['\x08'], cs)
  | 'f' => .ok (['\x0c'], cs)
  | 'v' => .ok (['\x0b'], cs)
  | '\\' => .ok (['\\'], cs)
  | '\'' => .ok (['\''], cs)
  | '"' => .ok (['"'], cs)
  | 'x' => hexEscape 2 cs
  | 'u' => hexEscape 4 cs
  | 'U' => hexEscape 8 cs
  | c =>
    if isOctalDigit c then
      let more := (cs.take 2).takeWhile isOctalDigit
      .ok ([Char.ofNat (octalValue (c :: more))], cs.drop more.length)
    else .ok (['\\', c], cs)

theorem hexEscape_rest_length {count : Nat} {cs : List Char} {out : List Char × List Char}
    (h : hexEscape count cs = .ok out) : out.2.length ≤ cs.length := by
  unfold hexEscape at h
  dsimp only at h
  split at h
  · cases h
  · split at h
    · cases h
    · split at h
      · cases h
        simp
      · cases h

theorem escape_rest_length {c : Char} {cs : List Char} {out : List Char × List Char}
    (h : escape c cs = .ok out) : out.2.length ≤ cs.length := by
  unfold escape at h
  split at h <;> first
    | exact hexEscape_rest_length h
    | (cases h; exact Nat.le_refl _)
    | (split at h <;> (cases h; simp))

/-! ## The body of a literal -/

/-- Whether the literal ends at the quote that was just met, and the text after it. -/
def closing? (quote : Char) (triple : Bool) (cs : List Char) : Option (List Char) :=
  if triple then
    match cs with
    | a :: b :: rest => if a = quote ∧ b = quote then some rest else none
    | _ => none
  else some cs

theorem closing?_length {quote : Char} {triple : Bool} {cs rest : List Char}
    (h : closing? quote triple cs = some rest) : rest.length ≤ cs.length := by
  unfold closing? at h
  split at h
  · split at h
    · split at h
      · cases h
        simp only [List.length_cons]
        omega
      · cases h
    · cases h
  · cases h
    exact Nat.le_refl _

/-- Reads up to the closing quote; `out` holds the characters so far, the last one first. -/
def stringBody (quote : Char) (triple raw : Bool) (out : List Char) (lineEnds : Nat) :
    List Char → Except Stop (Reading String)
  | [] => .error ⟨.unterminatedString, lineEnds⟩
  | c :: cs =>
    match (if c = quote then closing? quote triple cs else none) with
    | some rest => .ok ⟨String.ofList out.reverse, rest, lineEnds⟩
    | none =>
      if c = '\n' then
        if triple then stringBody quote triple raw ('\n' :: out) (lineEnds + 1) cs
        else .error ⟨.lineEndInString, lineEnds⟩
      else if c = '\\' then
        match cs with
        | [] => .error ⟨.unterminatedString, lineEnds⟩
        | next :: after =>
          let lineEnds := if next = '\n' then lineEnds + 1 else lineEnds
          if raw then stringBody quote triple raw (next :: '\\' :: out) lineEnds after
          else
            match _step : escape next after with
            | .error fault => .error ⟨fault, lineEnds⟩
            | .ok (chars, rest) => stringBody quote triple raw (chars.reverse ++ out) lineEnds rest
      else stringBody quote triple raw (c :: out) lineEnds cs
  termination_by cs => cs.length
  decreasing_by
    all_goals simp only [List.length_cons]
    any_goals omega
    have := escape_rest_length _step
    simp only at this
    omega

/-- Reads a literal that begins at its quote. -/
def stringLiteral (raw : Bool) : List Char → Except Stop (Reading String)
  | [] => .error ⟨.unterminatedString, 0⟩
  | quote :: cs =>
    match cs with
    | a :: b :: rest =>
      if a = quote ∧ b = quote then stringBody quote true raw [] 0 rest
      else stringBody quote false raw [] 0 cs
    | _ => stringBody quote false raw [] 0 cs

/-! ## Letters before the quote -/

def isStringLetter (c : Char) : Bool :=
  "rRbBfFuU".toList.contains c

/-- Two letters may stand before a quote if one of them makes the literal raw and the other is `b` or `f`. -/
def isLetterPair (a b : Char) : Bool :=
  let raw (c : Char) := c == 'r' || c == 'R'
  let kind (c : Char) := c == 'b' || c == 'B' || c == 'f' || c == 'F'
  raw a && kind b || kind a && raw b

/-- Letters that announce a string literal: whether it is raw, and the text from the quote on. -/
def stringLetters? (cs : List Char) : Option (Bool × List Char) :=
  match cs with
  | a :: b :: rest =>
    if isStringLetter a then
      if isQuote b then some (a == 'r' || a == 'R', b :: rest)
      else if isLetterPair a b then
        match rest with
        | q :: _ => if isQuote q then some (true, rest) else none
        | [] => none
      else none
    else none
  | _ => none

end IconConstraints.Source
