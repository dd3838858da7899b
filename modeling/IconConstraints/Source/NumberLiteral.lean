import IconConstraints.Decimal.Reading
import IconConstraints.Source.LexFault
import IconConstraints.Source.Token

/-!
# Number literals

Integers are decimal, or hexadecimal, octal or binary after `0x`, `0o` or `0b`;
a point or an exponent makes a number a float.  Underscores may stand anywhere
among the digits.  Integers have 64 bits with sign, so the sign being no part of
the literal the greatest one is `2 ^ 63 - 1`.
-/

namespace IconConstraints.Source

def isDigitOf (base : Nat) (c : Char) : Bool :=
  match Text.hexValue? c with
  | some value => decide (value < base)
  | none => false

/-- The digits at the head of the text, without their underscores, and the text after them. -/
def digitRun (accept : Char → Bool) (cs : List Char) : List Char × List Char :=
  let within (c : Char) := c == '_' || accept c
  ((cs.takeWhile within).filter (· != '_'), cs.dropWhile within)

def numeral (base : Nat) (digits : List Char) : Nat :=
  digits.foldl (fun n c => base * n + (Text.hexValue? c).getD 0) 0

def integerLiteral (base : Nat) (digits : List Char) : Except LexFault TokenKind :=
  if digits.isEmpty then .error .emptyInteger
  else if numeral base digits < 0x8000000000000000 then .ok (.int (Int64.ofNat (numeral base digits)))
  else .error .integerTooLarge

/-- The base that two leading characters announce, and the text after them. -/
def radix? : List Char → Option (Nat × List Char)
  | '0' :: mark :: rest =>
    if mark == 'x' || mark == 'X' then some (16, rest)
    else if mark == 'o' || mark == 'O' then some (8, rest)
    else if mark == 'b' || mark == 'B' then some (2, rest)
    else none
  | _ => none

/-- The digits after a point, if there is one. -/
def fractionPart (cs : List Char) : Option (List Char) × List Char :=
  match cs with
  | '.' :: rest => let (digits, rest) := digitRun Char.isDigit rest; (some digits, rest)
  | _ => (none, cs)

/-- The exponent, if a digit follows its letter and sign. -/
def exponentPart (cs : List Char) : Option Int × List Char :=
  match cs with
  | mark :: sign :: rest =>
    if mark == 'e' || mark == 'E' then
      if sign == '+' || sign == '-' then
        if (rest.head?.map Char.isDigit).getD false then
          let (digits, rest) := digitRun Char.isDigit rest
          let size : Int := numeral 10 digits
          (some (if sign == '-' then -size else size), rest)
        else (none, cs)
      else if sign.isDigit then
        let (digits, rest) := digitRun Char.isDigit (sign :: rest)
        (some (numeral 10 digits), rest)
      else (none, cs)
    else (none, cs)
  | _ => (none, cs)

def decimalLiteral (cs : List Char) : Except LexFault (TokenKind × List Char) :=
  let (whole, afterWhole) := digitRun Char.isDigit cs
  let (fraction, afterFraction) := fractionPart afterWhole
  let (exponent, rest) := exponentPart afterFraction
  if rest.head? == some 'j' || rest.head? == some 'J' then .error .complexNumber
  else if fraction.isNone && exponent.isNone then
    (integerLiteral 10 whole).map (·, rest)
  else
    let places := fraction.getD []
    let value : Decimal.Scaled := ⟨numeral 10 (whole ++ places), exponent.getD 0 - places.length⟩
    .ok (.float value.toFloat, rest)

/-- Reads a number that begins with a digit, or with a point and a digit. -/
def numberLiteral (cs : List Char) : Except LexFault (TokenKind × List Char) :=
  match radix? cs with
  | some (base, afterMark) =>
    let (digits, rest) := digitRun (isDigitOf base) afterMark
    (integerLiteral base digits).map (·, rest)
  | none => decimalLiteral cs

/-! ## What is read is never given back -/

theorem digitRun_rest_length (accept : Char → Bool) (cs : List Char) :
    (digitRun accept cs).2.length ≤ cs.length :=
  (List.dropWhile_sublist _).length_le

theorem digitRun_rest_length_lt {accept : Char → Bool} {c : Char} {cs : List Char}
    (h : accept c = true) : (digitRun accept (c :: cs)).2.length < (c :: cs).length := by
  have : (digitRun accept (c :: cs)).2 = (digitRun accept cs).2 := by
    simp [digitRun, h]
  rw [this]
  exact Nat.lt_succ_of_le (digitRun_rest_length accept cs)

theorem fractionPart_rest_length (cs : List Char) : (fractionPart cs).2.length ≤ cs.length := by
  unfold fractionPart
  split
  · rename_i rest
    exact Nat.le_succ_of_le (digitRun_rest_length _ rest)
  · exact Nat.le_refl _

theorem fractionPart_rest_length_lt (cs : List Char) :
    (fractionPart ('.' :: cs)).2.length < ('.' :: cs).length :=
  Nat.lt_succ_of_le (digitRun_rest_length _ cs)

theorem exponentPart_rest_length (cs : List Char) : (exponentPart cs).2.length ≤ cs.length := by
  unfold exponentPart
  split
  · rename_i mark sign rest
    have signed := digitRun_rest_length Char.isDigit rest
    have unsigned := digitRun_rest_length Char.isDigit (sign :: rest)
    simp only [List.length_cons] at unsigned ⊢
    split
    · split
      · split <;> simp only [List.length_cons] <;> omega
      · split <;> simp only [List.length_cons] <;> omega
    · exact Nat.le_refl _
  · exact Nat.le_refl _

theorem radix?_length {cs : List Char} {out : Nat × List Char} (h : radix? cs = some out) :
    out.2.length + 2 = cs.length := by
  unfold radix? at h
  split at h
  · split at h
    · cases h; rfl
    · split at h
      · cases h; rfl
      · split at h
        · cases h; rfl
        · cases h
  · cases h

private theorem map_pair_rest {kind : Except LexFault TokenKind} {rest : List Char}
    {out : TokenKind × List Char} (h : kind.map (·, rest) = .ok out) : out.2 = rest := by
  cases kind with
  | error fault => cases h
  | ok kind => cases h; rfl

theorem decimalLiteral_rest_length_lt {c : Char} {cs : List Char} {out : TokenKind × List Char}
    (hc : c.isDigit = true ∨ c = '.') (h : decimalLiteral (c :: cs) = .ok out) :
    out.2.length < (c :: cs).length := by
  have parts : (exponentPart (fractionPart (digitRun Char.isDigit (c :: cs)).2).2).2.length
      < (c :: cs).length := by
    refine Nat.lt_of_le_of_lt (exponentPart_rest_length _) ?_
    cases hc with
    | inl digit =>
      exact Nat.lt_of_le_of_lt (fractionPart_rest_length _) (digitRun_rest_length_lt digit)
    | inr point =>
      subst point
      exact fractionPart_rest_length_lt cs
  simp only [decimalLiteral] at h
  split at h
  · cases h
  · split at h
    · rw [map_pair_rest h]
      exact parts
    · cases h
      exact parts

theorem numberLiteral_rest_length_lt {c : Char} {cs : List Char} {out : TokenKind × List Char}
    (hc : c.isDigit = true ∨ c = '.') (h : numberLiteral (c :: cs) = .ok out) :
    out.2.length < (c :: cs).length := by
  unfold numberLiteral at h
  split at h
  · rename_i base afterMark found
    rw [map_pair_rest h]
    have marked : afterMark.length + 2 = (c :: cs).length := radix?_length found
    refine Nat.lt_of_le_of_lt (digitRun_rest_length (isDigitOf base) afterMark) ?_
    omega
  · exact decimalLiteral_rest_length_lt hc h

end IconConstraints.Source
