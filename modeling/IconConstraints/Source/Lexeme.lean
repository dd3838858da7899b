import IconConstraints.Source.NumberLiteral
import IconConstraints.Source.StringLiteral
import IconConstraints.Text.Alphabetic
import IconConstraints.Text.Numeric
import IconConstraints.Text.WhiteSpace

/-!
# Lexemes

Within a logical line the text falls into tokens, line ends, and gaps that carry
no token: white space, comments, and line ends after a backslash.  `lexeme`
reads one of them and always consumes something.
-/

namespace IconConstraints.Source

inductive Lexeme where
  | gap
  | lineEnd
  | token (kind : TokenKind)
  deriving DecidableEq, Repr

def beginsName (c : Char) : Bool :=
  c == '_' || Text.isAlphabetic c

def continuesName (c : Char) : Bool :=
  beginsName c || Text.isNumeric c

/-- The text after a backslash and the line end it hides. -/
def joinedLine? : List Char → Option (List Char)
  | '\\' :: '\n' :: rest => some rest
  | '\\' :: '\r' :: '\n' :: rest => some rest
  | _ => none

def skipComment (cs : List Char) : List Char :=
  cs.dropWhile (· != '\n')

def beginsNumber (c : Char) (cs : List Char) : Bool :=
  c.isDigit || c == '.' && (cs.head?.map Char.isDigit).getD false

def stringLexeme (raw : Bool) (cs : List Char) : Except Stop (Reading Lexeme) :=
  (stringLiteral raw cs).map (Reading.map fun s => .token (.str s))

def numberLexeme (cs : List Char) : Except Stop (Reading Lexeme) :=
  match numberLiteral cs with
  | .ok (kind, rest) => .ok ⟨.token kind, rest, 0⟩
  | .error fault => .error ⟨fault, 0⟩

def nameLexeme (cs : List Char) : Reading Lexeme :=
  ⟨.token (.name (String.ofList (cs.takeWhile continuesName))), cs.dropWhile continuesName, 0⟩

def operatorLexeme (c : Char) (cs : List Char) : Except Stop (Reading Lexeme) :=
  match Operator.leading? (c :: cs) with
  | some o => .ok ⟨.token (.op o), cs.drop (o.chars.length - 1), 0⟩
  | none => .error ⟨.unexpectedCharacter c, 0⟩

def lexeme (c : Char) (cs : List Char) : Except Stop (Reading Lexeme) :=
  if c = '#' then .ok ⟨.gap, skipComment cs, 0⟩
  else match joinedLine? (c :: cs) with
    | some rest => .ok ⟨.gap, rest, 1⟩
    | none =>
      if c = '\n' then .ok ⟨.lineEnd, cs, 1⟩
      else if Text.isWhiteSpace c then .ok ⟨.gap, cs, 0⟩
      else if isQuote c then stringLexeme false (c :: cs)
      else if beginsNumber c cs then numberLexeme (c :: cs)
      else if beginsName c then
        match stringLetters? (c :: cs) with
        | some (raw, rest) => stringLexeme raw rest
        | none => .ok (nameLexeme (c :: cs))
      else operatorLexeme c cs

/-! ## Every lexeme consumes text -/

theorem stringBody_rest_length {quote : Char} {triple raw : Bool} {out : List Char} {lineEnds : Nat}
    {cs : List Char} {r : Reading String}
    (h : stringBody quote triple raw out lineEnds cs = .ok r) : r.rest.length ≤ cs.length := by
  fun_induction stringBody quote triple raw out lineEnds cs with
  | case1 => cases h
  | case2 out lineEnds c cs rest found =>
    cases h
    split at found
    · exact Nat.le_succ_of_le (closing?_length found)
    · cases found
  | case3 out lineEnds cs _ _ ih => exact Nat.le_succ_of_le (ih h)
  | case4 => cases h
  | case5 => cases h
  | case6 =>
    rename_i ih
    have := ih h
    simp only [List.length_cons]
    omega
  | case7 => cases h
  | case8 =>
    rename_i step _ _ ih
    have consumed := escape_rest_length step
    have := ih h
    simp only [List.length_cons] at *
    omega
  | case9 =>
    rename_i ih
    exact Nat.le_succ_of_le (ih h)

theorem stringLiteral_rest_length {raw : Bool} {quote : Char} {cs : List Char} {r : Reading String}
    (h : stringLiteral raw (quote :: cs) = .ok r) : r.rest.length ≤ cs.length := by
  unfold stringLiteral at h
  split at h
  · cases h
  · rename_i heq
    cases heq
    split at h
    · split at h
      · have := stringBody_rest_length h
        simp only [List.length_cons]
        omega
      · exact stringBody_rest_length h
    · exact stringBody_rest_length h

theorem stringLexeme_rest_length {raw : Bool} {quote : Char} {cs : List Char} {r : Reading Lexeme}
    (h : stringLexeme raw (quote :: cs) = .ok r) : r.rest.length ≤ cs.length := by
  unfold stringLexeme at h
  cases read : stringLiteral raw (quote :: cs) with
  | error stop => rw [read] at h; cases h
  | ok s =>
    rw [read] at h
    cases h
    exact stringLiteral_rest_length read

theorem stringLetters?_length {cs : List Char} {raw : Bool} {rest : List Char}
    (h : stringLetters? cs = some (raw, rest)) :
    rest.length < cs.length ∧ ∃ quote after, rest = quote :: after := by
  unfold stringLetters? at h
  split at h
  · split at h
    · split at h
      · cases h
        exact ⟨Nat.lt_succ_self _, _, _, rfl⟩
      · split at h
        · split at h
          · split at h
            · cases h
              exact ⟨by simp only [List.length_cons]; omega, _, _, rfl⟩
            · cases h
          · cases h
        · cases h
    · cases h
  · cases h

theorem joinedLine?_length {cs rest : List Char} (h : joinedLine? cs = some rest) :
    rest.length < cs.length := by
  unfold joinedLine? at h
  split at h
  · cases h
    simp only [List.length_cons]
    omega
  · cases h
    simp only [List.length_cons]
    omega
  · cases h

theorem nameLexeme_rest_length {c : Char} {cs : List Char} (h : beginsName c = true) :
    (nameLexeme (c :: cs)).rest.length ≤ cs.length := by
  have : (nameLexeme (c :: cs)).rest = cs.dropWhile continuesName := by
    simp [nameLexeme, continuesName, h]
  rw [this]
  exact (List.dropWhile_sublist _).length_le

theorem lexeme_rest_length {c : Char} {cs : List Char} {r : Reading Lexeme}
    (h : lexeme c cs = .ok r) : r.rest.length ≤ cs.length := by
  unfold lexeme at h
  split at h
  · cases h
    exact (List.dropWhile_sublist _).length_le
  · split at h
    · rename_i joined
      cases h
      exact Nat.le_of_lt_succ (joinedLine?_length joined)
    · split at h
      · cases h
        exact Nat.le_refl _
      · split at h
        · cases h
          exact Nat.le_refl _
        · split at h
          · exact stringLexeme_rest_length h
          · split at h
            · rename_i number
              unfold numberLexeme at h
              split at h
              · rename_i read
                cases h
                refine Nat.le_of_lt_succ (numberLiteral_rest_length_lt ?_ read)
                unfold beginsNumber at number
                simp only [Bool.or_eq_true, Bool.and_eq_true, beq_iff_eq] at number
                exact number.imp id And.left
              · cases h
            · split at h
              · rename_i name
                split at h
                · rename_i letters
                  obtain ⟨shorter, quote, after, eq⟩ := stringLetters?_length letters
                  subst eq
                  have := stringLexeme_rest_length h
                  simp only [List.length_cons] at *
                  omega
                · cases h
                  exact nameLexeme_rest_length name
              · unfold operatorLexeme at h
                split at h
                · cases h
                  simp only [List.length_drop]
                  omega
                · cases h

end IconConstraints.Source
