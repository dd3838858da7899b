import IconConstraints.Proofs.LineCounts
import IconConstraints.Proofs.StringSpellings

/-!
# Where a lexeme cannot be read

A text that holds no lexeme is read up to some place, and what is wrong there is reported
with the line ends before that place.  The relations below give the places for each fault:
the reader stops at every one of them, and nowhere else.
-/

namespace IconConstraints.Source

variable {quote c letter : Char} {triple raw : Bool} {out cs rest : List Char} {count n : Nat}
  {fault : LexFault} {stop : Stop}

/-! ## Escapes -/

/-- The digits of a hexadecimal escape stand at the head of the text.  They are passed only
if they make a number. -/
inductive HexStops (count : Nat) : List Char → LexFault → List Char → Prop
  | truncated {cs : List Char} (hshort : cs.length < count) :
      HexStops count cs .truncatedHexEscape cs
  | malformed {digits rest : List Char} (hlength : digits.length = count)
      (hnumber : hexNumeral? digits = none) :
      HexStops count (digits ++ rest) (.badHexEscape (String.ofList digits)) (digits ++ rest)
  | noCharacter {digits rest : List Char} {code : Nat} (hlength : digits.length = count)
      (hnumber : hexNumeral? digits = some code) (hcode : ¬ code.isValidChar) :
      HexStops count (digits ++ rest) (.noSuchCharacter code) rest

theorem HexStops.leaves (h : HexStops count cs fault rest) : Leaves 0 cs rest := by
  cases h with
  | truncated => exact .refl cs
  | malformed => exact .refl _
  | noCharacter _ hnumber => exact .of_append fun hmem => (hexNumeral?_plain hnumber _ hmem).1 rfl

theorem hexEscape_eq_error :
    hexEscape count cs = .error fault ↔ ∃ rest, HexStops count cs fault rest := by
  unfold hexEscape
  dsimp only
  constructor
  · intro h
    split at h
    case isTrue hshort =>
      cases h
      rw [List.length_take] at hshort
      exact ⟨cs, .truncated (by omega)⟩
    case isFalse hlong =>
      have hlength : (cs.take count).length = count := by
        rw [List.length_take] at hlong ⊢
        omega
      split at h
      case h_1 hnumber =>
        cases h
        have hstop : HexStops count (cs.take count ++ cs.drop count) _ _ :=
          .malformed hlength hnumber
        rw [List.take_append_drop] at hstop
        exact ⟨cs, hstop⟩
      case h_2 code hnumber =>
        split at h
        case isTrue => cases h
        case isFalse hcode =>
          cases h
          have hstop : HexStops count (cs.take count ++ cs.drop count) _ _ :=
            .noCharacter hlength hnumber hcode
          rw [List.take_append_drop] at hstop
          exact ⟨_, hstop⟩
  · rintro ⟨rest, hstop⟩
    cases hstop with
    | truncated hshort =>
        rw [if_pos]
        rw [List.length_take]
        omega
    | malformed hlength hnumber =>
        subst hlength
        simp [hnumber]
    | noCharacter hlength hnumber hcode =>
        subst hlength
        simp [hnumber, hcode]

/-- No other escape is refused. -/
theorem escape_eq_error :
    escape letter cs = .error fault ↔
      ∃ count rest, (letter, count) ∈ hexLetters ∧ HexStops count cs fault rest := by
  constructor
  · have hhex {letter : Char} {count : Nat} (hletter : (letter, count) ∈ hexLetters)
        (h : hexEscape count cs = .error fault) :
        ∃ count rest, (letter, count) ∈ hexLetters ∧ HexStops count cs fault rest := by
      obtain ⟨rest, hstop⟩ := hexEscape_eq_error.mp h
      exact ⟨count, rest, hletter, hstop⟩
    intro h
    unfold escape at h
    split at h
    case h_12 | h_13 | h_14 => exact hhex (by decide) h
    case h_15 => split at h <;> cases h
    all_goals cases h
  · rintro ⟨count, rest, hletter, hstop⟩
    rw [escape_eq_hexEscape hletter]
    exact hexEscape_eq_error.mpr ⟨rest, hstop⟩

/-! ## Bodies of literals -/

/-- A line end in a literal with one quote is not passed, nor is a backslash that ends the text. -/
inductive BodyStops (quote : Char) (triple raw : Bool) : List Char → LexFault → List Char → Prop
  | ended : BodyStops quote triple raw [] .unterminatedString []
  | lineEnd {cs : List Char} (hsingle : triple = false) :
      BodyStops quote triple raw ('\n' :: cs) .lineEndInString ('\n' :: cs)
  | backslash : BodyStops quote triple raw ['\\'] .unterminatedString ['\\']
  | escape {letter : Char} {count : Nat} {cs rest : List Char} {fault : LexFault}
      (hraw : raw = false) (hletter : (letter, count) ∈ hexLetters)
      (hstop : HexStops count cs fault rest) :
      BodyStops quote triple raw ('\\' :: letter :: cs) fault rest
  | nextLine {cs rest : List Char} {fault : LexFault} (htriple : triple = true)
      (h : BodyStops quote triple raw cs fault rest) :
      BodyStops quote triple raw ('\n' :: cs) fault rest
  | kept {d : Char} {cs rest : List Char} {fault : LexFault} (hraw : raw = true)
      (h : BodyStops quote triple raw cs fault rest) :
      BodyStops quote triple raw ('\\' :: d :: cs) fault rest
  | escaped {d : Char} {cs chars after rest : List Char} {fault : LexFault} (hraw : raw = false)
      (hescape : Source.escape d cs = .ok (chars, after))
      (h : BodyStops quote triple raw after fault rest) :
      BodyStops quote triple raw ('\\' :: d :: cs) fault rest
  | plain {c : Char} {cs rest : List Char} {fault : LexFault}
      (hopen : c = quote → closing? quote triple cs = none) (hline : c ≠ '\n') (hslash : c ≠ '\\')
      (h : BodyStops quote triple raw cs fault rest) :
      BodyStops quote triple raw (c :: cs) fault rest

/-- What is reported where a body stops has the line ends before that place. -/
theorem BodyStops.stringBody_eq (hquote : isQuote quote = true)
    (h : BodyStops quote triple raw cs fault rest) (out : List Char) (n : Nat) :
    ∃ k, stringBody quote triple raw out n cs = .error ⟨fault, n + k⟩ ∧ Leaves k cs rest := by
  induction h generalizing out n with
  | ended => exact ⟨0, stringBody_nil, .refl []⟩
  | lineEnd hsingle =>
      subst hsingle
      exact ⟨0, stringBody_lineEnd hquote, .refl _⟩
  | backslash => exact ⟨0, stringBody_backslash hquote, .refl _⟩
  | escape hraw hletter hstop =>
      subst hraw
      have hescape := escape_eq_error.mpr ⟨_, _, hletter, hstop⟩
      have hline := hexLetters_ne hletter
      refine ⟨0, ?_, .cons (by decide) (.cons hline hstop.leaves)⟩
      rw [stringBody_badEscape hquote hescape, if_neg hline, Nat.add_zero]
  | nextLine htriple _ ih =>
      subst htriple
      obtain ⟨k, heq, hleaves⟩ := ih ('\n' :: out) (n + 1)
      refine ⟨k + 1, ?_, hleaves.lineEnd⟩
      rw [stringBody_lineEnd hquote, if_pos rfl, heq, Nat.add_right_comm, Nat.add_assoc]
  | @kept d cs rest fault hraw _ ih =>
      subst hraw
      obtain ⟨k, heq, hleaves⟩ := ih (d :: '\\' :: out) (if d = '\n' then n + 1 else n)
      refine ⟨k + if d = '\n' then 1 else 0, ?_, .cons (by decide) hleaves.any⟩
      rw [stringBody_raw hquote, heq]
      grind
  | @escaped d cs chars after rest fault hraw hescape _ ih =>
      subst hraw
      obtain ⟨k, heq, hleaves⟩ := ih (chars.reverse ++ out) (if d = '\n' then n + 1 else n)
      have hread := (escape_leaves hescape).trans hleaves
      refine ⟨0 + k + if d = '\n' then 1 else 0, ?_, .cons (by decide) hread.any⟩
      rw [stringBody_escape hquote hescape, heq]
      grind
  | @plain c cs rest fault hopen hline hslash _ ih =>
      obtain ⟨k, heq, hleaves⟩ := ih (c :: out) n
      exact ⟨k, (stringBody_plain hopen hline hslash).trans heq, .cons hline hleaves⟩

theorem exists_bodyStops (hquote : isQuote quote = true)
    (h : stringBody quote triple raw out n cs = .error stop) :
    ∃ rest, BodyStops quote triple raw cs stop.fault rest := by
  induction out, n, cs using stringBody_steps quote triple raw with
  | ended =>
      rw [stringBody_nil] at h
      cases h
      exact ⟨[], .ended⟩
  | closed hclose => cases (stringBody_close hclose).symm.trans h
  | lineEnd ih =>
      rw [stringBody_lineEnd hquote] at h
      cases htriple : triple with
      | false =>
          rw [htriple] at h
          cases h
          exact ⟨_, .lineEnd rfl⟩
      | true =>
          rw [if_pos htriple] at h
          obtain ⟨rest, hstop⟩ := ih h
          exact ⟨rest, htriple ▸ .nextLine htriple hstop⟩
  | backslash =>
      rw [stringBody_backslash hquote] at h
      cases h
      exact ⟨_, .backslash⟩
  | kept hraw ih =>
      subst hraw
      rw [stringBody_raw hquote] at h
      obtain ⟨rest, hstop⟩ := ih h
      exact ⟨rest, .kept rfl hstop⟩
  | escaped hraw hescape ih =>
      subst hraw
      rw [stringBody_escape hquote hescape] at h
      obtain ⟨rest, hstop⟩ := ih h
      exact ⟨rest, .escaped rfl hescape hstop⟩
  | badEscape hraw hescape =>
      subst hraw
      rw [stringBody_badEscape hquote hescape] at h
      cases h
      obtain ⟨count, rest, hletter, hstop⟩ := escape_eq_error.mp hescape
      exact ⟨rest, .escape rfl hletter hstop⟩
  | plain hopen hline hslash ih =>
      rw [stringBody_plain hopen hline hslash] at h
      obtain ⟨rest, hstop⟩ := ih h
      exact ⟨rest, .plain hopen hline hslash hstop⟩

/-! ## Lexemes -/

/-- Only a number, a name or an operator can begin here. -/
structure BeginsPlain (c : Char) (cs : List Char) : Prop where
  comment : c ≠ '#'
  space : Text.isWhiteSpace c = false
  joined : joinedLine? (c :: cs) = none
  string : announced? (c :: cs) = none

theorem BeginsPlain.lexeme_eq (h : BeginsPlain c cs) :
    lexeme c cs =
      if beginsNumber c cs then numberLexeme (c :: cs)
      else if beginsName c then .ok (nameLexeme (c :: cs))
      else operatorLexeme c cs := by
  have hline : c ≠ '\n' := by
    rintro rfl
    cases h.space
  rw [lexeme_plain h.comment hline h.joined h.string, plainLexeme, h.space]
  rfl

/-- A number is passed before it is refused, an unexpected character is not. -/
inductive LexemeStops : List Char → LexFault → List Char → Prop
  | literal {cs body rest : List Char} {quote : Char} {triple raw : Bool} {fault : LexFault}
      (hstring : announced? cs = some (raw, delimiter quote triple ++ body))
      (hsingle : triple = true ∨ ¬ [quote, quote] <+: body)
      (hstop : BodyStops quote triple raw body fault rest) : LexemeStops cs fault rest
  | number {c : Char} {cs : List Char} {fault : LexFault} (hbegins : BeginsPlain c cs)
      (hnumber : beginsNumber c cs = true) (hread : numberLiteral (c :: cs) = .error fault) :
      LexemeStops (c :: cs) fault (afterNumber (c :: cs))
  | character {c : Char} {cs : List Char} (hbegins : BeginsPlain c cs)
      (hnumber : beginsNumber c cs = false) (hname : beginsName c = false)
      (hoperator : Operator.leading? (c :: cs) = none) :
      LexemeStops (c :: cs) (.unexpectedCharacter c) (c :: cs)

theorem LexemeStops.lexeme_eq (h : LexemeStops (c :: cs) fault rest) :
    ∃ n, lexeme c cs = .error ⟨fault, n⟩ ∧ Leaves n (c :: cs) rest := by
  cases h with
  | @literal _ body _ quote triple raw _ hstring hsingle hstop =>
      have hletters := announced?_leaves hstring
      obtain ⟨-, quote', after, hcons, hquote⟩ := announced?_split hstring
      obtain ⟨quotes, hquotes⟩ := delimiter_eq_cons quote triple
      rw [hquotes] at hcons
      obtain ⟨rfl, -⟩ := List.cons.inj hcons
      obtain ⟨n, hbody, hrest⟩ := hstop.stringBody_eq hquote [] 0
      have hopen : Leaves 0 (delimiter quote triple ++ body) body := by
        refine .of_append fun hmem => (isQuote_ne hquote).1 ?_
        cases triple <;> simpa [delimiter, eq_comm] using hmem
      refine ⟨n, ?_, ?_⟩
      · rw [lexeme_string hstring, stringLexeme, stringLiteral_delimiter hsingle, hbody,
          Nat.zero_add]
        rfl
      · simpa using (hletters.trans hopen).trans hrest
  | number hbegins hnumber hread =>
      refine ⟨0, ?_, afterNumber_leaves _⟩
      rw [hbegins.lexeme_eq, if_pos hnumber, numberLexeme, hread]
  | character hbegins hnumber hname hoperator =>
      refine ⟨0, ?_, .refl _⟩
      simp [hbegins.lexeme_eq, hnumber, hname, operatorLexeme, hoperator]

theorem exists_lexemeStops (h : lexeme c cs = .error stop) :
    ∃ rest, LexemeStops (c :: cs) stop.fault rest := by
  cases lexeme_case h with
  | @string raw quote text _ hstring hquote hread =>
      obtain ⟨triple, body, hdelimiter, hsingle⟩ := exists_delimiter quote text
      rw [← hdelimiter] at hstring hread
      rw [stringLexeme, stringLiteral_delimiter hsingle] at hread
      cases hbody : stringBody quote triple raw [] 0 body with
      | ok s =>
          rw [hbody] at hread
          cases hread
      | error stop' =>
          rw [hbody] at hread
          cases hread
          obtain ⟨rest, hstop⟩ := exists_bodyStops hquote hbody
          exact ⟨rest, .literal hstring hsingle hstop⟩
  | plain hcomment hline hjoin hstring hread =>
      unfold plainLexeme at hread
      split at hread
      case isTrue => cases hread
      case isFalse hspace =>
        have hbegins : BeginsPlain c cs := ⟨hcomment, by simpa using hspace, hjoin, hstring⟩
        split at hread
        case isTrue hnumber =>
          unfold numberLexeme at hread
          split at hread
          case h_1 => cases hread
          case h_2 hliteral =>
            cases hread
            exact ⟨_, .number hbegins hnumber hliteral⟩
        case isFalse hnumber =>
          split at hread
          case isTrue => cases hread
          case isFalse hname =>
            unfold operatorLexeme at hread
            split at hread
            case h_1 => cases hread
            case h_2 hoperator =>
              cases hread
              rw [Bool.not_eq_true] at hnumber hname
              exact ⟨_, .character hbegins hnumber hname hoperator⟩

end IconConstraints.Source
