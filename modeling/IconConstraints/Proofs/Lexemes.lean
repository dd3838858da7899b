import IconConstraints.Proofs.Lines

/-!
# Lexemes by kind

A lexeme is a comment, a hidden line end, a line end, a string literal, or it lies
within one line.  Literals are taken apart further: how one opens, and one equation
for each thing that can stand in its body.
-/

namespace IconConstraints.Source

variable {quote c d : Char} {triple raw : Bool} {out cs rest : List Char} {n : Nat}

/-! ## What a lexeme can be -/

/-- Whether a string literal begins here: whether it is raw, and the text from the quote on. -/
def announced? : List Char → Option (Bool × List Char)
  | [] => none
  | c :: cs => if isQuote c then some (false, c :: cs) else stringLetters? (c :: cs)

/-- A lexeme that lies within one line. -/
def plainLexeme (c : Char) (cs : List Char) : Except Stop (Reading Lexeme) :=
  if Text.isWhiteSpace c then .ok ⟨.gap, cs, 0⟩
  else if beginsNumber c cs then numberLexeme (c :: cs)
  else if beginsName c then .ok (nameLexeme (c :: cs))
  else operatorLexeme c cs

theorem lexeme_comment (cs : List Char) : lexeme '#' cs = .ok ⟨.gap, skipComment cs, 0⟩ :=
  rfl

theorem skipComment_head (hskip : skipComment cs = c :: rest) : c = '\n' := by
  have hhead := List.head?_dropWhile_not (· != '\n') cs
  rw [← skipComment, hskip] at hhead
  simpa using hhead

theorem lexeme_joined (hjoin : joinedLine? (c :: cs) = some rest) :
    lexeme c cs = .ok ⟨.gap, rest, 1⟩ := by
  have hc : c ≠ '#' := by
    rintro rfl
    cases hjoin
  simp [lexeme, hc, hjoin]

theorem announced?_isStringLetter (hc : ¬ isQuote c)
    (hstring : announced? (c :: cs) = some (raw, rest)) :
    stringLetters? (c :: cs) = some (raw, rest) ∧ isStringLetter c = true := by
  rw [announced?, if_neg hc] at hstring
  refine ⟨hstring, ?_⟩
  cases cs with
  | nil => cases hstring
  | cons d cs =>
      cases hletter : isStringLetter c with
      | true => rfl
      | false => simp [stringLetters?, hletter] at hstring

theorem lexeme_string (hstring : announced? (c :: cs) = some (raw, rest)) :
    lexeme c cs = stringLexeme raw rest := by
  by_cases hc : isQuote c
  · have hquote : c = '"' ∨ c = '\'' := by simpa [isQuote] using hc
    rw [announced?, if_pos hc] at hstring
    cases hstring
    obtain rfl | rfl := hquote <;> rfl
  · obtain ⟨hletters, hletter⟩ := announced?_isStringLetter hc hstring
    simp only [isStringLetter, List.contains_eq_mem, decide_eq_true_eq] at hletter
    have hcases : c ∈ ['r', 'R', 'b', 'B', 'f', 'F', 'u', 'U'] := hletter
    simp only [List.mem_cons, List.not_mem_nil, or_false] at hcases
    obtain rfl | rfl | rfl | rfl | rfl | rfl | rfl | rfl := hcases <;>
      simp [lexeme, joinedLine?, Text.isWhiteSpace, isQuote, beginsNumber, beginsName,
        Text.isAlphabetic, hletters]

theorem lexeme_plain (hcomment : c ≠ '#') (hline : c ≠ '\n') (hjoin : joinedLine? (c :: cs) = none)
    (hstring : announced? (c :: cs) = none) : lexeme c cs = plainLexeme c cs := by
  have hquote : isQuote c = false := by
    cases hquote : isQuote c with
    | false => rfl
    | true => simp [announced?, hquote] at hstring
  have hletters : stringLetters? (c :: cs) = none := by simpa [announced?, hquote] using hstring
  simp [lexeme, plainLexeme, hcomment, hline, hjoin, hquote, hletters]

/-! ## Operators -/

theorem Operator.chars_plain (o : Operator) : ∀ c ∈ o.chars, c ≠ '\n' ∧ c ≠ '\r' := by
  have hplain : o.chars.all (fun c => c != '\n' && c != '\r') := by cases o <;> decide
  simpa using hplain

theorem Operator.leading?_eq_some {o : Operator} (h : Operator.leading? (c :: cs) = some o) :
    ∃ w, o.chars = c :: w ∧ cs = w ++ cs.drop (o.chars.length - 1) := by
  have hprefix : o.chars <+: c :: cs :=
    List.isPrefixOf_iff_prefix.mp
      (List.find?_some (p := fun o : Operator => o.chars.isPrefixOf (c :: cs)) h)
  obtain ⟨rest, hrest⟩ := hprefix
  cases hchars : o.chars with
  | nil => cases o <;> cases hchars
  | cons d w =>
      rw [hchars] at hrest
      obtain ⟨rfl, rfl⟩ := List.cons.inj hrest
      exact ⟨w, rfl, by simp⟩

/-! ## Escapes and quotes -/

private theorem hexFold_digits {digits : List Char} {start code : Nat}
    (h : digits.foldlM (fun n c => (Text.hexValue? c).map (16 * n + ·)) start = some code) :
    ∀ c ∈ digits, (Text.hexValue? c).isSome := by
  induction digits generalizing start with
  | nil => simp
  | cons d digits ih =>
      rw [List.foldlM_cons] at h
      cases hd : Text.hexValue? d with
      | none => simp [hd] at h
      | some value =>
          simp only [hd, Option.map_some, Option.bind_eq_bind, Option.bind_some] at h
          simpa [hd] using ih h

theorem hexNumeral?_plain {digits : List Char} {code : Nat} (h : hexNumeral? digits = some code) :
    ∀ c ∈ digits, c ≠ '\n' ∧ c ≠ '\r' := by
  have hdigits : ∀ c ∈ digits, c = '+' ∨ (Text.hexValue? c).isSome := by
    unfold hexNumeral? at h
    dsimp only at h
    split at h
    · split at h
      · cases h
      · intro c hc
        exact (List.mem_cons.mp hc).imp_right (hexFold_digits h c)
    · split at h
      · cases h
      · exact fun c hc => .inr (hexFold_digits h c hc)
  intro c hc
  constructor
  · rintro rfl
    exact absurd (hdigits _ hc) (by decide)
  · rintro rfl
    exact absurd (hdigits _ hc) (by decide)

theorem hexEscape_eq_ok {count : Nat} {chars : List Char} :
    hexEscape count cs = .ok (chars, rest) ↔
      ∃ w code, cs = w ++ rest ∧ w.length = count ∧ hexNumeral? w = some code ∧
        code.isValidChar ∧ chars = [Char.ofNat code] := by
  unfold hexEscape
  dsimp only
  constructor
  · intro h
    split at h
    · cases h
    · rename_i hlength
      split at h
      · cases h
      · rename_i code hcode
        split at h
        · rename_i hvalid
          cases h
          have hsplit := (List.take_append_drop count cs).symm
          refine ⟨cs.take count, code, hsplit, ?_, hcode, hvalid, rfl⟩
          rw [List.length_take] at hlength ⊢
          omega
        · cases h
  · rintro ⟨w, code, rfl, rfl, hcode, hvalid, rfl⟩
    simp only [List.take_left, List.drop_left, hcode, Nat.lt_irrefl, if_false, if_pos hvalid]

theorem octalDigits_split (cs : List Char) :
    '\n' ∉ (cs.take 2).takeWhile isOctalDigit ∧
      cs = (cs.take 2).takeWhile isOctalDigit ++
        cs.drop ((cs.take 2).takeWhile isOctalDigit).length := by
  constructor
  · intro hmem
    exact absurd (List.all_eq_true.mp List.all_takeWhile _ hmem) (by decide)
  · have hprefix : (cs.take 2).takeWhile isOctalDigit <+: cs :=
      (List.takeWhile_prefix _).trans (List.take_prefix 2 cs)
    exact (List.prefix_iff_eq_append.mp hprefix).symm

/-- Two more quotes after the first open a literal with three quotes. -/
theorem stringLiteral_cons (raw : Bool) (quote : Char) (cs : List Char) :
    stringLiteral raw (quote :: cs) =
      match closing? quote true cs with
      | some rest => stringBody quote true raw [] 0 rest
      | none => stringBody quote false raw [] 0 cs := by
  simp only [stringLiteral, closing?, if_true]
  split
  · split <;> rfl
  · rfl

theorem stringLetters?_cons_cons (a b : Char) (rest : List Char) :
    stringLetters? (a :: b :: rest) =
      if isStringLetter a then
        if isQuote b then some (a == 'r' || a == 'R', b :: rest)
        else if isLetterPair a b && (rest.head?.map isQuote).getD false then some (true, rest)
        else none
      else none := by
  cases rest with
  | nil => simp [stringLetters?]
  | cons c rest =>
      simp only [stringLetters?, List.head?_cons, Option.map_some, Option.getD_some]
      grind

theorem isQuote_ne {quote : Char} (h : isQuote quote = true) : quote ≠ '\n' ∧ quote ≠ '\r' := by
  constructor <;> rintro rfl <;> cases h

/-- The letters before a literal stand on the line of its quote. -/
theorem announced?_split (h : announced? cs = some (raw, rest)) :
    (∃ letters, cs = letters ++ rest ∧ '\n' ∉ letters) ∧
      ∃ quote after, rest = quote :: after ∧ isQuote quote = true := by
  unfold announced? at h
  split at h
  case h_1 => cases h
  case h_2 a cs =>
    split at h
    case isTrue hquote =>
      cases h
      exact ⟨⟨[], rfl, List.not_mem_nil⟩, a, cs, rfl, hquote⟩
    case isFalse =>
      cases cs with
      | nil => cases h
      | cons b after =>
          rw [stringLetters?_cons_cons] at h
          split at h
          case isFalse => cases h
          case isTrue ha =>
            have ha : a ≠ '\n' := by rintro rfl; cases ha
            split at h
            case isTrue hb =>
              cases h
              exact ⟨⟨[a], rfl, by simpa using ha.symm⟩, b, after, rfl, hb⟩
            case isFalse =>
              split at h
              case isFalse => cases h
              case isTrue hpair =>
                cases h
                obtain ⟨hpair, hquote⟩ := Bool.and_eq_true_iff.mp hpair
                have hb : b ≠ '\n' := by
                  rintro rfl
                  simp [isLetterPair] at hpair
                have hletters : '\n' ∉ [a, b] := by simpa using ⟨ha.symm, hb.symm⟩
                cases rest with
                | nil => cases hquote
                | cons q rest => exact ⟨⟨[a, b], rfl, hletters⟩, q, rest, rfl, hquote⟩

/-! ## The ways to read a lexeme -/

inductive LexemeCase (c : Char) (cs : List Char) : Except Stop (Reading Lexeme) → Prop
  | comment (hcomment : c = '#') : LexemeCase c cs (.ok ⟨.gap, skipComment cs, 0⟩)
  | joined {rest : List Char} (hjoin : joinedLine? (c :: cs) = some rest) :
      LexemeCase c cs (.ok ⟨.gap, rest, 1⟩)
  | lineEnd (hline : c = '\n') : LexemeCase c cs (.ok ⟨.lineEnd, cs, 1⟩)
  | string {raw : Bool} {quote : Char} {text : List Char} {read : Except Stop (Reading Lexeme)}
      (hstring : announced? (c :: cs) = some (raw, quote :: text)) (hquote : isQuote quote = true)
      (hread : stringLexeme raw (quote :: text) = read) : LexemeCase c cs read
  | plain {read : Except Stop (Reading Lexeme)} (hcomment : c ≠ '#') (hline : c ≠ '\n')
      (hjoin : joinedLine? (c :: cs) = none) (hstring : announced? (c :: cs) = none)
      (hread : plainLexeme c cs = read) : LexemeCase c cs read

theorem lexeme_case {read : Except Stop (Reading Lexeme)} (h : lexeme c cs = read) :
    LexemeCase c cs read := by
  by_cases hcomment : c = '#'
  · subst hcomment
    rw [lexeme_comment] at h
    exact h ▸ .comment rfl
  cases hjoin : joinedLine? (c :: cs) with
  | some rest =>
      rw [lexeme_joined hjoin] at h
      exact h ▸ .joined hjoin
  | none =>
      by_cases hline : c = '\n'
      · subst hline
        rw [lexeme_lineEnd] at h
        exact h ▸ .lineEnd rfl
      cases hstring : announced? (c :: cs) with
      | some found =>
          obtain ⟨raw, text⟩ := found
          obtain ⟨-, quote, after, rfl, hquote⟩ := announced?_split hstring
          rw [lexeme_string hstring] at h
          exact .string hstring hquote h
      | none =>
          rw [lexeme_plain hcomment hline hjoin hstring] at h
          exact .plain hcomment hline hjoin hstring h

/-! ## The body of a literal step by step -/

theorem stringBody_nil :
    stringBody quote triple raw out n [] = .error ⟨.unterminatedString, n⟩ := by
  rw [stringBody.eq_def]

theorem stringBody_close (hclose : closing? quote triple cs = some rest) :
    stringBody quote triple raw out n (quote :: cs) = .ok ⟨String.ofList out.reverse, rest, n⟩ := by
  rw [stringBody.eq_def]
  simp [hclose]

theorem stringBody_lineEnd (hquote : isQuote quote = true) :
    stringBody quote triple raw out n ('\n' :: cs) =
      if triple then stringBody quote triple raw ('\n' :: out) (n + 1) cs
      else .error ⟨.lineEndInString, n⟩ := by
  conv => lhs; rw [stringBody.eq_def]
  simp [Ne.symm (isQuote_ne hquote).1]

theorem backslash_ne (hquote : isQuote quote = true) : '\\' ≠ quote := by
  rintro rfl
  cases hquote

theorem stringBody_backslash (hquote : isQuote quote = true) :
    stringBody quote triple raw out n ['\\'] = .error ⟨.unterminatedString, n⟩ := by
  rw [stringBody.eq_def]
  simp [backslash_ne hquote]

theorem stringBody_raw (hquote : isQuote quote = true) :
    stringBody quote triple true out n ('\\' :: d :: cs) =
      stringBody quote triple true (d :: '\\' :: out) (if d = '\n' then n + 1 else n) cs := by
  conv => lhs; rw [stringBody.eq_def]
  simp [backslash_ne hquote]

theorem stringBody_escape (hquote : isQuote quote = true) {chars : List Char}
    (hescape : escape d cs = .ok (chars, rest)) :
    stringBody quote triple false out n ('\\' :: d :: cs) =
      stringBody quote triple false (chars.reverse ++ out) (if d = '\n' then n + 1 else n)
        rest := by
  conv => lhs; rw [stringBody.eq_def]
  simp only [backslash_ne hquote, if_false, if_true, Bool.false_eq_true, Char.reduceEq]
  split <;> simp_all

theorem stringBody_badEscape (hquote : isQuote quote = true) {fault : LexFault}
    (hescape : escape d cs = .error fault) :
    stringBody quote triple false out n ('\\' :: d :: cs) =
      .error ⟨fault, if d = '\n' then n + 1 else n⟩ := by
  rw [stringBody.eq_def]
  simp only [backslash_ne hquote, if_false, if_true, Bool.false_eq_true, Char.reduceEq]
  split <;> simp_all

theorem stringBody_plain (hopen : c = quote → closing? quote triple cs = none) (hline : c ≠ '\n')
    (hslash : c ≠ '\\') :
    stringBody quote triple raw out n (c :: cs) = stringBody quote triple raw (c :: out) n cs := by
  have hopen : (if c = quote then closing? quote triple cs else none) = none := by
    split
    · exact hopen ‹_›
    · rfl
  conv => lhs; rw [stringBody.eq_def]
  simp [hopen, hline, hslash]

/-- What holds of a state of the body if it holds of the state after the next step holds of all
states. -/
theorem stringBody_steps (quote : Char) (triple raw : Bool)
    {motive : List Char → Nat → List Char → Prop}
    (ended : ∀ {out n}, motive out n [])
    (closed : ∀ {out n cs rest}, closing? quote triple cs = some rest → motive out n (quote :: cs))
    (lineEnd : ∀ {out n cs}, motive ('\n' :: out) (n + 1) cs → motive out n ('\n' :: cs))
    (backslash : ∀ {out n}, motive out n ['\\'])
    (kept : ∀ {out n d cs}, raw = true →
      motive (d :: '\\' :: out) (if d = '\n' then n + 1 else n) cs → motive out n ('\\' :: d :: cs))
    (escaped : ∀ {out n d cs chars rest}, raw = false → escape d cs = .ok (chars, rest) →
      motive (chars.reverse ++ out) (if d = '\n' then n + 1 else n) rest →
      motive out n ('\\' :: d :: cs))
    (badEscape : ∀ {out n d cs fault}, raw = false → escape d cs = .error fault →
      motive out n ('\\' :: d :: cs))
    (plain : ∀ {out n c cs}, (c = quote → closing? quote triple cs = none) → c ≠ '\n' → c ≠ '\\' →
      motive (c :: out) n cs → motive out n (c :: cs))
    (out : List Char) (n : Nat) (cs : List Char) : motive out n cs := by
  induction hlength : cs.length using Nat.strongRecOn generalizing out n cs with
  | ind size ih =>
  cases cs with
  | nil => exact ended
  | cons c cs =>
      rw [List.length_cons] at hlength
      by_cases hclose : ∃ rest, c = quote ∧ closing? quote triple cs = some rest
      · obtain ⟨rest, rfl, hclose⟩ := hclose
        exact closed hclose
      have hopen (hc : c = quote) : closing? quote triple cs = none := by
        cases hrest : closing? quote triple cs with
        | none => rfl
        | some rest => exact absurd ⟨rest, hc, hrest⟩ hclose
      by_cases hline : c = '\n'
      · subst hline
        exact lineEnd (ih _ (by omega) _ _ cs rfl)
      by_cases hslash : c = '\\'
      · subst hslash
        cases cs with
        | nil => exact backslash
        | cons d cs =>
            rw [List.length_cons] at hlength
            cases hraw : raw with
            | true => exact kept hraw (ih _ (by omega) _ _ cs rfl)
            | false =>
                cases hescape : escape d cs with
                | error fault => exact badEscape hraw hescape
                | ok read =>
                    have hshorter : read.2.length ≤ cs.length := escape_rest_length hescape
                    exact escaped hraw hescape (ih _ (by omega) _ _ read.2 rfl)
      · exact plain hopen hline hslash (ih _ (by omega) _ _ cs rfl)

end IconConstraints.Source
