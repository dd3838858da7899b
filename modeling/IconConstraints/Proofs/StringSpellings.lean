import Mathlib.Data.List.Basic
import IconConstraints.Proofs.Lexemes

/-!
# Spellings of a string

The ways to write a string as a literal: each character stands for itself or is written by
one of the escapes that denote it, and line ends after a backslash may stand between the
characters.  Whatever is chosen for each character, the literal is read as the string.
-/

namespace IconConstraints.Source

variable {quote c d letter : Char} {triple : Bool} {s text digits cs out rest w : List Char}
  {base count code n : Nat}

/-! ## Escapes that denote a character -/

def letterEscapes : List (Char × Char) :=
  [('n', '\n'), ('t', '\t'), ('r', '\r'), ('a', '\x07'), ('b', '\x08'), ('f', '\x0c'),
   ('v', '\x0b'), ('\\', '\\'), ('\'', '\''), ('"', '"')]

/-- The letters of the hexadecimal escapes, with the number of their digits. -/
def hexLetters : List (Char × Nat) :=
  [('x', 2), ('u', 4), ('U', 8)]

/-- Exactly `count` digits of the base. -/
def AreDigits (base count : Nat) (digits : List Char) : Prop :=
  digits.length = count ∧ ∀ c ∈ digits, isDigitOf base c = true

/-- A way to write a character within a literal. -/
inductive Spelling (quote : Char) (triple : Bool) : Char → List Char → Prop
  | verbatim {c : Char} (hslash : c ≠ '\\') (hquote : c ≠ quote)
      (hline : c = '\n' → triple = true) : Spelling quote triple c [c]
  | letter {c letter : Char} (h : (letter, c) ∈ letterEscapes) :
      Spelling quote triple c ['\\', letter]
  | octal {c : Char} {digits : List Char} (hdigits : AreDigits 8 3 digits)
      (hcode : numeral 8 digits = c.toNat) : Spelling quote triple c ('\\' :: digits)
  | hex {c letter : Char} {count : Nat} {digits : List Char}
      (hletter : (letter, count) ∈ hexLetters) (hdigits : AreDigits 16 count digits) (hcode : numeral 16 digits = c.toNat) :
      Spelling quote triple c ('\\' :: letter :: digits)

/-- A way to write a string within a literal. -/
inductive Spelled (quote : Char) (triple : Bool) : (s text : List Char) → Prop
  | nil : Spelled quote triple [] []
  | joined {s text : List Char} (h : Spelled quote triple s text) :
      Spelled quote triple s ('\\' :: '\n' :: text)
  | cons {c : Char} {s w text : List Char} (hc : Spelling quote triple c w)
      (h : Spelled quote triple s text) : Spelled quote triple (c :: s) (w ++ text)

/-! ## Digits -/

theorem hexValue?_eq (c : Char) : Text.hexValue? c =
    if 48 ≤ c.toNat ∧ c.toNat ≤ 57 then some (c.toNat - 48)
    else if 97 ≤ c.toNat ∧ c.toNat ≤ 102 then some (c.toNat - 97 + 10)
    else if 65 ≤ c.toNat ∧ c.toNat ≤ 70 then some (c.toNat - 65 + 10)
    else none := by
  unfold Text.hexValue?
  simp only [Char.le_def, UInt32.le_iff_toNat_le]
  rfl

theorem isDigitOf_hex : isDigitOf 16 c = (Text.hexValue? c).isSome := by
  unfold isDigitOf
  cases h : Text.hexValue? c with
  | none => rfl
  | some value =>
      rw [hexValue?_eq] at h
      have hlt : value < 16 := by grind
      simpa using hlt

theorem isDigitOf_octal : isDigitOf 8 c = true ↔ 48 ≤ c.toNat ∧ c.toNat ≤ 55 := by
  unfold isDigitOf
  rw [hexValue?_eq]
  grind

theorem isOctalDigit_eq (c : Char) : isOctalDigit c = isDigitOf 8 c := by
  rw [Bool.eq_iff_iff, isDigitOf_octal]
  unfold isOctalDigit
  simp only [Char.le_def, UInt32.le_iff_toNat_le, Bool.and_eq_true, decide_eq_true_eq]
  rfl

theorem hexFold_eq_some :
    digits.foldlM (fun n c => (Text.hexValue? c).map (16 * n + ·)) n = some code ↔
      (∀ c ∈ digits, isDigitOf 16 c = true) ∧
        digits.foldl (fun n c => 16 * n + (Text.hexValue? c).getD 0) n = code := by
  induction digits generalizing n with
  | nil => simp
  | cons c digits ih =>
      rw [List.foldlM_cons, List.foldl_cons, List.forall_mem_cons, isDigitOf_hex]
      cases Text.hexValue? c with
      | none => simp
      | some value => simpa using ih

theorem numeral_eq_some {unsigned : List Char} :
    (if unsigned.isEmpty then none
      else unsigned.foldlM (fun n c => (Text.hexValue? c).map (16 * n + ·)) 0) = some code ↔
      unsigned ≠ [] ∧ (∀ c ∈ unsigned, isDigitOf 16 c = true) ∧ numeral 16 unsigned = code := by
  cases unsigned with
  | nil => simp
  | cons c unsigned =>
      rw [if_neg (by simp), hexFold_eq_some]
      simp [numeral]

theorem hexNumeral?_eq_some :
    hexNumeral? digits = some code ↔
      ∃ unsigned, (digits = unsigned ∨ digits = '+' :: unsigned) ∧ unsigned ≠ [] ∧
        (∀ c ∈ unsigned, isDigitOf 16 c = true) ∧ numeral 16 unsigned = code := by
  unfold hexNumeral?
  dsimp only
  rw [numeral_eq_some]
  constructor
  · intro h
    split at h
    · exact ⟨_, .inr rfl, h⟩
    · exact ⟨_, .inl rfl, h⟩
  · rintro ⟨unsigned, rfl | rfl, h⟩
    · split
      · have hplus := h.2.1 '+' (by simp)
        cases hplus
      · exact h
    · exact h

/-! ## Reading the escapes -/

theorem octalValue_eq (h : ∀ c ∈ digits, isDigitOf 8 c = true) :
    octalValue digits = numeral 8 digits := by
  refine List.foldl_ext _ _ _ fun n c hc => ?_
  obtain ⟨hlow, hhigh⟩ := isDigitOf_octal.mp (h c hc)
  have hvalue : Text.hexValue? c = some (c.toNat - 48) := by
    rw [hexValue?_eq, if_pos ⟨hlow, by omega⟩]
  rw [hvalue]
  rfl

theorem escape_of_isOctalDigit (hd : isOctalDigit d = true) (cs : List Char) :
    escape d cs = .ok ([Char.ofNat (octalValue (d :: (cs.take 2).takeWhile isOctalDigit))],
      cs.drop ((cs.take 2).takeWhile isOctalDigit).length) := by
  unfold escape
  split
  case h_15 => rw [if_pos hd]
  all_goals cases hd

theorem escape_octal (hdigits : AreDigits 8 3 digits) (hcode : numeral 8 digits = c.toNat)
    (rest : List Char) :
    ∃ d more, digits = d :: more ∧ d ≠ '\n' ∧ escape d (more ++ rest) = .ok ([c], rest) := by
  obtain ⟨hlength, hall⟩ := hdigits
  obtain ⟨d, e, f, rfl⟩ := List.length_eq_three.mp hlength
  have hoctal : ∀ c ∈ [d, e, f], isOctalDigit c = true := by
    intro c hc
    rw [isOctalDigit_eq, hall c hc]
  have hd : d ≠ '\n' := by
    rintro rfl
    cases hoctal '\n' (by simp)
  refine ⟨d, [e, f], rfl, hd, ?_⟩
  rw [escape_of_isOctalDigit (hoctal d (by simp))]
  have hmore : (([e, f] ++ rest).take 2).takeWhile isOctalDigit = [e, f] := by
    simp [hoctal e (by simp), hoctal f (by simp)]
  rw [hmore, octalValue_eq hall, hcode, Char.ofNat_toNat]
  rfl

theorem escape_eq_hexEscape (hletter : (letter, count) ∈ hexLetters) :
    escape letter = hexEscape count := by
  simp only [hexLetters, List.mem_cons, Prod.mk.injEq, List.not_mem_nil, or_false] at hletter
  obtain ⟨rfl, rfl⟩ | ⟨rfl, rfl⟩ | ⟨rfl, rfl⟩ := hletter <;> rfl

theorem escape_hex (hletter : (letter, count) ∈ hexLetters) (hdigits : AreDigits 16 count digits)
    (hcode : numeral 16 digits = c.toNat) (rest : List Char) :
    escape letter (digits ++ rest) = .ok ([c], rest) := by
  obtain ⟨hlength, hall⟩ := hdigits
  have hne : digits ≠ [] := by
    rintro rfl
    subst hlength
    simp [hexLetters] at hletter
  have hnumber : hexNumeral? digits = some c.toNat :=
    hexNumeral?_eq_some.mpr ⟨digits, .inl rfl, hne, hall, hcode⟩
  rw [escape_eq_hexEscape hletter]
  exact hexEscape_eq_ok.mpr ⟨digits, c.toNat, rfl, hlength, hnumber, c.valid, by simp⟩

theorem escape_letter (h : (letter, c) ∈ letterEscapes) (rest : List Char) :
    escape letter rest = .ok ([c], rest) := by
  simp only [letterEscapes, List.mem_cons, Prod.mk.injEq, List.not_mem_nil, or_false] at h
  obtain ⟨rfl, rfl⟩ | ⟨rfl, rfl⟩ | ⟨rfl, rfl⟩ | ⟨rfl, rfl⟩ | ⟨rfl, rfl⟩ | ⟨rfl, rfl⟩ | ⟨rfl, rfl⟩ |
    ⟨rfl, rfl⟩ | ⟨rfl, rfl⟩ | ⟨rfl, rfl⟩ := h <;> rfl

/-! ## Reading a spelled string -/

theorem AreDigits.count_lineEnd (h : AreDigits base count digits) : digits.count '\n' = 0 := by
  refine List.count_eq_zero_of_not_mem fun hmem => ?_
  have hfeed := h.2 _ hmem
  cases hfeed

theorem letterEscapes_ne (h : (letter, c) ∈ letterEscapes) : letter ≠ '\n' := by
  rintro rfl
  simp [letterEscapes] at h

theorem hexLetters_ne (h : (letter, count) ∈ hexLetters) : letter ≠ '\n' := by
  rintro rfl
  simp [hexLetters] at h

theorem Spelling.stringBody_eq (hquote : isQuote quote = true) (h : Spelling quote triple c w)
    (out rest : List Char) (n : Nat) :
    stringBody quote triple false out n (w ++ rest) =
      stringBody quote triple false (c :: out) (n + w.count '\n') rest := by
  cases h with
  | verbatim hslash hne hline =>
      by_cases hc : c = '\n'
      · subst hc
        rw [List.singleton_append, stringBody_lineEnd hquote, hline rfl]
        simp
      · have hopen (heq : c = quote) : closing? quote triple rest = none := absurd heq hne
        rw [List.singleton_append, stringBody_plain hopen hc hslash]
        simp [hc]
  | letter hletter =>
      have hline := letterEscapes_ne hletter
      rw [List.cons_append, List.singleton_append,
        stringBody_escape hquote (escape_letter hletter rest), if_neg hline]
      simp [hline]
  | octal hdigits hcode =>
      obtain ⟨d, more, rfl, hline, hescape⟩ := escape_octal hdigits hcode rest
      have hcount := hdigits.count_lineEnd
      rw [List.cons_append, List.cons_append, stringBody_escape hquote hescape, if_neg hline]
      simp [hcount]
  | hex hletter hdigits hcode =>
      have hline := hexLetters_ne hletter
      have hcount := hdigits.count_lineEnd
      rw [List.cons_append, List.cons_append,
        stringBody_escape hquote (escape_hex hletter hdigits hcode rest), if_neg hline]
      simp [hcount, hline]

theorem Spelled.stringBody_eq (hquote : isQuote quote = true) (h : Spelled quote triple s text)
    (out rest : List Char) (n : Nat) :
    stringBody quote triple false out n (text ++ rest) =
      stringBody quote triple false (s.reverse ++ out) (n + text.count '\n') rest := by
  induction h generalizing out n with
  | nil => simp
  | joined _ ih =>
      have hescape (cs : List Char) : escape '\n' cs = .ok ([], cs) := rfl
      rw [List.cons_append, List.cons_append, stringBody_escape hquote (hescape _), ih]
      simp [Nat.add_comm 1, Nat.add_assoc]
  | cons hc _ ih =>
      rw [List.append_assoc, hc.stringBody_eq hquote, ih]
      simp [Nat.add_assoc]

/-! ## Literals -/

def delimiter (quote : Char) (triple : Bool) : List Char :=
  if triple then [quote, quote, quote] else [quote]

/-- The letters that may stand before a literal and do not change what it says. -/
def literalLetters : List (List Char) :=
  [[], ['b'], ['B'], ['f'], ['F'], ['u'], ['U']]

theorem delimiter_eq_cons (quote : Char) (triple : Bool) :
    ∃ quotes, delimiter quote triple = quote :: quotes := by
  cases triple <;> exact ⟨_, rfl⟩

theorem length_delimiter (quote : Char) (triple : Bool) : (delimiter quote triple).length ≤ 3 := by
  cases triple <;> simp [delimiter]

theorem closing?_eq_some :
    closing? quote triple cs = some rest ↔ delimiter quote triple ++ rest = quote :: cs := by
  cases triple with
  | false => simp [closing?, delimiter, eq_comm]
  | true =>
      obtain _ | ⟨a, _ | ⟨b, after⟩⟩ := cs
      · simp [closing?, delimiter]
      · simp [closing?, delimiter]
      · simp [closing?, delimiter, eq_comm, and_assoc]

theorem closing?_eq_none :
    closing? quote triple cs = none ↔ ¬ delimiter quote triple <+: quote :: cs := by
  constructor
  · rintro hnone ⟨rest, hrest⟩
    cases hnone.symm.trans (closing?_eq_some.mpr hrest)
  · intro hnot
    cases hclose : closing? quote triple cs with
    | none => rfl
    | some rest => exact absurd ⟨rest, closing?_eq_some.mp hclose⟩ hnot

/-- A single quote opens a literal, unless two more follow and make a delimiter of three. -/
theorem stringLiteral_delimiter (hsingle : triple = true ∨ ¬ [quote, quote] <+: cs) (raw : Bool) :
    stringLiteral raw (delimiter quote triple ++ cs) = stringBody quote triple raw [] 0 cs := by
  cases triple with
  | true =>
      have hopen : closing? quote true (quote :: quote :: cs) = some cs :=
        closing?_eq_some.mpr rfl
      change stringLiteral raw (quote :: quote :: quote :: cs) = _
      rw [stringLiteral_cons, hopen]
  | false =>
      have hopen : closing? quote true cs = none := by
        rw [closing?_eq_none]
        rintro ⟨rest, hrest⟩
        simp only [Bool.false_eq_true, false_or] at hsingle
        exact hsingle ⟨rest, (List.cons.inj hrest).2⟩
      change stringLiteral raw (quote :: cs) = _
      rw [stringLiteral_cons, hopen]

theorem exists_delimiter (quote : Char) (cs : List Char) :
    ∃ triple body, delimiter quote triple ++ body = quote :: cs ∧
      (triple = true ∨ ¬ [quote, quote] <+: body) := by
  cases hopen : closing? quote true cs with
  | some body => exact ⟨true, body, closing?_eq_some.mp hopen, .inl rfl⟩
  | none =>
      rw [closing?_eq_none] at hopen
      refine ⟨false, cs, rfl, .inr ?_⟩
      rintro ⟨rest, rfl⟩
      exact hopen ⟨rest, rfl⟩

theorem Spelling.head (hquote : isQuote quote = true) (h : Spelling quote triple c w) :
    ∃ d more, w = d :: more ∧ d ≠ quote := by
  cases h with
  | verbatim _ hne => exact ⟨c, [], rfl, hne⟩
  | letter => exact ⟨_, _, rfl, backslash_ne hquote⟩
  | octal => exact ⟨_, _, rfl, backslash_ne hquote⟩
  | hex => exact ⟨_, _, rfl, backslash_ne hquote⟩

theorem Spelled.opens_one (hquote : isQuote quote = true) (h : Spelled quote triple s text) :
    ¬ [quote, quote] <+: text ++ [quote] := by
  rintro ⟨rest, hrest⟩
  cases h with
  | nil => simp at hrest
  | joined => exact backslash_ne hquote (List.cons.inj hrest).1.symm
  | cons hc =>
      obtain ⟨d, more, rfl, hne⟩ := hc.head hquote
      exact hne (List.cons.inj hrest).1.symm

theorem Spelled.stringLiteral_eq (hquote : isQuote quote = true) (h : Spelled quote triple s text) :
    stringLiteral false (delimiter quote triple ++ (text ++ delimiter quote triple)) =
      .ok ⟨String.ofList s, [], text.count '\n'⟩ := by
  have hsingle : triple = true ∨ ¬ [quote, quote] <+: text ++ delimiter quote triple := by
    cases triple with
    | true => exact .inl rfl
    | false => exact .inr (h.opens_one hquote)
  obtain ⟨quotes, hquotes⟩ := delimiter_eq_cons quote triple
  have hclose : closing? quote triple quotes = some [] :=
    closing?_eq_some.mpr (by rw [hquotes, List.append_nil])
  rw [stringLiteral_delimiter hsingle, h.stringBody_eq hquote, hquotes, stringBody_close hclose]
  simp

theorem announced?_literal {letters : List Char} (hquote : isQuote quote = true)
    (hletters : letters ∈ literalLetters) (cs : List Char) :
    ∃ c after, letters ++ quote :: cs = c :: after ∧ beginsBlank c = false ∧
      indentation 0 (c :: after) = (0, c :: after) ∧
      announced? (c :: after) = some (false, quote :: cs) := by
  have hquotes : quote = '"' ∨ quote = '\'' := by simpa [isQuote] using hquote
  simp only [literalLetters, List.mem_cons, List.not_mem_nil, or_false] at hletters
  obtain rfl | rfl := hquotes <;>
    obtain rfl | rfl | rfl | rfl | rfl | rfl | rfl := hletters <;>
    exact ⟨_, _, rfl, rfl, rfl, rfl⟩

/-- A literal by itself is one line with the string that it spells. -/
theorem logicalLines_spelled {letters : List Char} {s : String} (hquote : isQuote quote = true)
    (hletters : letters ∈ literalLetters) (h : Spelled quote triple s.toList text) :
    logicalLines (String.ofList
        (letters ++ (delimiter quote triple ++ (text ++ delimiter quote triple)))) =
      .ok [⟨0, 1, [⟨.str s, 1 + text.count '\n'⟩]⟩] := by
  obtain ⟨quotes, hquotes⟩ := delimiter_eq_cons quote triple
  have hcs : delimiter quote triple ++ (text ++ delimiter quote triple) =
      quote :: (quotes ++ (text ++ delimiter quote triple)) := by rw [hquotes, List.cons_append]
  have hliteral := h.stringLiteral_eq hquote
  obtain ⟨c, after, htext, hblank, hindent, hstring⟩ := announced?_literal hquote hletters _
  have hread : lexeme c after = .ok ⟨.token (.str s), [], text.count '\n'⟩ := by
    rw [lexeme_string hstring, stringLexeme, ← hcs, hliteral, String.ofList_toList]
    rfl
  unfold logicalLines
  rw [String.toList_ofList, hcs, htext, linesFrom_begin hindent hblank, linesFrom_token hread,
    linesFrom_end]
  rfl

/-- A code, a hidden line end and an escaped quote, after the letter of a prefix. -/
theorem logicalLines_spelled_folded :
    logicalLines "b'\\x41\\\n\\''" = .ok [⟨0, 1, [⟨.str "A'", 2⟩]⟩] := by
  have hcode : Spelling '\'' false 'A' ['\\', 'x', '4', '1'] :=
    .hex (by decide) ⟨rfl, List.all_eq_true.mp rfl⟩ rfl
  have hquote : Spelling '\'' false '\'' ['\\', '\''] := .letter (by decide)
  have htext : Spelled '\'' false ['A', '\''] ['\\', 'x', '4', '1', '\\', '\n', '\\', '\''] :=
    .cons hcode (.joined (.cons hquote .nil))
  have hstring : "A'".toList = ['A', '\''] := by decide
  rw [← hstring] at htext
  have hletters : ['b'] ∈ literalLetters := by decide
  have hread := logicalLines_spelled rfl hletters htext
  have hsource : String.ofList (['b'] ++ (delimiter '\'' false ++
      (['\\', 'x', '4', '1', '\\', '\n', '\\', '\''] ++ delimiter '\'' false))) =
      "b'\\x41\\\n\\''" := by decide
  rw [hsource] at hread
  exact hread

/-- No string lacks a spelling, whichever quotes it stands between. -/
theorem exists_spelled (hquote : isQuote quote = true) (triple : Bool) (s : List Char) :
    ∃ text, Spelled quote triple s text := by
  induction s with
  | nil => exact ⟨[], .nil⟩
  | cons c s ih =>
      obtain ⟨text, htext⟩ := ih
      by_cases hc : c = '\\' ∨ c = quote ∨ c = '\n'
      · obtain ⟨letter, hletter⟩ : ∃ letter, (letter, c) ∈ letterEscapes := by
          have hquotes : quote = '"' ∨ quote = '\'' := by simpa [isQuote] using hquote
          obtain rfl | rfl | rfl := hc
          · exact ⟨'\\', by decide⟩
          · obtain rfl | rfl := hquotes
            · exact ⟨'"', by decide⟩
            · exact ⟨'\'', by decide⟩
          · exact ⟨'n', by decide⟩
        exact ⟨_, .cons (.letter hletter) htext⟩
      · simp only [not_or] at hc
        obtain ⟨hslash, hne, hline⟩ := hc
        exact ⟨_, .cons (.verbatim hslash hne fun h => absurd h hline) htext⟩

end IconConstraints.Source
