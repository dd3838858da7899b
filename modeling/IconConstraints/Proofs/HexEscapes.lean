import IconConstraints.Proofs.ReaderPlaces

/-!
# Hexadecimal escapes that are not well formed

A hexadecimal escape gives the code of a character by as many digits as its letter asks for.
A text with another one in a literal is refused, whatever comes before and after it, with one
exception: the first digit may be a plus sign, which is read as a zero.
-/

namespace IconConstraints.Source

variable {quote c d letter : Char} {triple : Bool} {count n : Nat}
  {inner tail after cs rest w chars out : List Char}

/-! ## What an escape says -/

/-- The text begins with the digits of a character's code. -/
def IsCode (count : Nat) (cs : List Char) : Prop :=
  ∃ digits rest, cs = digits ++ rest ∧ AreDigits 16 count digits ∧
    (numeral 16 digits).isValidChar

/-- The text begins with a plus sign in place of the first digit of a character's code. -/
def IsSignedCode (count : Nat) (cs : List Char) : Prop :=
  ∃ unsigned, cs = '+' :: unsigned ∧ IsCode (count - 1) unsigned

theorem isCode_iff : IsCode count cs ↔ count ≤ cs.length ∧
    (cs.take count).all (isDigitOf 16) = true ∧ (numeral 16 (cs.take count)).isValidChar := by
  rw [List.all_eq_true]
  constructor
  · rintro ⟨digits, rest, rfl, ⟨rfl, hall⟩, hvalid⟩
    simpa using ⟨hall, hvalid⟩
  · rintro ⟨hlength, hall, hvalid⟩
    have htake := List.length_take_of_le hlength
    exact ⟨_, _, (List.take_append_drop count cs).symm, ⟨htake, hall⟩, hvalid⟩

theorem isSignedCode_iff :
    IsSignedCode count cs ↔ cs.head? = some '+' ∧ IsCode (count - 1) cs.tail := by
  cases cs with
  | nil => simp [IsSignedCode]
  | cons c cs => simp [IsSignedCode]

instance (count : Nat) (cs : List Char) : Decidable (IsCode count cs) :=
  decidable_of_iff _ isCode_iff.symm

instance (count : Nat) (cs : List Char) : Decidable (IsSignedCode count cs) :=
  decidable_of_iff _ isSignedCode_iff.symm

theorem two_le_of_hexLetter (hletter : (letter, count) ∈ hexLetters) : 2 ≤ count := by
  simp only [hexLetters, List.mem_cons, Prod.mk.injEq, List.not_mem_nil, or_false] at hletter
  omega

theorem isCode_of_hexEscape (h : hexEscape count cs = .ok (chars, rest)) :
    IsCode count cs ∨ IsSignedCode count cs := by
  obtain ⟨digits, code, rfl, hlength, hcode, hvalid, -⟩ := hexEscape_eq_ok.mp h
  obtain ⟨unsigned, rfl | rfl, -, hall, rfl⟩ := hexNumeral?_eq_some.mp hcode
  · exact .inl ⟨_, rest, rfl, ⟨hlength, hall⟩, hvalid⟩
  · have hunsigned : unsigned.length = count - 1 := by rw [← hlength]; rfl
    exact .inr ⟨unsigned ++ rest, rfl, unsigned, rest, rfl, ⟨hunsigned, hall⟩, hvalid⟩

theorem hexEscape_signed {unsigned : List Char} (hcount : 2 ≤ count)
    (h : IsCode (count - 1) unsigned) :
    ∃ read, hexEscape count ('+' :: unsigned) = .ok read ∧
      hexEscape count ('0' :: unsigned) = .ok read := by
  obtain ⟨digits, rest, rfl, ⟨hlength, hall⟩, hvalid⟩ := h
  have hne : digits ≠ [] := List.ne_nil_of_length_pos (by omega)
  have hzero : ∀ c ∈ '0' :: digits, isDigitOf 16 c = true := by
    simpa using ⟨rfl, hall⟩
  have hplus : hexNumeral? ('+' :: digits) = some (numeral 16 digits) :=
    hexNumeral?_eq_some.mpr ⟨digits, .inr rfl, hne, hall, rfl⟩
  have hzero : hexNumeral? ('0' :: digits) = some (numeral 16 digits) :=
    hexNumeral?_eq_some.mpr ⟨_, .inl rfl, by simp, hzero, rfl⟩
  refine ⟨([Char.ofNat (numeral 16 digits)], rest), hexEscape_eq_ok.mpr ?_, hexEscape_eq_ok.mpr ?_⟩
  · exact ⟨'+' :: digits, _, rfl, by simp; omega, hplus, hvalid, rfl⟩
  · exact ⟨'0' :: digits, _, rfl, by simp; omega, hzero, hvalid, rfl⟩

/-! ## Within a literal -/

/-- The text `inner` is part of a literal that goes on with `tail`: each backslash goes with the
character after it, and the literal does not end before `tail`. -/
inductive Within (quote : Char) (triple : Bool) (tail : List Char) : List Char → Prop
  | nil : Within quote triple tail []
  | plain {c : Char} {inner : List Char} (hslash : c ≠ '\\')
      (hopen : ¬ delimiter quote triple <+: c :: (inner ++ tail))
      (h : Within quote triple tail inner) : Within quote triple tail (c :: inner)
  | escaped {d : Char} {inner : List Char} (h : Within quote triple tail inner) :
      Within quote triple tail ('\\' :: d :: inner)

theorem Within.cons (h : Within quote triple tail (c :: inner)) (hslash : c ≠ '\\') :
    ¬ delimiter quote triple <+: c :: (inner ++ tail) ∧ Within quote triple tail inner := by
  generalize htext : c :: inner = text at h
  cases h with
  | nil => cases htext
  | plain _ hopen h =>
      cases htext
      exact ⟨hopen, h⟩
  | escaped =>
      cases htext
      exact absurd rfl hslash

theorem Within.of_append (hw : '\\' ∉ w) (h : Within quote triple tail (w ++ inner)) :
    Within quote triple tail inner := by
  induction w with
  | nil => exact h
  | cons c w ih =>
      simp only [List.mem_cons, not_or] at hw
      exact ih hw.2 (h.cons (Ne.symm hw.1)).2

theorem escape_noBackslash (h : escape c (w ++ rest) = .ok (chars, rest)) : '\\' ∉ w := by
  have hhex {count : Nat} (h : hexEscape count (w ++ rest) = .ok (chars, rest)) : '\\' ∉ w := by
    obtain ⟨digits, code, heq, -, hcode, -, -⟩ := hexEscape_eq_ok.mp h
    obtain rfl := List.append_cancel_right heq
    obtain ⟨unsigned, hdigits, -, hall, -⟩ := hexNumeral?_eq_some.mp hcode
    have hnot : '\\' ∉ unsigned := fun hmem => Bool.false_ne_true (hall _ hmem)
    obtain rfl | rfl := hdigits
    · exact hnot
    · simpa using hnot
  have hrest (h : w ++ rest = rest) : '\\' ∉ w := by
    obtain rfl : w = [] := by simpa using h
    exact List.not_mem_nil
  cases hoctal : isOctalDigit c with
  | true =>
      rw [escape_of_isOctalDigit hoctal] at h
      have hdrop := congrArg Prod.snd (Except.ok.inj h)
      have hsplit := (octalDigits_split (w ++ rest)).2
      dsimp only at hdrop
      rw [hdrop] at hsplit
      rw [List.append_cancel_right hsplit]
      exact fun hmem => Bool.false_ne_true (List.all_eq_true.mp List.all_takeWhile _ hmem)
  | false =>
      unfold escape at h
      split at h
      case h_12 | h_13 | h_14 => exact hhex h
      case h_15 =>
        rw [hoctal, if_neg Bool.false_ne_true] at h
        exact hrest (congrArg Prod.snd (Except.ok.inj h))
      all_goals exact hrest (congrArg Prod.snd (Except.ok.inj h))

theorem Within.of_sameStart (h : Within quote triple tail inner) (hstart : SameStart 2 tail cs) :
    Within quote triple cs inner := by
  induction h with
  | nil => exact .nil
  | @plain c inner hslash hopen _ ih =>
      rw [((hstart.append inner).cons_succ c).prefix_iff (length_delimiter quote triple)] at hopen
      exact .plain hslash hopen ih
  | escaped _ ih => exact .escaped ih

/-- An escape that is read within the literal leaves a part that lies within it as well. -/
theorem Within.escape_eq (h : Within quote triple ('\\' :: letter :: after) inner)
    (hescape : escape d (inner ++ '\\' :: letter :: after) = .ok (chars, rest)) :
    ∃ inner', rest = inner' ++ '\\' :: letter :: after ∧
      Within quote triple ('\\' :: letter :: after) inner' ∧
      ∀ later, escape d (inner ++ '\\' :: letter :: later) =
        .ok (chars, inner' ++ '\\' :: letter :: later) := by
  obtain ⟨w, heq, hread⟩ := escape_alike hescape
  rw [heq] at hescape
  have hslash := escape_noBackslash hescape
  obtain ⟨inner', rfl, rfl⟩ : ∃ inner', inner = w ++ inner' ∧
      rest = inner' ++ '\\' :: letter :: after := by
    obtain ⟨taken, rfl, htail⟩ | hinner := List.append_eq_append_iff.mp heq
    · cases taken with
      | nil => exact ⟨[], by simp, htail.symm⟩
      | cons c taken =>
          rw [List.cons_append] at htail
          obtain ⟨rfl, -⟩ := List.cons.inj htail
          simp at hslash
    · exact hinner
  refine ⟨inner', rfl, h.of_append hslash, fun later => ?_⟩
  have hstart : SameStart 1 ('\\' :: letter :: after) ('\\' :: letter :: later) := rfl
  rw [List.append_assoc]
  exact hread _ (hstart.append inner')

/-! ## Reading up to an escape -/

/-- The reader of the literal comes from the part `inner` to an escape after it, or it stops
before; what comes after the letter of the escape makes no difference. -/
def ReadUpTo (quote : Char) (triple : Bool) (letter : Char) (out : List Char) (n : Nat)
    (inner : List Char) : Prop :=
  (∃ out' n', ∀ later, stringBody quote triple false out n (inner ++ '\\' :: letter :: later) =
    stringBody quote triple false out' n' ('\\' :: letter :: later)) ∨
  ∀ later, ∃ stop, stringBody quote triple false out n (inner ++ '\\' :: letter :: later) =
    .error stop

theorem ReadUpTo.step {out' inner' : List Char} {n' : Nat}
    (h : ReadUpTo quote triple letter out' n' inner')
    (heq : ∀ later, stringBody quote triple false out n (inner ++ '\\' :: letter :: later) =
      stringBody quote triple false out' n' (inner' ++ '\\' :: letter :: later)) :
    ReadUpTo quote triple letter out n inner := by
  simpa only [ReadUpTo, heq] using h

theorem Within.readUpTo (hquote : isQuote quote = true)
    (h : Within quote triple ('\\' :: letter :: after) inner) (out : List Char) (n : Nat) :
    ReadUpTo quote triple letter out n inner := by
  have hstart (later : List Char) :
      SameStart 2 ('\\' :: letter :: after) ('\\' :: letter :: later) := rfl
  generalize htext : inner ++ '\\' :: letter :: after = text
  -- An escape takes several characters of `inner`, so the induction follows the reader's steps.
  induction out, n, text using stringBody_steps quote triple false generalizing inner with
  | ended => simp at htext
  | @closed out n cs rest hclose =>
      have hslash := Ne.symm (backslash_ne hquote)
      cases inner with
      | nil => exact absurd (List.cons.inj htext).1.symm hslash
      | cons c inner =>
          obtain ⟨rfl, rfl⟩ := List.cons.inj htext
          exact absurd ⟨rest, closing?_eq_some.mp hclose⟩ (h.cons hslash).1
  | @lineEnd out n cs ih =>
      cases inner with
      | nil => cases htext
      | cons c inner =>
          obtain ⟨rfl, rfl⟩ := List.cons.inj htext
          obtain ⟨-, hwithin⟩ := h.cons (by decide)
          cases triple with
          | true => exact (ih hwithin rfl).step fun later => stringBody_lineEnd hquote
          | false => exact .inr fun later => ⟨_, stringBody_lineEnd hquote⟩
  | backslash =>
      have hlength := congrArg List.length htext
      simp only [List.length_append, List.length_cons, List.length_nil] at hlength
      omega
  | kept hraw => cases hraw
  | @escaped out n d cs chars rest _ hescape ih =>
      cases h with
      | nil => exact .inl ⟨out, n, fun _ => rfl⟩
      | plain hslash => exact absurd (List.cons.inj htext).1 hslash
      | escaped h =>
          cases htext
          obtain ⟨inner', rfl, hwithin, hread⟩ := h.escape_eq hescape
          exact (ih hwithin rfl).step fun later => stringBody_escape hquote (hread later)
  | @badEscape out n d cs fault _ hescape =>
      cases h with
      | nil => exact .inl ⟨out, n, fun _ => rfl⟩
      | plain hslash => exact absurd (List.cons.inj htext).1 hslash
      | @escaped _ inner h =>
          cases htext
          -- If it were read before another text, it would be read before this one too.
          refine .inr fun later => ?_
          cases hagain : escape d (inner ++ '\\' :: letter :: later) with
          | error fault => exact ⟨_, stringBody_badEscape hquote hagain⟩
          | ok read =>
              obtain ⟨inner', -, -, hread⟩ := (h.of_sameStart (hstart later)).escape_eq hagain
              cases hescape.symm.trans (hread after)
  | @plain out n c cs hopen hline hslash ih =>
      cases inner with
      | nil => exact absurd (List.cons.inj htext).1.symm hslash
      | cons c inner =>
          obtain ⟨rfl, rfl⟩ := List.cons.inj htext
          refine (ih (h.cons hslash).2 rfl).step fun later => ?_
          refine stringBody_plain (fun hc => ?_) hline hslash
          exact closing?_none_of_sameStart ((hstart later).append inner) (hopen hc)

/-! ## Texts with a literal -/

/-- The reader of lines comes to a literal that is not raw and not over where `tail` begins. -/
def InLiteral (before tail : List Char) : Prop :=
  ∃ (line : Nat) (o : OpenLine) (done : List LogicalLine) (letters : List Char) (quote : Char)
    (triple : Bool) (inner : List Char),
    Place.Reaches (.start (before ++ tail))
      ⟨line, some o, done, letters ++ (delimiter quote triple ++ (inner ++ tail))⟩ ∧
    letters ∈ literalLetters ∧ isQuote quote = true ∧ Within quote triple tail inner

/-- The lines of a text once a literal in it is read or not. -/
def afterLiteral (line : Nat) (o : OpenLine) (done : List LogicalLine) :
    Except Stop (Reading String) → Except LexError (List LogicalLine)
  | .error stop => .error ⟨line + stop.lineEnds, stop.fault⟩
  | .ok s => linesFrom (line + s.lineEnds) (some (o.push ⟨.str s.value, line + s.lineEnds⟩)) done
      s.rest

theorem linesFrom_literal {letters : List Char} {line : Nat} {o : OpenLine}
    {done : List LogicalLine} (hletters : letters ∈ literalLetters) (hquote : isQuote quote = true)
    (hsingle : triple = true ∨ ¬ [quote, quote] <+: cs) :
    linesFrom line (some o) done (letters ++ (delimiter quote triple ++ cs)) =
      afterLiteral line o done (stringBody quote triple false [] 0 cs) := by
  have hread := stringLiteral_delimiter hsingle false
  obtain ⟨quotes, hquotes⟩ := delimiter_eq_cons quote triple
  rw [hquotes, List.cons_append] at hread ⊢
  obtain ⟨c, after, hafter, -, -, hstring⟩ := announced?_literal hquote hletters (quotes ++ cs)
  have hlexeme := lexeme_string hstring
  rw [stringLexeme, hread] at hlexeme
  rw [hafter]
  cases hbody : stringBody quote triple false [] 0 cs with
  | error stop =>
      rw [hbody] at hlexeme
      exact linesFrom_error hlexeme
  | ok s =>
      rw [hbody] at hlexeme
      exact linesFrom_token hlexeme

theorem Within.opens_one (hquote : isQuote quote = true)
    (h : Within quote triple ('\\' :: letter :: after) inner) :
    triple = true ∨ ¬ [quote, quote] <+: inner ++ '\\' :: letter :: after := by
  cases triple with
  | true => exact .inl rfl
  | false =>
      right
      rintro ⟨rest, hrest⟩
      cases h with
      | nil => exact backslash_ne hquote (List.cons.inj hrest).1.symm
      | plain _ hopen => exact hopen ⟨quote :: rest, hrest⟩
      | escaped => exact backslash_ne hquote (List.cons.inj hrest).1.symm

/-- The reader comes to an escape in a literal, or it stops before. -/
theorem InLiteral.read {before : List Char} (h : InLiteral before ('\\' :: letter :: after)) :
    (∃ line o done quote triple out n, isQuote quote = true ∧ ∀ later,
      logicalLines (String.ofList (before ++ '\\' :: letter :: later)) =
        afterLiteral line o done (stringBody quote triple false out n ('\\' :: letter :: later))) ∨
    ∀ later, ∃ e, logicalLines (String.ofList (before ++ '\\' :: letter :: later)) = .error e := by
  obtain ⟨line, o, done, letters, quote, triple, inner, hreaches, hletters, hquote, hwithin⟩ := h
  have hstart (later : List Char) :
      SameStart 2 ('\\' :: letter :: after) ('\\' :: letter :: later) := rfl
  have hread (later : List Char) :
      logicalLines (String.ofList (before ++ '\\' :: letter :: later)) =
        afterLiteral line o done
          (stringBody quote triple false [] 0 (inner ++ '\\' :: letter :: later)) := by
    obtain ⟨taken, hbefore, htakes⟩ := hreaches.takes
    simp only [Place.start, ← List.append_assoc] at hbefore
    obtain rfl := List.append_cancel_right hbefore
    obtain ⟨quotes, hquotes⟩ := delimiter_eq_cons quote triple
    have hrest := (((hstart later).append inner).append quotes).cons_succ quote
    simp only [← List.cons_append, ← hquotes] at hrest
    have hplace := (htakes _ (hrest.append letters)).outcome_eq
    have hhead := (hwithin.of_sameStart (hstart later)).opens_one hquote
    rw [← linesFrom_literal hletters hquote hhead, logicalLines, String.toList_ofList]
    simpa [Place.outcome, Place.withRest, Place.start] using hplace
  obtain ⟨out, n, hbody⟩ | hbody := hwithin.readUpTo hquote [] 0
  · exact .inl ⟨line, o, done, quote, triple, out, n, hquote, fun later => by rw [hread, hbody]⟩
  · refine .inr fun later => ?_
    obtain ⟨stop, hstop⟩ := hbody later
    rw [hread, hstop]
    exact ⟨_, rfl⟩

theorem InLiteral.logicalLines_error {before : List Char} {fault : LexFault}
    (h : InLiteral before ('\\' :: letter :: after))
    (hescape : escape letter after = .error fault) :
    ∃ e, logicalLines (String.ofList (before ++ '\\' :: letter :: after)) = .error e := by
  obtain ⟨line, o, done, quote, triple, out, n, hquote, hread⟩ | herror := h.read
  · rw [hread, stringBody_badEscape hquote hescape]
    exact ⟨_, rfl⟩
  · exact herror after

/-- An escape can be replaced by another one that is read alike. -/
theorem InLiteral.logicalLines_eq {before later : List Char} {read : List Char × List Char}
    (h : InLiteral before ('\\' :: letter :: after)) (hescape : escape letter after = .ok read)
    (hescape' : escape letter later = .ok read) :
    (logicalLines (String.ofList (before ++ '\\' :: letter :: after))).toOption =
      (logicalLines (String.ofList (before ++ '\\' :: letter :: later))).toOption := by
  obtain ⟨line, o, done, quote, triple, out, n, hquote, hread⟩ | herror := h.read
  · rw [hread, hread, stringBody_escape hquote hescape, stringBody_escape hquote hescape']
  · obtain ⟨e, he⟩ := herror after
    obtain ⟨e', he'⟩ := herror later
    rw [he, he']
    rfl

theorem isError_iff {ε α : Type} {x : Except ε α} : (∃ e, x = .error e) ↔ x.toOption = none := by
  cases x <;> simp [Except.toOption]

/-- A text with a malformed escape in a literal cannot be read.  The exception is a code with a
plus sign, where it is read if it could be read with a zero in place of the sign. -/
theorem logicalLines_malformedEscape_iff {source : String} {before : List Char}
    (hletter : (letter, count) ∈ hexLetters)
    (hsource : source.toList = before ++ '\\' :: letter :: after)
    (hliteral : InLiteral before ('\\' :: letter :: after)) (hcode : ¬ IsCode count after) :
    (∃ e, logicalLines source = .error e) ↔
      ¬ IsSignedCode count after ∨ ∃ e, logicalLines
        (String.ofList (before ++ '\\' :: letter :: '0' :: after.tail)) = .error e := by
  have hescape := escape_eq_hexEscape hletter
  have hsource : source = String.ofList (before ++ '\\' :: letter :: after) := by
    rw [← hsource, String.ofList_toList]
  by_cases hsigned : IsSignedCode count after
  · have hlines : (logicalLines source).toOption = (logicalLines
        (String.ofList (before ++ '\\' :: letter :: '0' :: after.tail))).toOption := by
      obtain ⟨unsigned, rfl, hunsigned⟩ := hsigned
      obtain ⟨read, hplus, hzero⟩ := hexEscape_signed (two_le_of_hexLetter hletter) hunsigned
      rw [← hescape] at hplus hzero
      rw [hsource]
      exact hliteral.logicalLines_eq hplus hzero
    simp only [isError_iff, hlines, hsigned, not_true_eq_false, false_or]
  · have herror : ∃ fault, escape letter after = .error fault := by
      cases hread : escape letter after with
      | error fault => exact ⟨fault, rfl⟩
      | ok read =>
          rw [hescape] at hread
          exact absurd (isCode_of_hexEscape hread) (not_or.mpr ⟨hcode, hsigned⟩)
    obtain ⟨fault, hfault⟩ := herror
    rw [hsource]
    exact iff_of_true (hliteral.logicalLines_error hfault) (.inl hsigned)

/-- The backslash before the one of the escape is escaped itself. -/
theorem logicalLines_malformedEscape_afterBackslash :
    ∃ e, logicalLines "f'\\\\\\xzz'" = .error e := by
  have hletter : ('x', 2) ∈ hexLetters := by decide
  have hsource : "f'\\\\\\xzz'".toList =
      ['f', '\'', '\\', '\\'] ++ '\\' :: 'x' :: ['z', 'z', '\''] := by decide
  have hbegin : Place.Step (.start (['f', '\'', '\\', '\\'] ++ '\\' :: 'x' :: ['z', 'z', '\'']))
      ⟨1, some (.begin 0 1), [],
        ['f'] ++ (delimiter '\'' false ++ (['\\', '\\'] ++ '\\' :: 'x' :: ['z', 'z', '\'']))⟩ :=
    .begins rfl rfl
  have hliteral : InLiteral ['f', '\'', '\\', '\\'] ('\\' :: 'x' :: ['z', 'z', '\'']) :=
    ⟨_, _, _, ['f'], '\'', false, ['\\', '\\'], .single hbegin, by decide, rfl, .escaped .nil⟩
  exact (logicalLines_malformedEscape_iff hletter hsource hliteral (by decide)).mpr
    (.inl (by decide))

/-- A sign is no digit, but it is read as one. -/
theorem signedEscape_read :
    InLiteral ['\''] ['\\', 'x', '+', 'f', '\''] ∧ ¬ IsCode 2 ['+', 'f', '\''] ∧
      logicalLines "'\\x+f'" = .ok [⟨0, 1, [⟨.str "\x0f", 1⟩]⟩] := by
  have hbegin : Place.Step (.start (['\''] ++ ['\\', 'x', '+', 'f', '\'']))
      ⟨1, some (.begin 0 1), [],
        [] ++ (delimiter '\'' false ++ ([] ++ ['\\', 'x', '+', 'f', '\'']))⟩ :=
    .begins rfl rfl
  refine ⟨⟨_, _, _, [], '\'', false, [], .single hbegin, by decide, rfl, .nil⟩, by decide, ?_⟩
  have hescape : escape 'x' ['+', 'f', '\''] = .ok (['\x0f'], ['\'']) := by decide
  have hbody : stringBody '\'' false false [] 0 ['\\', 'x', '+', 'f', '\''] =
      .ok ⟨"\x0f", [], 0⟩ := by
    rw [stringBody_escape rfl hescape, stringBody_close rfl]
    rfl
  have hletters : [] ∈ literalLetters := by decide
  have hread : linesFrom 1 (some (.begin 0 1)) []
      ([] ++ (delimiter '\'' false ++ ['\\', 'x', '+', 'f', '\''])) =
        .ok [⟨0, 1, [⟨.str "\x0f", 1⟩]⟩] := by
    rw [linesFrom_literal hletters rfl (.inr (by decide)), hbody]
    exact linesFrom_end.trans rfl
  have hsource : "'\\x+f'".toList = ['\'', '\\', 'x', '+', 'f', '\''] := by decide
  rw [logicalLines, hsource]
  exact hbegin.outcome_eq.trans hread

end IconConstraints.Source
