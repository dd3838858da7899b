import IconConstraints.Proofs.LineCounts
import IconConstraints.Proofs.StringSpellings

/-!
# Where a lexeme ends

A lexeme ends where the characters after it say so, and at most three of them are asked.
Each reader is therefore told by the part that it takes: put that part before another text
that begins alike, and it is taken again, with the same value.
-/

namespace IconConstraints.Source

variable {α β : Type} {k m n : Nat} {c d quote : Char} {raw triple : Bool}
  {cs cs' rest later w : List Char} {p : Char → Bool}

/-! ## Texts that begin alike -/

/-- The texts agree in their first `k` characters. -/
def SameStart (k : Nat) (cs cs' : List Char) : Prop :=
  cs.take k = cs'.take k

namespace SameStart

theorem mono (h : SameStart k cs cs') (hm : m ≤ k) : SameStart m cs cs' := by
  have htake := congrArg (List.take m) h
  rwa [List.take_take, List.take_take, Nat.min_eq_left hm] at htake

theorem append (h : SameStart k cs cs') (w : List Char) : SameStart k (w ++ cs) (w ++ cs') := by
  have hrest : SameStart (k - w.length) cs cs' := h.mono (Nat.sub_le k w.length)
  unfold SameStart at hrest ⊢
  rw [List.take_append, List.take_append, hrest]

theorem cons (h : SameStart k cs cs') (c : Char) : SameStart k (c :: cs) (c :: cs') :=
  h.append [c]

theorem cons_succ (h : SameStart k cs cs') (c : Char) : SameStart (k + 1) (c :: cs) (c :: cs') :=
  congrArg (List.cons c) h

theorem head? (h : SameStart (k + 1) cs cs') : cs.head? = cs'.head? := by
  have hhead := congrArg List.head? h
  rwa [List.head?_take, List.head?_take, if_neg (by omega), if_neg (by omega)] at hhead

theorem symm (h : SameStart k cs cs') : SameStart k cs' cs :=
  Eq.symm h

theorem eq_cons (h : SameStart (k + 1) (c :: cs) cs') : ∃ rest, cs' = c :: rest := by
  have hhead := h.head?
  cases cs' with
  | nil => cases hhead
  | cons d rest =>
      cases hhead
      exact ⟨rest, rfl⟩

theorem prefix_iff (h : SameStart k cs cs') (hw : w.length ≤ k) : w <+: cs ↔ w <+: cs' := by
  rw [List.prefix_iff_eq_take, List.prefix_iff_eq_take]
  rw [show cs.take w.length = cs'.take w.length from h.mono hw]

/-- Texts that begin alike are the same, or both go on after the part that they share. -/
theorem eq_or_three (h : SameStart 3 cs cs') :
    cs' = cs ∨ ∃ x y z t t', cs = x :: y :: z :: t ∧ cs' = x :: y :: z :: t' := by
  unfold SameStart at h
  by_cases hshort : cs.length < 3
  · rw [List.take_of_length_le (by omega)] at h
    have hlength := congrArg List.length h
    rw [List.length_take] at hlength
    rw [List.take_of_length_le (by omega)] at h
    exact .inl h.symm
  · have hsplit := List.take_append_drop 3 cs
    have hsplit' := List.take_append_drop 3 cs'
    obtain ⟨x, y, z, hthree⟩ := List.length_eq_three.mp (show (cs.take 3).length = 3 by simp; omega)
    rw [hthree] at h hsplit
    rw [← h] at hsplit'
    exact .inr ⟨x, y, z, _, _, hsplit.symm, hsplit'.symm⟩

end SameStart

/-! ## Readers -/

/-- From `cs` the reader takes the part before `rest`, and it takes that part again, with the
result for what is left, from every text that goes on in the same way. -/
def TakesAlike (k : Nat) (read : List Char → β) (cs rest : List Char) (result : List Char → β) :
    Prop :=
  ∃ taken, cs = taken ++ rest ∧ ∀ later, SameStart k rest later →
    read (taken ++ later) = result later

namespace TakesAlike

variable {read : List Char → α} {result : List Char → α}

theorem none (h : ∀ later, SameStart k cs later → read later = result later) :
    TakesAlike k read cs cs result :=
  ⟨[], rfl, h⟩

theorem mono (h : TakesAlike m read cs rest result) (hm : m ≤ k) :
    TakesAlike k read cs rest result := by
  obtain ⟨taken, heq, hread⟩ := h
  exact ⟨taken, heq, fun later hlater => hread later (hlater.mono hm)⟩

theorem map (f : α → β) (h : TakesAlike k read cs rest result) :
    TakesAlike k (f ∘ read) cs rest (f ∘ result) := by
  obtain ⟨taken, heq, hread⟩ := h
  exact ⟨taken, heq, fun later hlater => congrArg f (hread later hlater)⟩

theorem of_eq {read' : List Char → α} (h : TakesAlike k read' cs rest result)
    (heq : ∀ cs', SameStart k cs cs' → read cs' = read' cs') :
    TakesAlike k read cs rest result := by
  obtain ⟨taken, rfl, hread⟩ := h
  exact ⟨taken, rfl, fun later hlater => (heq _ (hlater.append taken)).trans (hread later hlater)⟩

theorem andThen {mid : List Char} {read' : List Char → α} {first : List Char → β}
    {left : List Char → β} (h : TakesAlike k first cs mid left)
    (h' : TakesAlike k read' mid rest result)
    (heq : ∀ {cs' mid'}, first cs' = left mid' → read cs' = read' mid') :
    TakesAlike k read cs rest result := by
  obtain ⟨taken, rfl, hfirst⟩ := h
  obtain ⟨taken', rfl, hread⟩ := h'
  refine ⟨taken ++ taken', by rw [List.append_assoc], fun later hlater => ?_⟩
  rw [List.append_assoc, heq (hfirst _ (hlater.append taken')), hread later hlater]

theorem cons (h : TakesAlike k (fun cs => read (c :: cs)) cs rest result) :
    TakesAlike k read (c :: cs) rest result := by
  obtain ⟨taken, rfl, hread⟩ := h
  exact ⟨c :: taken, rfl, hread⟩

theorem tail (h : TakesAlike k read (c :: cs) rest result) (hlength : rest.length ≤ cs.length) :
    TakesAlike k (fun cs => read (c :: cs)) cs rest result := by
  obtain ⟨taken, heq, hread⟩ := h
  cases taken with
  | nil =>
      rw [List.nil_append] at heq
      subst heq
      exact absurd hlength (Nat.not_succ_le_self _)
  | cons d taken =>
      obtain ⟨rfl, rfl⟩ := List.cons.inj heq
      exact ⟨taken, rfl, hread⟩

end TakesAlike

theorem span_alike (p : Char → Bool) (cs : List Char) :
    TakesAlike 1 (fun cs => (cs.takeWhile p, cs.dropWhile p)) cs (cs.dropWhile p)
      fun later => (cs.takeWhile p, later) := by
  refine ⟨cs.takeWhile p, List.takeWhile_append_dropWhile.symm, fun later hlater => ?_⟩
  have hall : ∀ c ∈ cs.takeWhile p, p c = true := List.all_eq_true.mp List.all_takeWhile
  have hstop : later.takeWhile p = [] ∧ later.dropWhile p = later := by
    have hhead := List.head?_dropWhile_not p cs
    rw [hlater.head?] at hhead
    cases later with
    | nil => exact ⟨rfl, rfl⟩
    | cons c later =>
        have hc : p c = false := by simpa using hhead
        simp [hc]
  dsimp only
  rw [List.takeWhile_append_of_pos hall, List.dropWhile_append_of_pos hall, hstop.1, hstop.2,
    List.append_nil]

/-! ## Numbers -/

theorem digitRun_alike (p : Char → Bool) (cs : List Char) :
    TakesAlike 1 (digitRun p) cs (digitRun p cs).2 fun later => ((digitRun p cs).1, later) := by
  have hspan := (span_alike (fun c => c == '_' || p c) cs).map
    fun found : List Char × List Char => (found.1.filter (· != '_'), found.2)
  exact hspan

theorem fractionPart_alike (cs : List Char) :
    TakesAlike 1 fractionPart cs (fractionPart cs).2 fun later => ((fractionPart cs).1, later) := by
  by_cases hpoint : ∃ rest, cs = '.' :: rest
  · obtain ⟨rest, rfl⟩ := hpoint
    have hdigits := (digitRun_alike Char.isDigit rest).map
      fun found : List Char × List Char => (some found.1, found.2)
    exact .cons hdigits
  · have hnone {cs : List Char} (h : ¬ ∃ rest, cs = '.' :: rest) :
        fractionPart cs = (none, cs) := by
      unfold fractionPart
      split
      case h_1 rest => exact absurd ⟨rest, rfl⟩ h
      case h_2 => rfl
    rw [hnone hpoint]
    refine .none fun later hlater => hnone ?_
    rintro ⟨rest, rfl⟩
    exact hpoint hlater.symm.eq_cons

/-- Whether the characters begin an exponent. -/
def beginsExponent (cs : List Char) : Bool :=
  (exponentPart cs).1.isSome

theorem exponentPart_of_not (h : beginsExponent cs = false) : exponentPart cs = (none, cs) := by
  unfold beginsExponent exponentPart at h
  unfold exponentPart
  split
  · simp only at h
    split_ifs at h ⊢ <;> simp_all
  · rfl

theorem beginsExponent_eq (h : SameStart 3 cs cs') : beginsExponent cs' = beginsExponent cs := by
  obtain rfl | ⟨mark, sign, c, t, t', rfl, rfl⟩ := h.eq_or_three
  · rfl
  · simp only [beginsExponent, exponentPart, List.head?_cons, Option.map_some, Option.getD_some]
    split_ifs <;> simp_all

section Exponent

variable {mark sign : Char}

/-- The exponent with the digits that were found, and the text after them. -/
def exponentOf (sign : Char) (found : List Char × List Char) : Option Int × List Char :=
  (some (if sign == '-' then -(numeral 10 found.1 : Int) else numeral 10 found.1), found.2)

theorem exponentPart_signed (hmark : (mark == 'e' || mark == 'E') = true)
    (hsign : (sign == '+' || sign == '-') = true)
    (hdigit : (rest.head?.map Char.isDigit).getD false = true) :
    exponentPart (mark :: sign :: rest) = exponentOf sign (digitRun Char.isDigit rest) := by
  simp [exponentPart, exponentOf, hmark, hsign, hdigit]

theorem exponentPart_unsigned (hmark : (mark == 'e' || mark == 'E') = true)
    (hsign : ¬ (sign == '+' || sign == '-') = true) (hdigit : sign.isDigit = true) :
    exponentPart (mark :: sign :: rest) =
      exponentOf '+' (digitRun Char.isDigit (sign :: rest)) := by
  simp [exponentPart, exponentOf, hmark, hsign, hdigit]

theorem beginsExponent_cons_cons :
    beginsExponent (mark :: sign :: rest) =
      ((mark == 'e' || mark == 'E') &&
        if sign == '+' || sign == '-' then (rest.head?.map Char.isDigit).getD false
        else sign.isDigit) := by
  unfold beginsExponent exponentPart
  grind

end Exponent

theorem exponentPart_alike (cs : List Char) :
    TakesAlike 3 exponentPart cs (exponentPart cs).2 fun later => ((exponentPart cs).1, later) := by
  cases hbegins : beginsExponent cs with
  | false =>
      rw [exponentPart_of_not hbegins]
      refine .none fun later hlater => exponentPart_of_not ?_
      rw [beginsExponent_eq hlater, hbegins]
  | true =>
      match cs with
      | [] | [_] => cases hbegins
      | mark :: sign :: rest =>
          rw [beginsExponent_cons_cons, Bool.and_eq_true] at hbegins
          obtain ⟨hmark, hdigit⟩ := hbegins
          by_cases hsign : (sign == '+' || sign == '-') = true
          · rw [if_pos hsign] at hdigit
            have hdigits := (digitRun_alike Char.isDigit rest).map (exponentOf sign)
            rw [exponentPart_signed hmark hsign hdigit]
            refine .cons (.cons ((hdigits.of_eq fun rest' hrest' => ?_).mono (by decide)))
            exact exponentPart_signed hmark hsign (hrest'.head? ▸ hdigit)
          · rw [if_neg hsign] at hdigit
            have hshorter : (digitRun Char.isDigit (sign :: rest)).2.length ≤ rest.length :=
              Nat.le_of_lt_succ (digitRun_rest_length_lt hdigit)
            have hdigits :=
              ((digitRun_alike Char.isDigit (sign :: rest)).tail hshorter).map (exponentOf '+')
            rw [exponentPart_unsigned hmark hsign hdigit]
            refine .cons (.cons ((hdigits.of_eq fun rest' _ => ?_).mono (by decide)))
            exact exponentPart_unsigned hmark hsign hdigit

theorem decimalLiteral_alike {kind : TokenKind} (h : decimalLiteral cs = .ok (kind, rest)) :
    TakesAlike 3 decimalLiteral cs rest fun later => .ok (kind, later) := by
  obtain rfl := decimalLiteral_rest h
  have hwhole := digitRun_alike Char.isDigit cs
  have hfraction := fractionPart_alike (digitRun Char.isDigit cs).2
  have hexponent := exponentPart_alike (fractionPart (digitRun Char.isDigit cs).2).2
  obtain ⟨whole, hcs, hwhole⟩ := hwhole.mono (k := 3) (by decide)
  obtain ⟨fraction, hafter, hfraction⟩ := hfraction.mono (k := 3) (by decide)
  obtain ⟨exponent, hafter', hexponent⟩ := hexponent
  refine ⟨whole ++ (fraction ++ exponent), ?_, fun later hlater => ?_⟩
  · conv => lhs; rw [hcs, hafter, hafter']
    simp
  · have hlater' := hlater.append exponent
    rw [← hafter'] at hlater'
    have hlater'' := hlater'.append fraction
    rw [← hafter] at hlater''
    have hmark := hlater.head?.symm
    simp only [decimalLiteral, List.append_assoc, hwhole _ hlater'', hfraction _ hlater',
      hexponent _ hlater, hmark] at h ⊢
    split_ifs at h ⊢ with himaginary hinteger
    · cases hvalue : integerLiteral 10 (digitRun Char.isDigit cs).1 <;>
        rw [hvalue] at h <;> cases h
      rfl
    · cases h
      rfl

theorem radix?_none_of_sameStart (h : SameStart 3 cs cs') (hnone : radix? cs = none) :
    radix? cs' = none := by
  obtain rfl | ⟨x, y, z, t, t', rfl, rfl⟩ := h.eq_or_three
  · exact hnone
  · by_cases hzero : x = '0'
    · subst hzero
      simp only [radix?] at hnone ⊢
      split_ifs at hnone ⊢
      rfl
    · simp [radix?, hzero]

theorem radix?_eq_some {base : Nat} (h : radix? cs = some (base, rest)) :
    ∃ mark, cs = '0' :: mark :: rest ∧
      ∀ later, radix? ('0' :: mark :: later) = some (base, later) := by
  unfold radix? at h
  split at h
  case h_2 => cases h
  case h_1 mark after =>
    refine ⟨mark, by grind, fun later => ?_⟩
    simp only [radix?]
    grind

theorem numberLiteral_alike {kind : TokenKind} (h : numberLiteral cs = .ok (kind, rest)) :
    TakesAlike 3 numberLiteral cs rest fun later => .ok (kind, later) := by
  cases hradix : radix? cs with
  | none =>
      have hdecimal {cs' : List Char} (h : SameStart 3 cs cs') :
          numberLiteral cs' = decimalLiteral cs' := by
        rw [numberLiteral, radix?_none_of_sameStart h hradix]
      rw [hdecimal rfl] at h
      exact (decimalLiteral_alike h).of_eq fun cs' hcs' => hdecimal hcs'
  | some found =>
      obtain ⟨base, after⟩ := found
      obtain ⟨mark, rfl, hmark⟩ := radix?_eq_some hradix
      have hread (later : List Char) : numberLiteral ('0' :: mark :: later) =
          (integerLiteral base (digitRun (isDigitOf base) later).1).map
            (·, (digitRun (isDigitOf base) later).2) := by
        rw [numberLiteral, hmark]
      have hdigits := (digitRun_alike (isDigitOf base) after).map
        fun found : List Char × List Char => (integerLiteral base found.1).map (·, found.2)
      rw [hread] at h
      cases hvalue : integerLiteral base (digitRun (isDigitOf base) after).1 with
      | error fault =>
          rw [hvalue] at h
          cases h
      | ok value =>
          rw [hvalue] at h
          cases h
          simp only [Function.comp_def, hvalue] at hdigits
          exact .cons (.cons ((hdigits.of_eq fun later _ => hread later).mono (by decide)))

theorem numberLexeme_alike {r : Reading Lexeme} (h : numberLexeme cs = .ok r) :
    TakesAlike 3 numberLexeme cs r.rest fun later => .ok { r with rest := later } := by
  unfold numberLexeme at h
  split at h
  case h_2 => cases h
  case h_1 kind rest hread =>
    cases h
    obtain ⟨taken, hcs, hagain⟩ := numberLiteral_alike hread
    refine ⟨taken, hcs, fun later hlater => ?_⟩
    rw [numberLexeme, hagain later hlater]

/-! ## Names and operators -/

theorem nameLexeme_alike (cs : List Char) :
    TakesAlike 3 nameLexeme cs (nameLexeme cs).rest
      fun later => { nameLexeme cs with rest := later } := by
  have hname := (span_alike continuesName cs).map fun found : List Char × List Char =>
    (⟨.token (.name (String.ofList found.1)), found.2, 0⟩ : Reading Lexeme)
  exact TakesAlike.mono hname (by decide)

theorem skipComment_alike (cs : List Char) :
    TakesAlike 3 skipComment cs (skipComment cs) id :=
  ((span_alike (· != '\n') cs).map Prod.snd).mono (by decide)

theorem Operator.length_chars (o : Operator) : o.chars.length ≤ 3 := by
  cases o <;> decide

theorem Operator.leading?_eq_of_sameStart (h : SameStart 3 cs cs') :
    Operator.leading? cs' = Operator.leading? cs := by
  unfold Operator.leading?
  congr 1
  funext o
  rw [Bool.eq_iff_iff, List.isPrefixOf_iff_prefix, List.isPrefixOf_iff_prefix,
    h.prefix_iff o.length_chars]

theorem operatorLexeme_alike {r : Reading Lexeme} (h : operatorLexeme c cs = .ok r) :
    TakesAlike 3 (operatorLexeme c) cs r.rest fun later => .ok { r with rest := later } := by
  unfold operatorLexeme at h
  split at h
  case h_2 => cases h
  case h_1 o hleading =>
    cases h
    obtain ⟨w, hchars, hcs⟩ := Operator.leading?_eq_some hleading
    refine ⟨w, hcs, fun later hlater => ?_⟩
    have hstart := (hlater.append w).cons c
    rw [← hcs] at hstart
    rw [operatorLexeme, Operator.leading?_eq_of_sameStart hstart, hleading]
    simp [hchars]

/-! ## Strings -/

theorem span_take_alike (p : Char → Bool) (n : Nat) (cs : List Char) :
    TakesAlike 1
      (fun cs => ((cs.take n).takeWhile p, cs.drop ((cs.take n).takeWhile p).length)) cs
      (cs.drop ((cs.take n).takeWhile p).length) fun later => ((cs.take n).takeWhile p, later) := by
  induction n generalizing cs with
  | zero => exact .none fun later _ => by simp
  | succ n ih =>
      by_cases hc : ∃ c rest, cs = c :: rest ∧ p c = true
      · obtain ⟨c, rest, rfl, hc⟩ := hc
        have hmore := (ih rest).map fun found : List Char × List Char => (c :: found.1, found.2)
        simp only [List.take_succ_cons, List.takeWhile_cons, hc, if_true, List.length_cons,
          List.drop_succ_cons]
        refine .cons (hmore.of_eq fun cs' _ => ?_)
        simp [hc]
      · have hstop {cs : List Char} (hc : ¬ ∃ c rest, cs = c :: rest ∧ p c = true) :
            (cs.take (n + 1)).takeWhile p = [] := by
          cases cs with
          | nil => rfl
          | cons c rest =>
              have hc : p c = false := by simpa using hc
              simp [hc]
        rw [hstop hc]
        refine .none fun later hlater => ?_
        have hlater : (later.take (n + 1)).takeWhile p = [] := by
          refine hstop ?_
          rintro ⟨c, rest, rfl, hp⟩
          obtain ⟨after, rfl⟩ := hlater.symm.eq_cons
          exact hc ⟨c, after, rfl, hp⟩
        rw [hlater]
        rfl

theorem escape_alike {chars : List Char} (h : escape c cs = .ok (chars, rest)) :
    TakesAlike 1 (escape c) cs rest fun later => .ok (chars, later) := by
  have hhex {count : Nat} (h : hexEscape count cs = .ok (chars, rest)) :
      TakesAlike 1 (hexEscape count) cs rest fun later => .ok (chars, later) := by
    obtain ⟨w, code, rfl, hlength, hcode, hvalid, rfl⟩ := hexEscape_eq_ok.mp h
    exact ⟨w, rfl, fun later _ => hexEscape_eq_ok.mpr ⟨w, code, rfl, hlength, hcode, hvalid, rfl⟩⟩
  cases hoctal : isOctalDigit c with
  | true =>
      rw [escape_of_isOctalDigit hoctal] at h
      cases h
      have hmore := (span_take_alike isOctalDigit 2 cs).map fun found : List Char × List Char =>
        (.ok ([Char.ofNat (octalValue (c :: found.1))], found.2) : Except LexFault _)
      exact hmore.of_eq fun cs' _ => escape_of_isOctalDigit hoctal cs'
  | false =>
      unfold escape at h
      split at h
      case h_12 | h_13 | h_14 => exact hhex h
      case h_15 => 
        rw [hoctal, if_neg Bool.false_ne_true] at h
        cases h
        refine .none fun later _ => ?_
        unfold escape
        split <;> simp_all
      all_goals
        cases h
        exact .none fun _ _ => rfl

theorem closing?_alike (h : closing? quote triple cs = some rest) :
    TakesAlike 3 (closing? quote triple) cs rest some := by
  obtain ⟨quotes, hquotes⟩ := delimiter_eq_cons quote triple
  have heq := closing?_eq_some.mp h
  rw [hquotes] at heq
  refine ⟨quotes, (List.cons.inj heq).2.symm, fun later _ => closing?_eq_some.mpr ?_⟩
  rw [hquotes, List.cons_append]

theorem closing?_none_of_sameStart (h : SameStart 2 cs cs')
    (hnone : closing? quote triple cs = none) : closing? quote triple cs' = none := by
  rw [closing?_eq_none] at hnone ⊢
  rwa [← (h.cons_succ quote).prefix_iff (length_delimiter quote triple)]

theorem stringBody_alike {out : List Char} {r : Reading String} (hquote : isQuote quote = true)
    (h : stringBody quote triple raw out n cs = .ok r) :
    TakesAlike 3 (stringBody quote triple raw out n) cs r.rest
      fun later => .ok { r with rest := later } := by
  induction out, n, cs using stringBody_steps quote triple raw with
  | ended => cases stringBody_nil.symm.trans h
  | @closed out n cs rest hclose =>
      rw [stringBody_close hclose] at h
      cases h
      exact .cons ((closing?_alike hclose).andThen (.none fun _ _ => rfl) fun hclose =>
        stringBody_close hclose)
  | @lineEnd out n cs ih =>
      cases triple with
      | false => cases (stringBody_lineEnd hquote).symm.trans h
      | true =>
          have hline (cs : List Char) : stringBody quote true raw out n ('\n' :: cs) =
              stringBody quote true raw ('\n' :: out) (n + 1) cs :=
            stringBody_lineEnd hquote
          rw [hline] at h
          exact .cons ((ih h).of_eq fun cs' _ => hline cs')
  | backslash => cases (stringBody_backslash hquote).symm.trans h
  | @kept out n d cs hraw ih =>
      subst hraw
      rw [stringBody_raw hquote] at h
      exact .cons (.cons ((ih h).of_eq fun _ _ => stringBody_raw hquote))
  | @escaped out n d cs chars rest hraw hescape ih =>
      subst hraw
      rw [stringBody_escape hquote hescape] at h
      have hstep := (escape_alike hescape).mono (k := 3) (by decide)
      exact .cons (.cons (hstep.andThen (ih h) fun hescape => stringBody_escape hquote hescape))
  | badEscape hraw hescape =>
      subst hraw
      cases (stringBody_badEscape hquote hescape).symm.trans h
  | @plain out n c cs hopen hline hslash ih =>
      rw [stringBody_plain hopen hline hslash] at h
      refine .cons ((ih h).of_eq fun cs' hcs' => stringBody_plain (fun hc => ?_) hline hslash)
      exact closing?_none_of_sameStart (hcs'.mono (Nat.le_succ 2)) (hopen hc)

theorem stringLexeme_alike {r : Reading Lexeme} (hquote : isQuote quote = true)
    (h : stringLexeme raw (quote :: cs) = .ok r) :
    TakesAlike 3 (stringLexeme raw) (quote :: cs) r.rest
      fun later => .ok { r with rest := later } := by
  let token : Except Stop (Reading String) → Except Stop (Reading Lexeme) :=
    Except.map (Reading.map fun s => .token (.str s))
  have hbody {triple : Bool} {text : List Char}
      (h : token (stringBody quote triple raw [] 0 text) = .ok r) :
      TakesAlike 3 (token ∘ stringBody quote triple raw [] 0) text r.rest
        fun later => .ok { r with rest := later } := by
    cases hread : stringBody quote triple raw [] 0 text with
    | error stop =>
        rw [hread] at h
        cases h
    | ok s =>
        rw [hread] at h
        cases h
        exact (stringBody_alike hquote hread).map token
  have hthree {cs rest : List Char} (hopen : closing? quote true cs = some rest) :
      stringLexeme raw (quote :: cs) = token (stringBody quote true raw [] 0 rest) := by
    rw [stringLexeme, stringLiteral_cons, hopen]
  have hone {cs : List Char} (hopen : closing? quote true cs = none) :
      stringLexeme raw (quote :: cs) = token (stringBody quote false raw [] 0 cs) := by
    rw [stringLexeme, stringLiteral_cons, hopen]
  cases hopen : closing? quote true cs with
  | some text =>
      rw [hthree hopen] at h
      exact .cons ((closing?_alike hopen).andThen (hbody h) hthree)
  | none =>
      rw [hone hopen] at h
      refine .cons ((hbody h).of_eq fun cs' hcs' => hone ?_)
      exact closing?_none_of_sameStart (hcs'.mono (Nat.le_succ 2)) hopen

theorem announced?_alike (h : announced? cs = some (raw, rest)) :
    TakesAlike 1 announced? cs rest fun later => some (raw, later) := by
  unfold announced? at h
  split at h
  case h_1 => cases h
  case h_2 a cs =>
    split at h
    case isTrue hquote =>
      cases h
      refine .none fun later hlater => ?_
      obtain ⟨t, rfl⟩ := hlater.eq_cons
      rw [announced?, if_pos hquote]
    case isFalse hquote =>
      cases cs with
      | nil => cases h
      | cons b after =>
          rw [stringLetters?_cons_cons] at h
          split at h
          case isFalse => cases h
          case isTrue ha =>
            split at h
            case isTrue hb =>
              cases h
              refine .cons (.none fun later hlater => ?_)
              obtain ⟨t, rfl⟩ := hlater.eq_cons
              rw [announced?, if_neg hquote, stringLetters?_cons_cons, if_pos ha, if_pos hb]
            case isFalse hb =>
              split at h
              case isFalse => cases h
              case isTrue hpair =>
                cases h
                refine .cons (.cons (.none fun later hlater => ?_))
                rw [hlater.head?] at hpair
                rw [announced?, if_neg hquote, stringLetters?_cons_cons, if_pos ha, if_neg hb,
                  if_pos hpair]

theorem announced?_none_of_sameStart (h : SameStart 3 cs cs') (hnone : announced? cs = none) :
    announced? cs' = none := by
  obtain rfl | ⟨x, y, z, t, t', rfl, rfl⟩ := h.eq_or_three
  · exact hnone
  · simp only [announced?, stringLetters?_cons_cons, List.head?_cons] at hnone ⊢
    grind

/-! ## Lexemes -/

theorem joinedLine?_alike (h : joinedLine? cs = some rest) :
    TakesAlike 3 joinedLine? cs rest some := by
  unfold joinedLine? at h
  split at h
  · cases h
    exact .cons (.cons (.none fun _ _ => rfl))
  · cases h
    exact .cons (.cons (.cons (.none fun _ _ => rfl)))
  · cases h

theorem joinedLine?_eq_none :
    joinedLine? cs = none ↔ ¬ ['\\', '\n'] <+: cs ∧ ¬ ['\\', '\r', '\n'] <+: cs := by
  unfold joinedLine?
  split
  · simp
  · simp
  case h_3 hfeed hreturn =>
    refine iff_of_true rfl ⟨?_, ?_⟩
    · rintro ⟨rest, rfl⟩
      exact hfeed rest rfl
    · rintro ⟨rest, rfl⟩
      exact hreturn rest rfl

theorem joinedLine?_none_of_sameStart (h : SameStart 3 cs cs') (hnone : joinedLine? cs = none) :
    joinedLine? cs' = none := by
  rw [joinedLine?_eq_none] at hnone ⊢
  rwa [← h.prefix_iff (by simp), ← h.prefix_iff (by simp)]

theorem plainLexeme_alike {r : Reading Lexeme} (hshorter : r.rest.length ≤ cs.length)
    (h : plainLexeme c cs = .ok r) :
    TakesAlike 3 (plainLexeme c) cs r.rest fun later => .ok { r with rest := later } := by
  have hnumber {cs' : List Char} (hcs' : SameStart 3 cs cs') :
      beginsNumber c cs' = beginsNumber c cs := by
    rw [beginsNumber, beginsNumber, hcs'.head?]
  unfold plainLexeme at h
  split_ifs at h with hspace hdigit hname
  · cases h
    exact .none fun later _ => by rw [plainLexeme, if_pos hspace]
  · refine ((numberLexeme_alike h).tail hshorter).of_eq fun cs' hcs' => ?_
    rw [plainLexeme, if_neg hspace, hnumber hcs', if_pos hdigit]
  · cases h
    have hread := ((nameLexeme_alike (c :: cs)).tail hshorter).map
      fun r => (.ok r : Except Stop (Reading Lexeme))
    refine hread.of_eq fun cs' hcs' => ?_
    rw [plainLexeme, if_neg hspace, hnumber hcs', if_neg hdigit, if_pos hname]
    rfl
  · refine (operatorLexeme_alike h).of_eq fun cs' hcs' => ?_
    rw [plainLexeme, if_neg hspace, hnumber hcs', if_neg hdigit, if_neg hname]

theorem lexeme_string_alike {text : List Char} {r : Reading Lexeme}
    (hshorter : r.rest.length ≤ cs.length) (hstring : announced? (c :: cs) = some (raw, text))
    (h : stringLexeme raw text = .ok r) :
    TakesAlike 3 (lexeme c) cs r.rest fun later => .ok { r with rest := later } := by
  obtain ⟨-, quote, after, rfl, hquote⟩ := announced?_split hstring
  let literal (cs : List Char) : Except Stop (Reading Lexeme) :=
    (announced? cs).elim (lexeme c cs.tail) fun found => stringLexeme found.1 found.2
  have hannounced := (announced?_alike hstring).mono (k := 3) (by decide)
  have hliteral : TakesAlike 3 literal (c :: cs) r.rest fun later => .ok { r with rest := later } :=
    hannounced.andThen (stringLexeme_alike hquote h) fun hstring => by
      simp only [literal, hstring, Option.elim_some]
  refine (hliteral.tail hshorter).of_eq fun cs' _ => ?_
  cases hstring' : announced? (c :: cs') with
  | none => simp only [literal, hstring', Option.elim_none, List.tail_cons]
  | some found =>
      rw [lexeme_string hstring']
      simp only [literal, hstring', Option.elim_some]

/-- A lexeme is taken alike wherever the next three characters are the same. -/
theorem lexeme_alike {r : Reading Lexeme} (h : lexeme c cs = .ok r) :
    TakesAlike 3 (lexeme c) cs r.rest fun later => .ok { r with rest := later } := by
  have hshorter := lexeme_rest_length h
  cases lexeme_case h with
  | comment hcomment =>
      subst hcomment
      have hskip := (skipComment_alike cs).map
        fun rest => (.ok ⟨.gap, rest, 0⟩ : Except Stop (Reading Lexeme))
      exact hskip.of_eq fun cs' _ => lexeme_comment cs'
  | joined hjoin =>
      exact ((joinedLine?_alike hjoin).tail hshorter).andThen (.none fun _ _ => rfl) lexeme_joined
  | lineEnd hline =>
      subst hline
      exact .none fun later _ => lexeme_lineEnd later
  | string hstring _ hread => exact lexeme_string_alike hshorter hstring hread
  | plain hcomment hline hjoin hstring hread =>
      refine (plainLexeme_alike hshorter hread).of_eq fun cs' hcs' => ?_
      have hjoin' := joinedLine?_none_of_sameStart (hcs'.cons c) hjoin
      have hstring' := announced?_none_of_sameStart (hcs'.cons c) hstring
      exact lexeme_plain hcomment hline hjoin' hstring'

end IconConstraints.Source
