import IconConstraints.Proofs.Lexemes

/-!
# Line ends in what was read

Every reader takes a part from the head of the text and counts the line ends in it, so
the line of a token or of an error is one more than the number of line ends before it.
-/

namespace IconConstraints.Source

variable {c : Char} {cs rest later : List Char} {m n : Nat} {p : Char → Bool}

/-- `rest` is what is left of `cs` after a part with `n` line ends. -/
def Leaves (n : Nat) (cs rest : List Char) : Prop :=
  ∃ taken, cs = taken ++ rest ∧ taken.count '\n' = n

namespace Leaves

theorem refl (cs : List Char) : Leaves 0 cs cs :=
  ⟨[], rfl, rfl⟩

theorem cons (hc : c ≠ '\n') (h : Leaves n cs rest) : Leaves n (c :: cs) rest := by
  obtain ⟨taken, rfl, hcount⟩ := h
  exact ⟨c :: taken, rfl, by rw [List.count_cons_of_ne hc, hcount]⟩

theorem lineEnd (h : Leaves n cs rest) : Leaves (n + 1) ('\n' :: cs) rest := by
  obtain ⟨taken, rfl, hcount⟩ := h
  exact ⟨'\n' :: taken, rfl, by rw [List.count_cons_self, hcount]⟩

theorem any (h : Leaves n cs rest) : Leaves (n + if c = '\n' then 1 else 0) (c :: cs) rest := by
  split
  case isTrue hc => exact hc ▸ h.lineEnd
  case isFalse hc => exact h.cons hc

theorem trans (h : Leaves m cs rest) (h' : Leaves n rest later) : Leaves (m + n) cs later := by
  obtain ⟨taken, rfl, rfl⟩ := h
  obtain ⟨taken', rfl, rfl⟩ := h'
  exact ⟨taken ++ taken', by rw [List.append_assoc], List.count_append ..⟩

theorem of_append {taken : List Char} (h : '\n' ∉ taken) : Leaves 0 (taken ++ rest) rest :=
  ⟨taken, rfl, List.count_eq_zero_of_not_mem h⟩

theorem dropWhile (hp : p '\n' = false) (cs : List Char) : Leaves 0 cs (cs.dropWhile p) := by
  refine ⟨cs.takeWhile p, List.takeWhile_append_dropWhile.symm, List.count_eq_zero_of_not_mem ?_⟩
  intro hmem
  have hfeed := List.all_eq_true.mp List.all_takeWhile _ hmem
  rw [hp] at hfeed
  cases hfeed

theorem tail (hc : c ≠ '\n') (h : Leaves n cs (c :: rest)) : Leaves n cs rest :=
  h.trans (.cons hc (.refl rest))

theorem exists_last (h : Leaves 0 cs rest) (hshorter : rest.length < cs.length) :
    ∃ last, Leaves 0 cs (last :: rest) := by
  obtain ⟨taken, rfl, hcount⟩ := h
  obtain rfl | ⟨before, last, rfl⟩ := taken.eq_nil_or_concat
  · exact absurd hshorter (Nat.lt_irrefl _)
  · rw [List.concat_eq_append, List.count_append, Nat.add_eq_zero_iff] at hcount
    exact ⟨last, before, by simp, hcount.1⟩

theorem suffix (h : Leaves n cs rest) : rest <:+ cs := by
  obtain ⟨taken, rfl, -⟩ := h
  exact List.suffix_append taken rest

theorem count_eq (h : Leaves n cs rest) : cs.count '\n' = n + rest.count '\n' := by
  obtain ⟨taken, rfl, rfl⟩ := h
  exact List.count_append ..

end Leaves

/-! ## Numbers, names and operators -/

theorem digitRun_leaves (hp : p '\n' = false) (cs : List Char) : Leaves 0 cs (digitRun p cs).2 :=
  .dropWhile (by simp [hp]) cs

theorem fractionPart_leaves (cs : List Char) : Leaves 0 cs (fractionPart cs).2 := by
  unfold fractionPart
  split
  · exact .cons (by decide) (digitRun_leaves rfl _)
  · exact .refl cs

theorem exponentPart_leaves (cs : List Char) : Leaves 0 cs (exponentPart cs).2 := by
  unfold exponentPart
  split
  · rename_i mark sign rest
    split
    · rename_i hmark
      have hmark : mark ≠ '\n' := by rintro rfl; cases hmark
      split
      · rename_i hsign
        have hsign : sign ≠ '\n' := by rintro rfl; cases hsign
        split
        · exact .cons hmark (.cons hsign (digitRun_leaves rfl rest))
        · exact .refl _
      · split
        · exact .cons hmark (digitRun_leaves rfl _)
        · exact .refl _
    · exact .refl _
  · exact .refl _

theorem radix?_leaves {base : Nat} (h : radix? cs = some (base, rest)) : Leaves 0 cs rest := by
  unfold radix? at h
  split at h
  case h_2 => cases h
  case h_1 mark after =>
    have hmark : mark ≠ '\n' := by rintro rfl; cases h
    have hrest : after = rest := by grind
    exact hrest ▸ .cons (by decide) (.cons hmark (.refl _))

/-- What comes after the digits, the point and the exponent of a number. -/
def afterNumber (cs : List Char) : List Char :=
  match radix? cs with
  | some (base, after) => (digitRun (isDigitOf base) after).2
  | none => (exponentPart (fractionPart (digitRun Char.isDigit cs).2).2).2

theorem afterNumber_leaves (cs : List Char) : Leaves 0 cs (afterNumber cs) := by
  unfold afterNumber
  split
  case h_1 base after hradix =>
    have hdigits : Leaves 0 after (digitRun (isDigitOf base) after).2 :=
      digitRun_leaves (by simp [isDigitOf, show Text.hexValue? '\n' = none from rfl]) after
    exact (radix?_leaves hradix).trans hdigits
  case h_2 =>
    exact ((digitRun_leaves rfl cs).trans (fractionPart_leaves _)).trans (exponentPart_leaves _)

theorem decimalLiteral_rest {kind : TokenKind} (h : decimalLiteral cs = .ok (kind, rest)) :
    (exponentPart (fractionPart (digitRun Char.isDigit cs).2).2).2 = rest := by
  simp only [decimalLiteral] at h
  split at h
  · cases h
  · split at h
    · cases hwhole : integerLiteral 10 (digitRun Char.isDigit cs).1 <;> rw [hwhole] at h <;> cases h
      rfl
    · cases h
      rfl

theorem numberLiteral_rest {kind : TokenKind} (h : numberLiteral cs = .ok (kind, rest)) :
    afterNumber cs = rest := by
  cases hradix : radix? cs with
  | none =>
      simp only [numberLiteral, hradix] at h
      simp only [afterNumber, hradix]
      exact decimalLiteral_rest h
  | some found =>
      obtain ⟨base, after⟩ := found
      simp only [numberLiteral, hradix] at h
      simp only [afterNumber, hradix]
      cases hint : integerLiteral base (digitRun (isDigitOf base) after).1 with
      | error fault => simp [hint, Except.map] at h
      | ok kind =>
          rw [hint] at h
          cases h
          rfl

theorem numberLiteral_leaves {kind : TokenKind} (h : numberLiteral cs = .ok (kind, rest)) :
    Leaves 0 cs rest :=
  numberLiteral_rest h ▸ afterNumber_leaves cs

theorem plainLexeme_leaves {r : Reading Lexeme} (hc : c ≠ '\n') (h : plainLexeme c cs = .ok r) :
    r.lineEnds = 0 ∧ Leaves 0 (c :: cs) r.rest := by
  unfold plainLexeme at h
  split at h
  · cases h
    exact ⟨rfl, .cons hc (.refl _)⟩
  · split at h
    · unfold numberLexeme at h
      split at h
      case h_1 hread =>
        cases h
        exact ⟨rfl, numberLiteral_leaves hread⟩
      case h_2 => cases h
    · split at h
      · cases h
        exact ⟨rfl, .dropWhile rfl _⟩
      · unfold operatorLexeme at h
        split at h
        case h_1 o hleading =>
          cases h
          obtain ⟨w, hw, hrest⟩ := Operator.leading?_eq_some hleading
          refine ⟨rfl, .cons hc ?_⟩
          have hplain : '\n' ∉ w := fun hmem => (o.chars_plain '\n' (by simp [hw, hmem])).1 rfl
          exact ⟨w, hrest, List.count_eq_zero_of_not_mem hplain⟩
        case h_2 => cases h

theorem plainLexeme_value {r : Reading Lexeme} (h : plainLexeme c cs = .ok r) :
    r.value ≠ .lineEnd := by
  intro hvalue
  unfold plainLexeme numberLexeme operatorLexeme at h
  repeat' split at h
  all_goals
    cases h
    try cases hvalue

/-! ## Strings -/

theorem escape_leaves {chars : List Char} (h : escape c cs = .ok (chars, rest)) :
    Leaves 0 cs rest := by
  have hhex {count : Nat} (h : hexEscape count cs = .ok (chars, rest)) : Leaves 0 cs rest := by
    obtain ⟨digits, code, rfl, -, hcode, -, -⟩ := hexEscape_eq_ok.mp h
    exact .of_append fun hmem => (hexNumeral?_plain hcode _ hmem).1 rfl
  unfold escape at h
  split at h
  case h_12 | h_13 | h_14 => exact hhex h
  case h_15 =>
    split at h
    · cases h
      obtain ⟨hplain, hsplit⟩ := octalDigits_split cs
      exact ⟨_, hsplit, List.count_eq_zero_of_not_mem hplain⟩
    · cases h
      exact .refl cs
  all_goals
    cases h
    exact .refl cs

theorem closing?_leaves {quote : Char} {triple : Bool} (hquote : quote ≠ '\n')
    (h : closing? quote triple cs = some rest) : Leaves 0 (quote :: cs) (quote :: rest) := by
  unfold closing? at h
  split at h
  · split at h
    · split at h
      · rename_i hquotes
        cases h
        rw [hquotes.1, hquotes.2]
        exact .cons hquote (.cons hquote (.refl _))
      · cases h
    · cases h
  · cases h
    exact .refl _

theorem stringBody_leaves {quote : Char} {triple raw : Bool} {out : List Char} {r : Reading String}
    (hquote : quote ≠ '\n') (h : stringBody quote triple raw out n cs = .ok r) :
    ∃ k, r.lineEnds = n + k ∧ Leaves k cs (quote :: r.rest) := by
  fun_induction stringBody quote triple raw out n cs with
  | case1 => cases h
  | case2 out n c cs rest found =>
      cases h
      split at found
      case isTrue hc =>
        subst hc
        exact ⟨0, rfl, closing?_leaves hquote found⟩
      case isFalse => cases found
  | case3 out n cs _ _ ih =>
      obtain ⟨k, hk, hleaves⟩ := ih h
      exact ⟨k + 1, by omega, hleaves.lineEnd⟩
  | case4 => cases h
  | case5 => cases h
  | case6 out n next after n' hraw _ _ ih =>
      obtain ⟨k, hk, hleaves⟩ := ih h
      refine ⟨k + if next = '\n' then 1 else 0, ?_, .cons (by decide) hleaves.any⟩
      rw [hk]
      grind
  | case7 => cases h
  | case8 out n next after n' hraw chars rest step _ _ ih =>
      obtain ⟨k, hk, hleaves⟩ := ih h
      have hescape := (escape_leaves step).trans hleaves
      refine ⟨0 + k + if next = '\n' then 1 else 0, ?_, .cons (by decide) hescape.any⟩
      rw [hk]
      grind
  | case9 out n c cs _ hc _ ih =>
      obtain ⟨k, hk, hleaves⟩ := ih h
      exact ⟨k, hk, .cons hc hleaves⟩

theorem stringLexeme_leaves {raw : Bool} {quote : Char} {r : Reading Lexeme}
    (hquote : isQuote quote = true) (h : stringLexeme raw (quote :: cs) = .ok r) :
    (∃ s, r.value = .token (.str s)) ∧ Leaves r.lineEnds (quote :: cs) (quote :: r.rest) := by
  have hne := (isQuote_ne hquote).1
  have hbody {triple : Bool} {text : List Char} {s : Reading String}
      (h : stringBody quote triple raw [] 0 text = .ok s) :
      Leaves s.lineEnds text (quote :: s.rest) := by
    obtain ⟨k, hk, hleaves⟩ := stringBody_leaves hne h
    rw [hk, Nat.zero_add]
    exact hleaves
  unfold stringLexeme at h
  cases hread : stringLiteral raw (quote :: cs) with
  | error stop => rw [hread] at h; cases h
  | ok s =>
      rw [hread] at h
      cases h
      refine ⟨⟨s.value, rfl⟩, ?_⟩
      rw [stringLiteral_cons] at hread
      split at hread
      case h_1 rest hopen =>
        have hleaves := ((closing?_leaves hne hopen).tail hne).trans (hbody hread)
        rwa [Nat.zero_add] at hleaves
      case h_2 => exact .cons hne (hbody hread)

theorem announced?_leaves {raw : Bool} (h : announced? cs = some (raw, rest)) :
    Leaves 0 cs rest := by
  obtain ⟨⟨letters, rfl, hletters⟩, -⟩ := announced?_split h
  exact .of_append hletters

/-! ## Any lexeme -/

theorem indentation_leaves (column : Nat) (cs : List Char) :
    Leaves 0 cs (indentation column cs).2 := by
  fun_induction indentation column cs with
  | case1 => exact .refl []
  | case2 _ _ ih => exact .cons (by decide) ih
  | case3 _ _ _ ih => exact .cons (by decide) ih
  | case4 _ _ _ _ ih => exact .cons (by decide) ih
  | case5 => exact .refl _

theorem skipComment_leaves (cs : List Char) : Leaves 0 cs (skipComment cs) :=
  .dropWhile (by decide) cs

theorem joinedLine?_leaves (h : joinedLine? cs = some rest) : Leaves 1 cs rest := by
  unfold joinedLine? at h
  split at h
  · cases h
    exact .cons (by decide) (Leaves.refl _).lineEnd
  · cases h
    exact .cons (by decide) (.cons (by decide) (Leaves.refl _).lineEnd)
  · cases h

theorem lexeme_string_leaves {raw : Bool} {quote : Char} {text : List Char} {r : Reading Lexeme}
    (hstring : announced? (c :: cs) = some (raw, quote :: text)) (hquote : isQuote quote = true)
    (hread : stringLexeme raw (quote :: text) = .ok r) :
    Leaves r.lineEnds (c :: cs) (quote :: r.rest) := by
  have hleaves := (announced?_leaves hstring).trans (stringLexeme_leaves hquote hread).2
  rwa [Nat.zero_add] at hleaves

theorem lexeme_leaves {r : Reading Lexeme} (h : lexeme c cs = .ok r) :
    Leaves r.lineEnds (c :: cs) r.rest := by
  cases lexeme_case h with
  | comment hcomment =>
      rw [hcomment]
      exact .cons (by decide) (skipComment_leaves cs)
  | joined hjoin => exact joinedLine?_leaves hjoin
  | lineEnd hline =>
      rw [hline]
      exact (Leaves.refl cs).lineEnd
  | string hstring hquote hread =>
      exact (lexeme_string_leaves hstring hquote hread).tail (isQuote_ne hquote).1
  | plain _ hline _ _ hread =>
      obtain ⟨hends, hleaves⟩ := plainLexeme_leaves hline hread
      rwa [hends]

theorem lexeme_lineEnd_lineEnds {n : Nat} (h : lexeme c cs = .ok ⟨.lineEnd, rest, n⟩) : n = 1 := by
  cases lexeme_case h with
  | lineEnd => rfl
  | string hstring hquote hread =>
      obtain ⟨⟨s, hs⟩, -⟩ := stringLexeme_leaves hquote hread
      cases hs
  | plain _ hline _ _ hread => exact absurd rfl (plainLexeme_value hread)

theorem lexeme_token_leaves {kind : TokenKind} (h : lexeme c cs = .ok ⟨.token kind, rest, n⟩) :
    ∃ last, Leaves n (c :: cs) (last :: rest) := by
  have hshorter : rest.length ≤ cs.length := lexeme_rest_length h
  cases lexeme_case h with
  | string hstring hquote hread => exact ⟨_, lexeme_string_leaves hstring hquote hread⟩
  | plain _ hline _ _ hread =>
      obtain ⟨rfl, hleaves⟩ := plainLexeme_leaves hline hread
      exact hleaves.exists_last (Nat.lt_succ_of_le hshorter)

end IconConstraints.Source
