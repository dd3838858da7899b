import IconConstraints.Proofs.Lexemes

/-!
# Reading within a line

Numbers, names and operators lie within one line, so reading them does not depend on
how the line ends or on what comes after it.  A recasting of a text keeps its lines
and may change both; every reader within a line commutes with it.
-/

namespace IconConstraints.Source

variable {φ : List Char → List Char} {p : Char → Bool} {c : Char} {cs rest t w : List Char}

/-! ## Texts with nothing left on their line -/

def EndsLine (t : List Char) : Prop :=
  t = [] ∨ ∃ c rest, t = c :: rest ∧ (c = '\n' ∨ c = '\r')

namespace EndsLine

theorem takeWhile_eq (ht : EndsLine t) (hfeed : p '\n' = false) (hreturn : p '\r' = false) :
    t.takeWhile p = [] := by
  obtain rfl | ⟨c, rest, rfl, rfl | rfl⟩ := ht <;> simp [hfeed, hreturn]

theorem dropWhile_eq (ht : EndsLine t) (hfeed : p '\n' = false) (hreturn : p '\r' = false) :
    t.dropWhile p = t := by
  obtain rfl | ⟨c, rest, rfl, rfl | rfl⟩ := ht <;> simp [hfeed, hreturn]

theorem begins_eq (ht : EndsLine t) (hfeed : p '\n' = false) (hreturn : p '\r' = false) :
    (t.head?.map p).getD false = false := by
  obtain rfl | ⟨c, rest, rfl, rfl | rfl⟩ := ht <;> simp [hfeed, hreturn]

theorem closing?_eq (ht : EndsLine t) {quote : Char} (hquote : quote ≠ '\n' ∧ quote ≠ '\r') :
    closing? quote true t = none := by
  obtain rfl | ⟨c, rest, rfl, rfl | rfl⟩ := ht
  · rfl
  all_goals
    cases rest with
    | nil => rfl
    | cons d rest => simp [closing?, Ne.symm hquote.1, Ne.symm hquote.2]

theorem closing?_cons (ht : EndsLine t) {quote : Char} (hquote : quote ≠ '\n' ∧ quote ≠ '\r')
    (c : Char) : closing? quote true (c :: t) = none := by
  obtain rfl | ⟨d, rest, rfl, rfl | rfl⟩ := ht
  · rfl
  all_goals simp [closing?, Ne.symm hquote.1, Ne.symm hquote.2]

theorem fractionPart_eq (ht : EndsLine t) : fractionPart t = (none, t) := by
  obtain rfl | ⟨c, rest, rfl, rfl | rfl⟩ := ht <;> rfl

theorem exponentPart_eq (ht : EndsLine t) : exponentPart t = (none, t) := by
  obtain rfl | ⟨c, rest, rfl, rfl | rfl⟩ := ht
  · rfl
  all_goals cases rest <;> rfl

theorem exponentPart_cons (ht : EndsLine t) (c : Char) :
    exponentPart (c :: t) = (none, c :: t) := by
  obtain rfl | ⟨d, rest, rfl, rfl | rfl⟩ := ht
  · rfl
  all_goals simp [exponentPart, Char.isDigit]

theorem radix?_eq (ht : EndsLine t) : radix? t = none := by
  obtain rfl | ⟨c, rest, rfl, rfl | rfl⟩ := ht <;> rfl

theorem radix?_cons (ht : EndsLine t) (c : Char) : radix? (c :: t) = none := by
  obtain rfl | ⟨d, rest, rfl, rfl | rfl⟩ := ht <;> unfold radix? <;> split <;> simp_all
  all_goals grind

theorem stringLetters?_eq (ht : EndsLine t) : stringLetters? t = none := by
  obtain rfl | ⟨c, rest, rfl, rfl | rfl⟩ := ht
  · rfl
  all_goals cases rest <;> rfl

theorem stringLetters?_cons (ht : EndsLine t) (c : Char) : stringLetters? (c :: t) = none := by
  obtain rfl | ⟨d, rest, rfl, rfl | rfl⟩ := ht
  · rfl
  all_goals simp [stringLetters?, isQuote, isLetterPair]

end EndsLine

/-! ## Recasting -/

structure Recasts (φ : List Char → List Char) : Prop where
  cons : ∀ c t, c ≠ '\n' → φ (c :: t) = c :: φ t
  nil : EndsLine (φ [])
  lineEnd : ∀ t, EndsLine (φ ('\n' :: t))

def Reading.recast {α : Type} (φ : List Char → List Char) (r : Reading α) : Reading α :=
  { r with rest := φ r.rest }

namespace Recasts

theorem cases (hφ : Recasts φ) (t : List Char) :
    (EndsLine t ∧ EndsLine (φ t)) ∨ ∃ c rest, c ≠ '\n' ∧ t = c :: rest ∧ φ t = c :: φ rest := by
  cases t with
  | nil => exact .inl ⟨.inl rfl, hφ.nil⟩
  | cons c t =>
      by_cases hc : c = '\n'
      · subst hc
        exact .inl ⟨.inr ⟨_, _, rfl, .inl rfl⟩, hφ.lineEnd t⟩
      · exact .inr ⟨c, t, hc, rfl, hφ.cons c t hc⟩

theorem takeWhile_eq (hφ : Recasts φ) (hfeed : p '\n' = false) (hreturn : p '\r' = false)
    (t : List Char) : (φ t).takeWhile p = t.takeWhile p := by
  induction t with
  | nil => exact hφ.nil.takeWhile_eq hfeed hreturn
  | cons c t ih =>
      obtain ⟨hend, hend'⟩ | ⟨d, rest, -, heq, heq'⟩ := hφ.cases (c :: t)
      · rw [hend.takeWhile_eq hfeed hreturn, hend'.takeWhile_eq hfeed hreturn]
      · cases heq
        rw [heq', List.takeWhile_cons, List.takeWhile_cons, ih]

theorem dropWhile_eq (hφ : Recasts φ) (hfeed : p '\n' = false) (hreturn : p '\r' = false)
    (t : List Char) : (φ t).dropWhile p = φ (t.dropWhile p) := by
  induction t with
  | nil => exact hφ.nil.dropWhile_eq hfeed hreturn
  | cons c t ih =>
      obtain ⟨hend, hend'⟩ | ⟨d, rest, -, heq, heq'⟩ := hφ.cases (c :: t)
      · rw [hend.dropWhile_eq hfeed hreturn, hend'.dropWhile_eq hfeed hreturn]
      · cases heq
        rw [heq', List.dropWhile_cons, List.dropWhile_cons, ih]
        split
        · rfl
        · exact heq'.symm

theorem begins_eq (hφ : Recasts φ) (hfeed : p '\n' = false) (hreturn : p '\r' = false)
    (t : List Char) : ((φ t).head?.map p).getD false = (t.head?.map p).getD false := by
  obtain ⟨hend, hend'⟩ | ⟨c, rest, -, rfl, heq'⟩ := hφ.cases t
  · rw [hend.begins_eq hfeed hreturn, hend'.begins_eq hfeed hreturn]
  · rw [heq']
    rfl

theorem append_eq (hφ : Recasts φ) (hw : '\n' ∉ w) (t : List Char) : φ (w ++ t) = w ++ φ t := by
  induction w with
  | nil => rfl
  | cons c w ih =>
      simp only [List.mem_cons, not_or] at hw
      rw [List.cons_append, hφ.cons c _ (Ne.symm hw.1), ih hw.2, List.cons_append]

theorem eq_append_iff (hφ : Recasts φ) (hw : ∀ c ∈ w, c ≠ '\n' ∧ c ≠ '\r') {u : List Char} :
    φ t = w ++ u ↔ ∃ rest, t = w ++ rest ∧ u = φ rest := by
  constructor
  · intro h
    induction w generalizing t with
    | nil => exact ⟨t, rfl, h.symm⟩
    | cons x w ih =>
        obtain ⟨-, hend⟩ | ⟨c, rest, -, rfl, heq⟩ := hφ.cases t
        · have hx := hw x (by simp)
          obtain hnil | ⟨c, rest, heq, hc⟩ := hend
          · simp [hnil] at h
          · rw [heq] at h
            cases h
            exact absurd hc (by simp [hx])
        · rw [heq, List.cons_append] at h
          obtain ⟨rfl, htail⟩ := List.cons.inj h
          obtain ⟨rest', rfl, hu⟩ := ih (fun c hc => hw c (by simp [hc])) htail
          exact ⟨rest', rfl, hu⟩
  · rintro ⟨rest, rfl, rfl⟩
    exact hφ.append_eq (fun hmem => (hw _ hmem).1 rfl) rest

theorem isPrefixOf_eq (hφ : Recasts φ) (hw : ∀ c ∈ w, c ≠ '\n' ∧ c ≠ '\r') (t : List Char) :
    w.isPrefixOf (φ t) = w.isPrefixOf t := by
  rw [Bool.eq_iff_iff, List.isPrefixOf_iff_prefix, List.isPrefixOf_iff_prefix]
  constructor
  · rintro ⟨u, hu⟩
    obtain ⟨rest, rfl, -⟩ := (hφ.eq_append_iff hw).mp hu.symm
    exact ⟨rest, rfl⟩
  · rintro ⟨rest, rfl⟩
    exact ⟨φ rest, ((hφ.eq_append_iff hw).mpr ⟨rest, rfl, rfl⟩).symm⟩

/-! ## Numbers -/

theorem digitRun_eq (hφ : Recasts φ) (hfeed : p '\n' = false) (hreturn : p '\r' = false)
    (t : List Char) : digitRun p (φ t) = ((digitRun p t).1, φ (digitRun p t).2) := by
  simp only [digitRun]
  rw [hφ.takeWhile_eq (by simp [hfeed]) (by simp [hreturn]),
    hφ.dropWhile_eq (by simp [hfeed]) (by simp [hreturn])]

theorem fractionPart_eq (hφ : Recasts φ) (t : List Char) :
    fractionPart (φ t) = ((fractionPart t).1, φ (fractionPart t).2) := by
  obtain ⟨hend, hend'⟩ | ⟨c, rest, -, rfl, heq'⟩ := hφ.cases t
  · rw [hend.fractionPart_eq, hend'.fractionPart_eq]
  · by_cases hpoint : c = '.'
    · subst hpoint
      simp [heq', fractionPart, hφ.digitRun_eq]
    · simp [heq', fractionPart, hpoint]

theorem exponentPart_eq (hφ : Recasts φ) (t : List Char) :
    exponentPart (φ t) = ((exponentPart t).1, φ (exponentPart t).2) := by
  obtain ⟨hend, hend'⟩ | ⟨mark, rest, -, rfl, heq⟩ := hφ.cases t
  · rw [hend.exponentPart_eq, hend'.exponentPart_eq]
  · obtain ⟨hend, hend'⟩ | ⟨sign, rest, hsign, rfl, heq'⟩ := hφ.cases rest
    · rw [heq, hend.exponentPart_cons, hend'.exponentPart_cons, heq]
    · have hdigits := hφ.digitRun_eq (p := Char.isDigit) rfl rfl rest
      have hsigned := hφ.digitRun_eq (p := Char.isDigit) rfl rfl (sign :: rest)
      rw [hφ.cons sign rest hsign] at hsigned
      rw [heq, heq']
      simp only [exponentPart, hφ.begins_eq (p := Char.isDigit) rfl rfl, hdigits, hsigned]
      split
      · split
        · split <;> simp [heq, heq']
        · split <;> simp [heq, heq']
      · simp [heq, heq']

theorem radix?_eq (hφ : Recasts φ) (t : List Char) :
    radix? (φ t) = (radix? t).map fun found => (found.1, φ found.2) := by
  obtain ⟨hend, hend'⟩ | ⟨c, rest, -, rfl, heq⟩ := hφ.cases t
  · rw [hend.radix?_eq, hend'.radix?_eq]
    rfl
  · obtain ⟨hend, hend'⟩ | ⟨mark, rest, -, rfl, heq'⟩ := hφ.cases rest
    · rw [heq, hend.radix?_cons, hend'.radix?_cons]
      rfl
    · rw [heq, heq']
      by_cases hzero : c = '0'
      · subst hzero
        simp only [radix?]
        split
        · rfl
        · split
          · rfl
          · split <;> rfl
      · simp [radix?, hzero]

theorem decimalLiteral_eq (hφ : Recasts φ) (t : List Char) :
    decimalLiteral (φ t) = (decimalLiteral t).map fun read => (read.1, φ read.2) := by
  have himaginary (u : List Char) :
      ((φ u).head? == some 'j' || (φ u).head? == some 'J') =
        (u.head? == some 'j' || u.head? == some 'J') := by
    have h := hφ.begins_eq (p := fun c => c == 'j' || c == 'J') rfl rfl u
    cases hu : u.head? <;> cases hφu : (φ u).head? <;> simp_all
  simp only [decimalLiteral, hφ.digitRun_eq (p := Char.isDigit) rfl rfl, hφ.fractionPart_eq,
    hφ.exponentPart_eq, himaginary]
  split
  · rfl
  · split
    · cases integerLiteral 10 (digitRun Char.isDigit t).1 <;> rfl
    · rfl

theorem numberLiteral_eq (hφ : Recasts φ) (t : List Char) :
    numberLiteral (φ t) = (numberLiteral t).map fun read => (read.1, φ read.2) := by
  simp only [numberLiteral, hφ.radix?_eq]
  cases hradix : radix? t with
  | none => exact hφ.decimalLiteral_eq t
  | some found =>
      obtain ⟨base, rest⟩ := found
      have hdigit (c : Char) (hc : Text.hexValue? c = none) : isDigitOf base c = false := by
        simp [isDigitOf, hc]
      simp only [Option.map_some, hφ.digitRun_eq (hdigit _ rfl) (hdigit _ rfl)]
      cases integerLiteral base (digitRun (isDigitOf base) rest).1 <;> rfl

theorem numberLexeme_eq (hφ : Recasts φ) (t : List Char) :
    numberLexeme (φ t) = (numberLexeme t).map (·.recast φ) := by
  simp only [numberLexeme, hφ.numberLiteral_eq]
  cases numberLiteral t <;> rfl

/-! ## Names and operators -/

theorem nameLexeme_eq (hφ : Recasts φ) (t : List Char) :
    nameLexeme (φ t) = (nameLexeme t).recast φ := by
  simp only [nameLexeme, Reading.recast]
  rw [hφ.takeWhile_eq rfl rfl, hφ.dropWhile_eq rfl rfl]

theorem leading?_eq (hφ : Recasts φ) (t : List Char) :
    Operator.leading? (φ t) = Operator.leading? t := by
  unfold Operator.leading?
  congr 1
  funext o
  exact hφ.isPrefixOf_eq o.chars_plain t

theorem operatorLexeme_eq (hφ : Recasts φ) (hc : c ≠ '\n') (t : List Char) :
    operatorLexeme c (φ t) = (operatorLexeme c t).map (·.recast φ) := by
  simp only [operatorLexeme, ← hφ.cons c t hc, hφ.leading?_eq]
  cases hleading : Operator.leading? (c :: t) with
  | none => rfl
  | some o =>
      obtain ⟨w, hw, htail⟩ := Operator.leading?_eq_some hleading
      have hplain : '\n' ∉ w := fun hmem => (o.chars_plain '\n' (by simp [hw, hmem])).1 rfl
      have hrest : (φ t).drop (o.chars.length - 1) = φ (t.drop (o.chars.length - 1)) := by
        conv => lhs; rw [htail, hφ.append_eq hplain]
        simp [hw]
      simp [Except.map, Reading.recast, hrest]

theorem stringLetters?_eq (hφ : Recasts φ) (t : List Char) :
    stringLetters? (φ t) = (stringLetters? t).map fun found => (found.1, φ found.2) := by
  obtain ⟨hend, hend'⟩ | ⟨a, rest, -, rfl, heq⟩ := hφ.cases t
  · rw [hend.stringLetters?_eq, hend'.stringLetters?_eq]
    rfl
  · obtain ⟨hend, hend'⟩ | ⟨b, rest, -, rfl, heq'⟩ := hφ.cases rest
    · rw [heq, hend.stringLetters?_cons, hend'.stringLetters?_cons]
      rfl
    · rw [heq, heq', stringLetters?_cons_cons, stringLetters?_cons_cons,
        hφ.begins_eq (p := isQuote) rfl rfl]
      split
      · split
        · simp [heq']
        · split <;> rfl
      · rfl

/-! ## Strings -/

theorem closing?_eq (hφ : Recasts φ) {quote : Char} (hquote : quote ≠ '\n' ∧ quote ≠ '\r')
    (triple : Bool) (t : List Char) :
    closing? quote triple (φ t) = (closing? quote triple t).map φ := by
  cases triple with
  | false => rfl
  | true =>
      obtain ⟨hend, hend'⟩ | ⟨a, rest, -, rfl, heq⟩ := hφ.cases t
      · rw [hend.closing?_eq hquote, hend'.closing?_eq hquote]
        rfl
      · obtain ⟨hend, hend'⟩ | ⟨b, rest, -, rfl, heq'⟩ := hφ.cases rest
        · rw [heq, hend.closing?_cons hquote, hend'.closing?_cons hquote]
          rfl
        · rw [heq, heq']
          simp only [closing?, if_true]
          split <;> rfl

theorem hexEscape_iff (hφ : Recasts φ) {count : Nat} {chars : List Char} :
    hexEscape count (φ cs) = .ok (chars, w) ↔
      ∃ rest, w = φ rest ∧ hexEscape count cs = .ok (chars, rest) := by
  constructor
  · intro h
    obtain ⟨digits, code, heq, hlength, hcode, hvalid, rfl⟩ := hexEscape_eq_ok.mp h
    obtain ⟨rest, rfl, rfl⟩ := (hφ.eq_append_iff (hexNumeral?_plain hcode)).mp heq
    exact ⟨rest, rfl, hexEscape_eq_ok.mpr ⟨digits, code, rfl, hlength, hcode, hvalid, rfl⟩⟩
  · rintro ⟨rest, rfl, h⟩
    obtain ⟨digits, code, rfl, hlength, hcode, hvalid, rfl⟩ := hexEscape_eq_ok.mp h
    have heq := (hφ.eq_append_iff (hexNumeral?_plain hcode)).mpr ⟨rest, rfl, rfl⟩
    exact hexEscape_eq_ok.mpr ⟨digits, code, heq, hlength, hcode, hvalid, rfl⟩

theorem octalDigits_eq (hφ : Recasts φ) (cs : List Char) :
    ((φ cs).take 2).takeWhile isOctalDigit = (cs.take 2).takeWhile isOctalDigit ∧
      (φ cs).drop ((cs.take 2).takeWhile isOctalDigit).length =
        φ (cs.drop ((cs.take 2).takeWhile isOctalDigit).length) := by
  constructor
  · rw [← List.take_takeWhile, ← List.take_takeWhile, hφ.takeWhile_eq rfl rfl]
  · obtain ⟨hplain, hsplit⟩ := octalDigits_split cs
    generalize (cs.take 2).takeWhile isOctalDigit = digits at hplain hsplit ⊢
    conv => lhs; rw [hsplit, hφ.append_eq hplain]
    exact List.drop_left

theorem escape_iff (hφ : Recasts φ) {chars : List Char} :
    escape c (φ cs) = .ok (chars, w) ↔ ∃ rest, w = φ rest ∧ escape c cs = .ok (chars, rest) := by
  unfold escape
  split
  case h_12 | h_13 | h_14 => exact hφ.hexEscape_iff
  case h_15 =>
    obtain ⟨hdigits, hrest⟩ := hφ.octalDigits_eq cs
    split
    · simp only [hdigits, hrest, Except.ok.injEq, Prod.mk.injEq]
      grind
    · grind
  all_goals grind

theorem escape_error (hφ : Recasts φ) {fault : LexFault} (h : escape c cs = .error fault) :
    ∃ fault', escape c (φ cs) = .error fault' := by
  cases h' : escape c (φ cs) with
  | error fault' => exact ⟨fault', rfl⟩
  | ok read =>
      obtain ⟨rest, -, hread⟩ := hφ.escape_iff.mp h'
      cases h.symm.trans hread

/-! ## Lexemes -/

theorem indentation_eq (hφ : Recasts φ) (column : Nat) (t : List Char) :
    indentation column (φ t) = ((indentation column t).1, φ (indentation column t).2) := by
  have hstop (u : List Char) (hu : EndsLine u) (column : Nat) :
      indentation column u = (column, u) := by
    obtain rfl | ⟨c, rest, rfl, rfl | rfl⟩ := hu <;> simp [indentation]
  induction t generalizing column with
  | nil => exact hstop _ hφ.nil column
  | cons c t ih =>
      obtain ⟨hend, hend'⟩ | ⟨d, rest, -, heq, heq'⟩ := hφ.cases (c :: t)
      · rw [hstop _ hend, hstop _ hend']
      · cases heq
        rw [heq']
        simp only [indentation, ih]
        grind

theorem announced?_eq (hφ : Recasts φ) (hc : c ≠ '\n') (t : List Char) :
    announced? (c :: φ t) = (announced? (c :: t)).map fun found => (found.1, φ found.2) := by
  simp only [announced?, ← hφ.cons c t hc, hφ.stringLetters?_eq]
  split <;> rfl

theorem plainLexeme_eq (hφ : Recasts φ) (hc : c ≠ '\n') (t : List Char) :
    plainLexeme c (φ t) = (plainLexeme c t).map (·.recast φ) := by
  have hnumber : beginsNumber c (φ t) = beginsNumber c t := by
    simp only [beginsNumber, hφ.begins_eq (p := Char.isDigit) rfl rfl]
  simp only [plainLexeme, hnumber, ← hφ.cons c t hc, hφ.numberLexeme_eq, hφ.nameLexeme_eq,
    hφ.operatorLexeme_eq hc]
  split
  · rfl
  · split
    · rfl
    · split <;> rfl

end Recasts

end IconConstraints.Source
