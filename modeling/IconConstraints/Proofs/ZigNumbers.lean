import IconConstraints.Decimal.NumberStyle
import IconConstraints.Proofs.ZigReading

/-!
# Numbers in Zig source

The texts of codepoints and of finite values are single numbers, and the text of a
codepoint has that codepoint as its value.
-/

namespace IconConstraints

variable {c : Char} {u v w : List Char} {n : Nat}

/-! ## Digits -/

theorem mem_toDigits {b : Nat} (hb : 1 < b) (h : c ∈ Nat.toDigits b n) :
    ∃ d < b, c = Nat.digitChar d := by
  induction n using Nat.strongRecOn with
  | ind n ih =>
  by_cases hn : n < b
  · rw [Nat.toDigits_of_lt_base hn, List.mem_singleton] at h
    exact ⟨n, hn, h⟩
  · have hn : b ≤ n := Nat.le_of_not_lt hn
    rw [Nat.toDigits_of_base_le hb hn, List.mem_append] at h
    obtain h | h := h
    · exact ih (n / b) (Nat.div_lt_self (by omega) hb) h
    · exact ⟨n % b, Nat.mod_lt n (by omega), List.mem_singleton.mp h⟩

theorem foldlM_hexValue?_toDigits (n : Nat) :
    (Nat.toDigits 16 n).foldlM (fun n c => (Text.hexValue? c).map (16 * n + ·)) 0 = some n := by
  have hdigit : ∀ d < 16, Text.hexValue? (Nat.digitChar d) = some d := by decide
  induction n using Nat.strongRecOn with
  | ind n ih =>
  by_cases hn : n < 16
  · simp [Nat.toDigits_of_lt_base hn, hdigit n hn]
  · have hn : 16 ≤ n := Nat.le_of_not_lt hn
    have hmod : n % 16 < 16 := Nat.mod_lt n (by omega)
    rw [Nat.toDigits_of_base_le (by omega) hn, List.foldlM_append, ih (n / 16) (by omega)]
    simp [hdigit _ hmod]
    omega

namespace Zig

/-! ## Unbroken texts -/

theorem isWordChar_of_isDigit (hc : c.isDigit = true) : isWordChar c = true := by
  simp [isWordChar, Char.isAlphanum, hc]

theorem continuesNumber_wordChar {d : Char} (hd : isWordChar d = true) (c : Char)
    (rest : List Char) : continuesNumber c (d :: rest) = true := by
  simp [continuesNumber, hd]

theorem unbroken_append (hu : ∀ c ∈ u, isWordChar c = true) (hv : unbroken v = true)
    (hjoin : v = [] ∨ ∀ c, isWordChar c = true → continuesNumber c v = true) :
    unbroken (u ++ v) = true := by
  induction u with
  | nil => exact hv
  | cons c u ih =>
      have hrest := ih fun d hd => hu d (by simp [hd])
      rw [List.cons_append, unbroken, hrest, Bool.and_true]
      cases u with
      | nil =>
          obtain rfl | hjoin := hjoin
          · rfl
          · rw [List.nil_append, hjoin c (hu c (by simp)), Bool.or_true]
      | cons d u =>
          rw [List.cons_append, continuesNumber_wordChar (hu d (by simp)), Bool.or_true]

theorem unbroken_word (hu : ∀ c ∈ u, isWordChar c = true) : unbroken u = true := by
  have h := unbroken_append (v := []) hu rfl (.inl rfl)
  rwa [List.append_nil] at h

/-- A nonempty list of decimal digits. -/
structure Digits (ds : List Char) : Prop where
  nonempty : ds ≠ []
  digits : ∀ c ∈ ds, c.isDigit = true

theorem Digits.wordChars (hu : Digits u) : ∀ c ∈ u, isWordChar c = true :=
  fun c hc => isWordChar_of_isDigit (hu.digits c hc)

theorem Digits.decimal (n : Nat) : Digits (Decimal.decimalDigits n) where
  nonempty := Nat.toDigits_ne_nil
  digits _ hc := Nat.isDigit_of_mem_toDigits (by decide) (by decide) hc

/-- Digits, and after them what does not break the number. -/
theorem Digits.isNumber_append (hu : Digits u) (hv : unbroken v = true)
    (hjoin : v = [] ∨ ∀ c, isWordChar c = true → continuesNumber c v = true) :
    IsNumber (u ++ v) where
  begins := by
    obtain ⟨c, rest, rfl⟩ := List.exists_cons_of_ne_nil hu.nonempty
    exact ⟨c, rest ++ v, rfl, hu.digits c (by simp)⟩
  unbroken := unbroken_append hu.wordChars hv hjoin

theorem Digits.isNumber (hu : Digits u) : IsNumber u := by
  have h := hu.isNumber_append (v := []) rfl (.inl rfl)
  rwa [List.append_nil] at h

theorem Digits.continues (hu : Digits u) (c : Char) (rest : List Char) :
    continuesNumber c (u ++ rest) = true := by
  obtain ⟨d, u', rfl⟩ := List.exists_cons_of_ne_nil hu.nonempty
  exact continuesNumber_wordChar (isWordChar_of_isDigit (hu.digits d (by simp))) c _

theorem unbroken_cons (hjoin : continuesNumber c v = true) (hv : unbroken v = true) :
    unbroken (c :: v) = true := by
  rw [unbroken, hjoin, hv, Bool.or_true, Bool.and_true]

theorem continuesNumber_point (hv : Digits v) (c : Char) (rest : List Char) :
    continuesNumber c ('.' :: (v ++ rest)) = true := by
  obtain ⟨d, v, rfl⟩ := List.exists_cons_of_ne_nil hv.nonempty
  simp [continuesNumber, isWordChar_of_isDigit (hv.digits d (by simp))]

theorem Digits.isNumber_pointed (hu : Digits u) (hv : Digits v) : IsNumber (u ++ '.' :: v) := by
  have hpoint (c : Char) := continuesNumber_point hv c []
  have hfirst := hv.continues '.' []
  simp only [List.append_nil] at hpoint hfirst
  have hfraction := unbroken_cons hfirst (unbroken_word hv.wordChars)
  exact hu.isNumber_append hfraction (.inr fun c _ => hpoint c)

/-! ## Codepoints -/

theorem hexNumber?_hex (n : Nat) : hexNumber? (Text.hex n) = some n := by
  have htext : (Text.hex n).toList = '0' :: 'x' :: Nat.toDigits 16 n := by
    simp [Text.hex, Text.hexDigits]
  obtain ⟨d, digits, hdigits⟩ := List.exists_cons_of_ne_nil (Nat.toDigits_ne_nil (b := 16) (n := n))
  have hvalue := foldlM_hexValue?_toDigits n
  rw [hdigits] at htext hvalue
  rw [hexNumber?, htext]
  exact hvalue

theorem isNumber_hex (n : Nat) : IsNumber (Text.hex n).toList := by
  have htext : (Text.hex n).toList = '0' :: 'x' :: Nat.toDigits 16 n := by
    simp [Text.hex, Text.hexDigits]
  rw [htext]
  refine ⟨⟨'0', _, rfl, rfl⟩, unbroken_word fun c hc => ?_⟩
  have hdigit : ∀ d < 16, isWordChar (Nat.digitChar d) = true := by decide
  simp only [List.mem_cons] at hc
  obtain rfl | rfl | hc := hc
  · rfl
  · rfl
  · obtain ⟨d, hd, rfl⟩ := mem_toDigits (by decide) hc
    exact hdigit d hd

/-! ## Decimals -/

theorem Digits.zeros_append (n : Nat) (hu : Digits u) : Digits (List.replicate n '0' ++ u) where
  nonempty := by simp [hu.nonempty]
  digits c hc := by
    obtain hc | hc := List.mem_append.mp hc
    · rw [List.eq_of_mem_replicate hc]
      rfl
    · exact hu.digits c hc

theorem Digits.append_zeros (n : Nat) (hu : Digits u) : Digits (u ++ List.replicate n '0') where
  nonempty := by simp [hu.nonempty]
  digits c hc := by
    obtain hc | hc := List.mem_append.mp hc
    · exact hu.digits c hc
    · rw [List.eq_of_mem_replicate hc]
      rfl

theorem isNumber_pointed {places : Nat} (hplaces : 0 < places) (hu : Digits u) :
    IsNumber (Decimal.pointed places u) := by
  have hpadded := hu.zeros_append (places + 1 - u.length)
  have hlength : places < (List.replicate (places + 1 - u.length) '0' ++ u).length := by
    rw [List.length_append, List.length_replicate]
    omega
  unfold Decimal.pointed
  dsimp only
  generalize List.replicate (places + 1 - u.length) '0' ++ u = padded at hpadded hlength
  apply Digits.isNumber_pointed
  · refine ⟨?_, fun c hc => hpadded.digits c (List.mem_of_mem_take hc)⟩
    rw [← List.length_pos_iff, List.length_take]
    omega
  · refine ⟨?_, fun c hc => hpadded.digits c (List.mem_of_mem_drop hc)⟩
    rw [← List.length_pos_iff, List.length_drop]
    omega

theorem isNumber_positionalText (style : Decimal.NumberStyle) (d : Decimal.Scaled) :
    IsNumber (style.positionalText d) := by
  have hdigits := Digits.decimal d.digits
  unfold Decimal.NumberStyle.positionalText
  split
  · have hwhole := hdigits.append_zeros d.exponent.toNat
    split
    · exact hwhole.isNumber_pointed ⟨List.cons_ne_nil _ _, List.forall_mem_singleton.mpr rfl⟩
    · rw [List.append_nil]
      exact hwhole.isNumber
  · exact isNumber_pointed (by omega) hdigits

/-- The letter of an exponent and the power of ten after it. -/
theorem unbroken_exponent (power : Int) : unbroken ('e' :: (toString power).toList) = true := by
  have hunsigned (n : Nat) (c : Char) : unbroken (c :: Decimal.decimalDigits n) = true := by
    have hcontinues := (Digits.decimal n).continues c []
    rw [List.append_nil] at hcontinues
    exact unbroken_cons hcontinues (unbroken_word (Digits.decimal n).wordChars)
  cases power with
  | ofNat n =>
      have htext : (toString (Int.ofNat n)).toList = Decimal.decimalDigits n := Nat.toList_repr
      rw [htext]
      exact hunsigned n 'e'
  | negSucc n =>
      have htext : (toString (Int.negSucc n)).toList = '-' :: Decimal.decimalDigits (n + 1) := by
        change ("-" ++ Nat.repr (n + 1)).toList = _
        rw [String.toList_append, Nat.toList_repr]
        rfl
      rw [htext]
      exact unbroken_cons (by simp [continuesNumber, isExponentMark]) (hunsigned (n + 1) '-')

theorem isNumber_exponentText {style : Decimal.NumberStyle} (hplus : style.plus = false)
    (d : Decimal.Scaled) : IsNumber (style.exponentText d) := by
  have hdigits := Digits.decimal d.digits
  unfold Decimal.NumberStyle.exponentText
  simp only [hplus, Bool.false_and, Bool.false_eq_true, if_false, List.nil_append]
  generalize d.exponent + _ = power
  have hexponent := unbroken_exponent power
  have hjoin (c : Char) : continuesNumber c ('e' :: (toString power).toList) = true :=
    continuesNumber_wordChar rfl c _
  generalize Decimal.decimalDigits d.digits = digits at hdigits
  split
  · rename_i first second rest
    have hfirst : Digits [first] := ⟨by simp, fun c hc => hdigits.digits c (by simp_all)⟩
    have hrest : Digits (second :: rest) := ⟨by simp, fun c hc => hdigits.digits c (by simp_all)⟩
    have htail : unbroken (second :: rest ++ 'e' :: (toString power).toList) = true :=
      unbroken_append hrest.wordChars hexponent (.inr fun c _ => hjoin c)
    refine hfirst.isNumber_append (unbroken_cons (hrest.continues '.' _) htail) (.inr fun c _ => ?_)
    exact continuesNumber_point hrest c _
  · exact hdigits.isNumber_append hexponent (.inr fun c _ => hjoin c)

theorem isNumber_magnitude {style : Decimal.NumberStyle} (hplus : style.plus = false)
    (d : Decimal.Scaled) : IsNumber (style.magnitude d) := by
  unfold Decimal.NumberStyle.magnitude
  split
  · exact isNumber_positionalText style d
  · exact isNumber_exponentText hplus d

/-! ## Values -/

/-- The tokens of a text that is the value of a field. -/
inductive Spells (text : String) : List Token → Prop
  | operand {t : Token} (h : t.operand? = some text) : Spells text [t]
  | marked {c : Char} {t : Token} (h : t.marked? c = some text) : Spells text [.mark c, t]

/-- The text reads as itself where it is the value of a field. -/
def IsValue (text : String) : Prop :=
  ∃ ts, Spells text ts ∧ Scans (text ++ ",\n") (ts ++ [.mark ','])

theorem scans_number_comma (hw : IsNumber w) :
    Scans (String.ofList w ++ ",\n") [.number (String.ofList w), .mark ','] := by
  have hcomma : Scans ",\n" [.mark ','] := fun _ => rfl
  have hbreaks : isWordChar ',' = false := rfl
  refine .number hw (fun c rest => ?_) hcomma
  simp [continuesNumber, hbreaks]

theorem scans_minus (text : String) {ts : List Token} (h : Scans text ts) :
    Scans ("-" ++ text) (.mark '-' :: ts) := by
  have hminus : Scans "-" [.mark '-'] := fun _ => rfl
  exact hminus.append h

theorem IsNumber.isValue (hw : IsNumber w) : IsValue (String.ofList w) :=
  ⟨_, .operand rfl, scans_number_comma hw⟩

theorem IsNumber.isValue_minus (hw : IsNumber w) : IsValue ("-" ++ String.ofList w) :=
  ⟨_, .marked rfl, by rw [String.append_assoc]; exact scans_minus _ (scans_number_comma hw)⟩

theorem isValue_signed (negative : Bool) (hw : IsNumber w) :
    IsValue (Decimal.signed negative w) := by
  cases negative with
  | false => exact hw.isValue
  | true =>
      have htext : Decimal.signed true w = "-" ++ String.ofList w := by
        rw [← String.toList_inj]
        simp [Decimal.signed]
      rw [htext]
      exact hw.isValue_minus

/-- A float of any kind, if the style writes the finite ones as numbers. -/
theorem isValue_write {magnitude : Nat → Int → List Char}
    (hmagnitude : ∀ significand exponent, IsNumber (magnitude significand exponent))
    (x : Decimal.Binary64) : IsValue (x.write magnitude) := by
  have hnan : Scans ("NaN" ++ ",\n") [.word "NaN", .mark ','] := fun _ => rfl
  have hinfinite : Scans ("inf" ++ ",\n") [.word "inf", .mark ','] := fun _ => rfl
  have hsigned : Decimal.signed true "inf".toList = "-" ++ "inf" := rfl
  have hunsigned : Decimal.signed false "inf".toList = "inf" := String.ofList_toList
  cases x with
  | nan =>
      rw [Decimal.Binary64.write]
      exact ⟨[.word "NaN"], .operand rfl, hnan⟩
  | infinite negative =>
      rw [Decimal.Binary64.write]
      cases negative with
      | false =>
          rw [hunsigned]
          exact ⟨[.word "inf"], .operand rfl, hinfinite⟩
      | true =>
          rw [hsigned]
          exact ⟨[.mark '-', .word "inf"], .marked rfl, scans_minus _ hinfinite⟩
  | finite negative significand exponent =>
      exact isValue_signed negative (hmagnitude significand exponent)

theorem isValue_fixed (x : Float) : IsValue (Decimal.fixed 16 x) :=
  isValue_write (fun _ _ => isNumber_pointed (by decide) (.decimal _)) _

theorem isValue_full (x : Float) : IsValue (Decimal.full x) :=
  isValue_write (fun _ _ => isNumber_magnitude rfl _) _

theorem isValue_toString (n : Nat) : IsValue (toString n) := by
  have htext : toString n = String.ofList (Decimal.decimalDigits n) :=
    Nat.toString_eq_ofList_toDigits
  rw [htext]
  exact (Digits.decimal n).isNumber.isValue

end Zig

end IconConstraints
