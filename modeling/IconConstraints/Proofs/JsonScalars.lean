import Mathlib.Data.List.Basic
import IconConstraints.Json.Grammar
import IconConstraints.Json.Reading

/-!
# Scalars of JSON texts

Every text of a truth value, a string or a number is read as this value.  Blanks may stand
before it, and what follows it is left: the end, a blank, a comma or a closing bracket.
-/

namespace IconConstraints.Json

/-- Characters as they are read. -/
def input (cs : List Char) : Input :=
  cs.map some

@[simp] theorem input_nil : input [] = [] :=
  rfl

@[simp] theorem input_cons (c : Char) (cs : List Char) : input (c :: cs) = some c :: input cs :=
  rfl

@[simp] theorem input_append (cs ds : List Char) : input (cs ++ ds) = input cs ++ input ds :=
  List.map_append

@[simp] theorem length_input (cs : List Char) : (input cs).length = cs.length :=
  List.length_map _

/-! ## Blanks -/

theorem isBlank_iff {c : Char} : isBlank (some c) = true ↔ c ∈ blanks := by
  simp [isBlank, blanks, or_assoc]

theorem skipBlanks_append {before : List Char} (h : ∀ c ∈ before, c ∈ blanks) (rest : Input) :
    skipBlanks (input before ++ rest) = skipBlanks rest := by
  refine List.dropWhile_append_of_pos fun c hc => ?_
  obtain ⟨b, hb, rfl⟩ := List.mem_map.mp hc
  exact isBlank_iff.mpr (h b hb)

theorem skipBlanks_cons {c : Char} (h : c ∉ blanks) (rest : Input) :
    skipBlanks (some c :: rest) = some c :: rest :=
  List.dropWhile_cons_of_neg (by rwa [isBlank_iff])

theorem skipBlanks_to {before : List Char} (h : ∀ c ∈ before, c ∈ blanks) {c : Char} (hc : c ∉ blanks)
    (rest : Input) : skipBlanks (input before ++ some c :: rest) = some c :: rest :=
  (skipBlanks_append h _).trans (skipBlanks_cons hc rest)

/-! ## Reading the texts of a value -/

/-- What may follow a value. -/
inductive Delimited : Input → Prop where
  | done : Delimited []
  | mark {c : Char} (rest : Input) : c ∈ blanks ++ [',', ']', '\x7d'] → Delimited (some c :: rest)

theorem Delimited.after {after : List Char} {rest : Input} (h : ∀ c ∈ after, c ∈ blanks)
    (hrest : Delimited rest) : Delimited (input after ++ rest) := by
  cases after with
  | nil => exact hrest
  | cons c after =>
      exact .mark _ (List.mem_append_left _ (h c List.mem_cons_self))

/-- A character with which a value may begin. -/
def Opening (c : Char) : Prop :=
  c ∉ blanks ++ [',', ']', '\x7d']

theorem toDigits_eq_cons (n : Nat) : ∃ c cs, Nat.toDigits 10 n = c :: cs ∧ c.isDigit = true := by
  obtain ⟨c, cs, hdigits⟩ := List.exists_cons_of_ne_nil (Nat.toDigits_ne_nil (b := 10) (n := n))
  refine ⟨c, cs, hdigits, Nat.isDigit_of_mem_toDigits (b := 10) (n := n) (by decide) (by decide) ?_⟩
  rw [hdigits]
  exact List.mem_cons_self

theorem toList_toString (n : Nat) : (toString n).toList = Nat.toDigits 10 n := by
  rw [Nat.toString_eq_ofList_toDigits, String.toList_ofList]

theorem opening_digit {c : Char} (hc : c.isDigit = true) : Opening c := by
  have hmarks : (blanks ++ [',', ']', '\x7d']).all (fun d => !d.isDigit) = true := by decide
  intro hmem
  have hnot := List.all_eq_true.mp hmarks c hmem
  rw [hc] at hnot
  cases hnot

theorem IsValue.opens {tree : Tree} {text : List Char} (h : IsValue tree text) :
    ∃ c cs, text = c :: cs ∧ Opening c := by
  cases h with
  | true => exact ⟨'t', _, rfl, by unfold Opening; decide⟩
  | false => exact ⟨'f', _, rfl, by unfold Opening; decide⟩
  | number n =>
      obtain ⟨c, cs, hdigits, hc⟩ := toDigits_eq_cons n
      exact ⟨c, cs, (toList_toString n).trans hdigits, opening_digit hc⟩
  | string h =>
      obtain ⟨body, -, rfl⟩ := h
      exact ⟨'"', _, rfl, by unfold Opening; decide⟩
  | array => exact ⟨'[', _, rfl, by unfold Opening; decide⟩
  | object => exact ⟨'\x7b', _, rfl, by unfold Opening; decide⟩

theorem Opening.not_blank {c : Char} (h : Opening c) : c ∉ blanks :=
  fun hblank => h (List.mem_append_left _ hblank)

section Reads

variable {α : Type} {read inner : Input → Outcome (α × Input)} {tree : Tree} {a : α}

/-- The reader reads every text of the tree as the value. -/
def Reads (read : Input → Outcome (α × Input)) (tree : Tree) (a : α) : Prop :=
  ∀ ⦃before text rest⦄, (∀ c ∈ before, c ∈ blanks) → IsValue tree text → Delimited rest →
    read (input before ++ (input text ++ rest)) = .ok (a, rest)

theorem Reads.of_value (h : ∀ ⦃text rest⦄, IsValue tree text → Delimited rest →
    inner (input text ++ rest) = .ok (a, rest)) : Reads (value inner) tree a := by
  intro before text rest hbefore htext hrest
  have hinner := h htext hrest
  obtain ⟨c, cs, rfl, hc⟩ := htext.opens
  rw [input_cons, List.cons_append] at hinner ⊢
  rw [value, skipBlanks_to hbefore hc.not_blank]
  exact hinner

theorem Reads.value (h : Reads read tree a) {text : List Char} {rest : Input}
    (htext : IsValue tree text) (hrest : Delimited rest) :
    read (input text ++ rest) = .ok (a, rest) :=
  h (List.forall_mem_nil _) htext hrest

theorem Reads.text (h : Reads read tree a) {text : List Char} {rest : Input}
    (htext : IsText tree text) (hrest : Delimited rest) :
    ∃ after : List Char, (∀ c ∈ after, c ∈ blanks) ∧
      read (input text ++ rest) = .ok (a, input after ++ rest) := by
  cases htext with
  | intro hvalue haround =>
      obtain ⟨before, after, hbefore, hafter, rfl⟩ := haround
      refine ⟨after, hafter, ?_⟩
      simp only [input_append, List.append_assoc]
      exact h hbefore hvalue (hrest.after hafter)

end Reads

theorem reads_bool (b : Bool) : Reads bool (.bool b) b := by
  refine Reads.of_value fun _ _ htext _ => ?_
  cases htext with
  | true => rfl
  | false => rfl

/-! ## Strings -/

theorem fourHexDigits_append {digits : List Char} {n : Nat} (h : FourDigits digits n)
    (rest : Input) : fourHexDigits (input digits ++ rest) = .ok (n, rest) := by
  obtain @⟨a, b, c, d, w, x, y, z, ha, hb, hc, hd⟩ := h
  have hcount : ¬ Text.byteCount [some a, some b, some c, some d] < 4 := by
    have hpos := fun e : Char => Char.utf8Size_pos e
    have ha := hpos a
    have hb := hpos b
    have hc := hpos c
    have hd := hpos d
    simp only [Text.byteCount, List.foldl_cons, List.foldl_nil, Option.map_some, Option.getD_some]
    omega
  simp only [input_cons, input_nil, List.cons_append, List.nil_append]
  unfold fourHexDigits
  rw [List.take_succ_cons, List.take_succ_cons, List.take_succ_cons, List.take_succ_cons,
    List.take_zero, if_neg hcount]
  simp [ha, hb, hc, hd]

theorem isTrailing_eq_false {n : Nat} (h : n < 0xdc00 ∨ 0xe000 ≤ n) : isTrailing n = false := by
  simp only [isTrailing, Bool.and_eq_false_iff, decide_eq_false_iff_not]
  omega

theorem isLeading_eq_false {n : Nat} (h : n < 0xd800 ∨ 0xdc00 ≤ n) : isLeading n = false := by
  simp only [isLeading, Bool.and_eq_false_iff, decide_eq_false_iff_not]
  omega

/-- Characters are no surrogates. -/
theorem escape_numbered {c : Char} {digits : List Char} (h : FourDigits digits c.toNat)
    (rest : Input) : escape (some 'u' :: (input digits ++ rest)) = .ok (c, rest) := by
  have hscalar : c.toNat < 0xd800 ∨ 0xe000 ≤ c.toNat := c.valid.imp id fun h => h.1
  have htrailing : isTrailing c.toNat = false := isTrailing_eq_false (hscalar.imp_left fun h => by omega)
  have hleading : isLeading c.toNat = false := isLeading_eq_false (hscalar.imp_right fun h => by omega)
  simp [escape, numberedCharacter, fourHexDigits_append h, htrailing, hleading, Char.ofNat_toNat]

theorem escape_paired {c : Char} {high low : List Char} {a b : Nat}
    (hhigh : FourDigits high (0xd800 + a)) (hlow : FourDigits low (0xdc00 + b)) (ha : a < 0x400)
    (hb : b < 0x400) (hc : c.toNat = 0x10000 + 0x400 * a + b) (rest : Input) :
    escape (some 'u' :: (input high ++ some '\\' :: some 'u' :: (input low ++ rest))) =
      .ok (c, rest) := by
  have hleading : isLeading (0xd800 + a) = true := by
    simp only [isLeading, Bool.and_eq_true, decide_eq_true_eq]
    omega
  have htrailing : isTrailing (0xdc00 + b) = true := by
    simp only [isTrailing, Bool.and_eq_true, decide_eq_true_eq]
    omega
  have hchar : Char.ofNat (0x10000 + 0x400 * (0xd800 + a - 0xd800) + (0xdc00 + b - 0xdc00)) = c := by
    rw [Nat.add_sub_cancel_left, Nat.add_sub_cancel_left, ← hc, Char.ofNat_toNat]
  simp only [escape, numberedCharacter, fourHexDigits_append hhigh,
    isTrailing_eq_false (.inl (by omega : 0xd800 + a < 0xdc00)), hleading,
    fourHexDigits_append hlow, htrailing, hchar]
  rfl

theorem Spells.cases_escape {c : Char} {text : List Char} (h : Spells c text) :
    (isPlain (some c) = true ∧ text = [c]) ∨
    ∃ letters, text = '\\' :: letters ∧
      ∀ rest, escape (input letters ++ rest) = .ok (c, rest) := by
  cases h with
  | itself hcontrol hquote hbackslash =>
      refine .inl ⟨?_, rfl⟩
      simp [isPlain, isControl, hquote, hbackslash, hcontrol]
  | letter h =>
      refine .inr ⟨_, rfl, ?_⟩
      simp only [shortEscapes, List.mem_cons, Prod.mk.injEq, List.not_mem_nil, or_false] at h
      rcases h with ⟨rfl, rfl⟩ | ⟨rfl, rfl⟩ | ⟨rfl, rfl⟩ | ⟨rfl, rfl⟩ | ⟨rfl, rfl⟩ | ⟨rfl, rfl⟩ |
        ⟨rfl, rfl⟩ | ⟨rfl, rfl⟩ <;> exact fun _ => rfl
  | numbered hdigits => exact .inr ⟨_, rfl, escape_numbered hdigits⟩
  | paired hhigh hlow ha hb hc =>
      refine .inr ⟨_, rfl, fun rest => ?_⟩
      simp only [input_cons, input_append, List.cons_append, List.append_assoc]
      exact escape_paired hhigh hlow ha hb hc rest

theorem characters_plain {c : Char} (hc : isPlain (some c) = true) (fuel : Nat) (rest : Input) :
    characters (fuel + 1) (some c :: rest) =
      (characters (fuel + 1) rest).map fun (cs, rest) => (some c :: cs, rest) := by
  -- A plain character only lengthens the run that is taken at once; it uses no fuel.
  unfold characters
  rw [List.takeWhile_cons_of_pos hc, List.dropWhile_cons_of_pos hc]
  split
  case h_1 => rfl
  case h_2 => rfl
  case h_3 rest' _ =>
    cases escape rest' with
    | error e => rfl
    | ok found =>
        obtain ⟨c', rest⟩ := found
        dsimp only
        cases characters fuel rest <;> rfl
  case h_4 => rfl

theorem characters_escape {c : Char} {letters : List Char}
    (h : ∀ rest, escape (input letters ++ rest) = .ok (c, rest)) (fuel : Nat) (rest : Input) :
    characters (fuel + 1) (some '\\' :: (input letters ++ rest)) =
      (characters fuel rest).map fun (cs, rest) => (some c :: cs, rest) := by
  have hplain : isPlain (some '\\') = false := rfl
  rw [characters, List.takeWhile_cons_of_neg (by simp [hplain]),
    List.dropWhile_cons_of_neg (by simp [hplain])]
  simp only [h]
  rfl

theorem characters_body {cs text : List Char} (h : IsBody cs text) {fuel : Nat}
    (hfuel : cs.length < fuel) (rest : Input) :
    characters fuel (input text ++ some '"' :: rest) = .ok (input cs, rest) := by
  induction h generalizing fuel with
  | nil =>
      obtain ⟨fuel, rfl⟩ := Nat.exists_eq_succ_of_ne_zero (Nat.ne_of_gt hfuel)
      rfl
  | cons hspells _ ih =>
      obtain ⟨fuel, rfl⟩ := Nat.exists_eq_succ_of_ne_zero (Nat.ne_of_gt (Nat.zero_lt_of_lt hfuel))
      rw [List.length_cons, Nat.succ_lt_succ_iff] at hfuel
      rw [input_append, List.append_assoc]
      rcases hspells.cases_escape with ⟨hplain, rfl⟩ | ⟨letters, rfl, hescape⟩
      · rw [input_cons, input_nil, List.singleton_append, characters_plain hplain,
          ih (Nat.lt_succ_of_lt hfuel)]
        rfl
      · rw [input_cons, List.cons_append, characters_escape hescape, ih hfuel]
        rfl

theorem IsBody.length_le {cs text : List Char} (h : IsBody cs text) : cs.length ≤ text.length := by
  induction h with
  | nil => exact Nat.le_refl _
  | cons hspells _ ih =>
      rcases hspells.cases_escape with ⟨-, rfl⟩ | ⟨letters, rfl, -⟩
      · simpa using ih
      · simp only [List.length_append, List.length_cons]
        omega

theorem text?_input (s : String) : Text.text? (input s.toList) = some s := by
  rw [Text.text?, input, List.mapM_map, Function.id_comp]
  change Option.map String.ofList (s.toList.mapM pure) = some s
  rw [List.mapM_pure]
  simp

theorem stringBody_body {s : String} {body : List Char} (h : IsBody s.toList body) (rest : Input) :
    stringBody (input body ++ some '"' :: rest) = .ok (s, rest) := by
  have hfuel : s.toList.length < (input body ++ some '"' :: rest).length + 1 := by
    have hlength := h.length_le
    rw [List.length_append, length_input]
    omega
  unfold stringBody
  rw [characters_body h hfuel]
  dsimp only
  rw [text?_input]

theorem IsLiteral.input_append {s : String} {text : List Char} (h : IsLiteral s text)
    (rest : Input) : ∃ tail, input text ++ rest = some '"' :: tail ∧ stringBody tail = .ok (s, rest) := by
  obtain ⟨body, hbody, rfl⟩ := h
  refine ⟨_, ?_, stringBody_body hbody rest⟩
  simp only [input_cons, Json.input_append, input_nil, List.cons_append, List.append_assoc,
    List.nil_append]

theorem reads_string (s : String) : Reads string (.string s) s := by
  refine Reads.of_value fun _ _ htext _ => ?_
  cases htext with
  | string hliteral =>
      obtain ⟨tail, htail, hbody⟩ := hliteral.input_append _
      rw [htail]
      exact hbody

/-! ## Numbers -/

section Numbers

variable {c : Char} {ds : List Char} {rest : Input} {n bound : Nat}

theorem digit?_of_isDigit (hc : c.isDigit = true) : digit? (some c) = some (c.toNat - '0'.toNat) := by
  rw [Char.isDigit, Bool.and_eq_true, decide_eq_true_eq, decide_eq_true_eq] at hc
  exact if_pos hc

theorem Delimited.startsWithDigit (h : Delimited rest) : startsWithDigit rest = false := by
  cases h with
  | done => rfl
  | mark rest hc =>
      have hmarks : (blanks ++ [',', ']', '\x7d']).all (fun c => !isDigit (some c)) = true := by decide
      have hnot := List.all_eq_true.mp hmarks _ hc
      simpa [Json.startsWithDigit] using hnot

theorem le_ofDigitChars (ds : List Char) (n : Nat) : n ≤ Nat.ofDigitChars 10 ds n := by
  induction ds generalizing n with
  | nil => exact Nat.le_refl n
  | cons c ds ih =>
      rw [Nat.ofDigitChars_cons]
      exact Nat.le_trans (by omega) (ih _)

theorem digitsBelow_digits (hds : ∀ c ∈ ds, c.isDigit = true) (hrest : startsWithDigit rest = false)
    (hbound : Nat.ofDigitChars 10 ds n < bound) :
    digitsBelow bound n (input ds ++ rest) = (Nat.ofDigitChars 10 ds n, ds.length, rest) := by
  induction ds generalizing n with
  | nil =>
      cases rest with
      | nil => rfl
      | cons c rest =>
          have hnone : digit? c = none := by
            simpa [Json.startsWithDigit, isDigit] using hrest
          simp [digitsBelow, hnone]
  | cons c ds ih =>
      obtain ⟨hc, hds⟩ := List.forall_mem_cons.mp hds
      rw [Nat.ofDigitChars_cons] at hbound
      have hnext := Nat.lt_of_le_of_lt (le_ofDigitChars ds _) hbound
      rw [input_cons, List.cons_append, digitsBelow, digit?_of_isDigit hc]
      dsimp only
      rw [if_pos hnext, ih hds hbound, Nat.ofDigitChars_cons, List.length_cons]

theorem toDigits_head (hn : n ≠ 0) : ∃ c cs, Nat.toDigits 10 n = c :: cs ∧ c ≠ '0' := by
  induction n using Nat.strongRecOn with
  | ind n ih =>
  by_cases hsmall : n < 10
  · refine ⟨Nat.digitChar n, [], Nat.toDigits_of_lt_base hsmall, ?_⟩
    have hdigit : ∀ d < 10, d ≠ 0 → Nat.digitChar d ≠ '0' := by decide
    exact hdigit n hsmall hn
  · obtain ⟨c, cs, hcs, hc⟩ := ih (n / 10) (by omega) (by omega)
    refine ⟨c, cs ++ [Nat.digitChar (n % 10)], ?_, hc⟩
    rw [Nat.toDigits_of_base_le (by omega) (by omega), hcs, List.cons_append]

theorem isDigit_toDigits (n : Nat) : ∀ c ∈ Nat.toDigits 10 n, c.isDigit = true :=
  fun _ hc => Nat.isDigit_of_mem_toDigits (by decide) (by decide) hc

theorem startsWithDigit_cons (hc : c.isDigit = true) (rest : Input) :
    startsWithDigit (some c :: rest) = true := by
  simp [Json.startsWithDigit, isDigit, digit?_of_isDigit hc]

theorem takeWhile_isDigit (hrest : startsWithDigit rest = false) :
    rest.takeWhile isDigit = [] ∧ rest.dropWhile isDigit = rest := by
  cases rest with
  | nil => exact ⟨rfl, rfl⟩
  | cons c rest =>
      have hc : isDigit c = false := by simpa [Json.startsWithDigit] using hrest
      exact ⟨List.takeWhile_cons_of_neg (by simp [hc]), List.dropWhile_cons_of_neg (by simp [hc])⟩

theorem wholePart_digits (hn : n < significandBound) (hrest : startsWithDigit rest = false) :
    wholePart (input (Nat.toDigits 10 n) ++ rest) = .ok (⟨n, 0, true⟩, rest) := by
  by_cases hzero : n = 0
  · subst hzero
    change (if Json.startsWithDigit rest = true then _ else _) = _
    rw [hrest]
    rfl
  · obtain ⟨c, cs, hdigits, hc⟩ := toDigits_head hzero
    have hvalue : Nat.ofDigitChars 10 (Nat.toDigits 10 n) 0 = n :=
      Nat.ofDigitChars_toDigits (by decide) (by decide)
    have hbelow := digitsBelow_digits (isDigit_toDigits n) hrest (hvalue.symm ▸ hn)
    have hdigit : c.isDigit = true := isDigit_toDigits n c (by rw [hdigits]; exact List.mem_cons_self)
    obtain ⟨hnone, hall⟩ := takeWhile_isDigit hrest
    rw [hvalue, hdigits, input_cons, List.cons_append] at hbelow
    rw [hdigits, input_cons, List.cons_append]
    unfold wholePart
    split
    case h_1 heq => cases heq
    case h_2 heq =>
      cases heq
      exact absurd rfl hc
    case h_3 =>
      rw [if_pos (startsWithDigit_cons hdigit _), hbelow]
      dsimp only
      rw [hnone, hall]
      rfl

theorem found_digit (hc : c.isDigit = true) (rest : Input) :
    found (some c :: rest) = number false (some c :: rest) := by
  unfold found
  split
  case h_8 => rw [if_pos (startsWithDigit_cons hc rest)]
  all_goals
    rename_i heq
    cases heq
    exact absurd hc (by decide)

/-- Neither a fraction nor an exponent follows. -/
theorem number_digits (hn : n < significandBound) (hrest : Delimited rest) :
    number false (input (Nat.toDigits 10 n) ++ rest) = .ok (.unsigned n, rest) := by
  have hwhole := wholePart_digits hn hrest.startsWithDigit
  unfold number
  rw [hwhole]
  cases hrest with
  | done => rfl
  | mark rest hc =>
      simp only [blanks, List.cons_append, List.nil_append, List.mem_cons, List.not_mem_nil,
        or_false] at hc
      rcases hc with rfl | rfl | rfl | rfl | rfl | rfl | rfl <;> rfl

theorem reads_unsigned (hbound : bound ≤ significandBound) (expected : String) (hn : n < bound) :
    Reads (unsigned bound expected) (.number n) n := by
  refine Reads.of_value fun text rest htext hrest => ?_
  cases htext with
  | number =>
      obtain ⟨c, cs, hdigits, hc⟩ := toDigits_eq_cons n
      have hnumber := number_digits (Nat.lt_of_lt_of_le hn hbound) hrest
      rw [hdigits, input_cons, List.cons_append] at hnumber
      rw [toList_toString, hdigits, input_cons, List.cons_append, found_digit hc, hnumber]
      exact if_pos hn

end Numbers

end IconConstraints.Json
