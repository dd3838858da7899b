import IconConstraints.Proofs.LineCounts
import IconConstraints.Proofs.LineRuns
import IconConstraints.Proofs.WithinLines

/-!
# Line ends with carriage returns

Between tokens a carriage return before a line end changes nothing.  Inside a string
literal it becomes part of the contents, or stands between a backslash and the line end
that the backslash was to hide.  So a text and its form with carriage returns are read
alike exactly if no string literal spans a line end, or if neither can be read.
-/

namespace IconConstraints.Source

variable {c : Char} {cs rest : List Char} {line : Nat} {current : Option OpenLine}
  {done lines : List LogicalLine} {o : OpenLine}

/-! ## Texts with carriage returns -/

/-- The text with a carriage return before every line end. -/
def withReturns : List Char → List Char
  | [] => []
  | c :: cs => if c = '\n' then '\r' :: '\n' :: withReturns cs else c :: withReturns cs

theorem withReturns_cons (hc : c ≠ '\n') (cs : List Char) :
    withReturns (c :: cs) = c :: withReturns cs := by
  rw [withReturns, if_neg hc]

theorem withReturns_lineEnd (cs : List Char) :
    withReturns ('\n' :: cs) = '\r' :: '\n' :: withReturns cs :=
  rfl

theorem recasts_withReturns : Recasts withReturns where
  cons _ _ hc := withReturns_cons hc _
  nil := .inl rfl
  lineEnd _ := .inr ⟨_, _, rfl, .inr rfl⟩

theorem skipComment_withReturns (cs : List Char) :
    skipComment (withReturns cs) =
      match skipComment cs with
      | [] => []
      | _ :: rest => '\n' :: withReturns rest := by
  induction cs with
  | nil => rfl
  | cons c cs ih =>
      by_cases hc : c = '\n'
      · subst hc
        rfl
      · simpa [withReturns_cons hc, skipComment, hc] using ih

theorem joinedLine?_withReturns (hplain : '\r' ∉ c :: cs) (hc : c ≠ '\n') :
    joinedLine? (c :: withReturns cs) = (joinedLine? (c :: cs)).map withReturns := by
  by_cases hslash : c = '\\'
  · subst hslash
    cases cs with
    | nil => rfl
    | cons d cs =>
        have hd : d ≠ '\r' := by
          rintro rfl
          simp at hplain
        by_cases hfeed : d = '\n'
        · subst hfeed
          rfl
        · simp [withReturns_cons hfeed, joinedLine?, hfeed, hd]
  · simp [joinedLine?, hslash]

/-! ## Strings -/

/-- A text that was read with `j` carriage returns in it, beside the same text without. -/
structure Gained (j : Nat) (out out' : List Char) : Prop where
  same : j = 0 → out' = out
  longer : out.length + j ≤ out'.length

namespace Gained

variable {j : Nat} {out out' : List Char}

theorem refl (out : List Char) : Gained 0 out out :=
  ⟨fun _ => rfl, Nat.le_refl _⟩

theorem append (h : Gained j out out') (chars : List Char) :
    Gained j (chars ++ out) (chars ++ out') := by
  refine ⟨fun hj => by rw [h.same hj], ?_⟩
  have := h.longer
  simp only [List.length_append]
  omega

theorem lineEnd (h : Gained j out out') : Gained (j + 1) ('\n' :: out) ('\n' :: '\r' :: out') := by
  refine ⟨fun hj => absurd hj (Nat.succ_ne_zero j), ?_⟩
  have := h.longer
  simp only [List.length_cons]
  omega

theorem hidden (h : Gained j out out') : Gained (j + 1) out ('\n' :: '\r' :: '\\' :: out') := by
  refine ⟨fun hj => absurd hj (Nat.succ_ne_zero j), ?_⟩
  have := h.longer
  simp only [List.length_cons]
  omega

theorem value_eq_iff (h : Gained j out out') :
    String.ofList out'.reverse = String.ofList out.reverse ↔ j = 0 := by
  rw [String.ofList_inj, List.reverse_inj]
  constructor
  · rintro rfl
    have := h.longer
    omega
  · exact h.same

end Gained

/-- How a literal is read with carriage returns, beside how it is read without them, where `n`
line ends and `j` carriage returns came before. -/
inductive StringFollows (n j : Nat) :
    Except Stop (Reading String) → Except Stop (Reading String) → Prop
  | read {r : Reading String} {value : String} (k : Nat) (hends : r.lineEnds = n + k)
      (hvalue : value = r.value ↔ j + k = 0) :
      StringFollows n j (.ok r) (.ok ⟨value, withReturns r.rest, r.lineEnds⟩)
  | cut {r : Reading String} (stop : Stop) (hends : n < r.lineEnds) :
      StringFollows n j (.ok r) (.error stop)
  | failed (stop stop' : Stop) : StringFollows n j (.error stop) (.error stop')

theorem StringFollows.lineEnd {n j : Nat} {x y : Except Stop (Reading String)}
    (h : StringFollows (n + 1) (j + 1) x y) : StringFollows n j x y := by
  cases h with
  | read k hends hvalue => exact .read (k + 1) (by omega) (by rw [hvalue]; omega)
  | cut stop hends => exact .cut stop (by omega)
  | failed stop stop' => exact .failed stop stop'

theorem escape_return (cs : List Char) : escape '\r' cs = .ok (['\\', '\r'], cs) :=
  rfl

theorem stringBody_return {quote : Char} {triple raw : Bool} {out : List Char} {n : Nat}
    (hquote : isQuote quote = true) (cs : List Char) :
    stringBody quote triple raw out n ('\r' :: cs) =
      stringBody quote triple raw ('\r' :: out) n cs :=
  stringBody_plain (fun heq => absurd heq.symm (isQuote_ne hquote).2) (by decide) (by decide)

/-- A backslash before a line end with a carriage return, which is then all that it escapes. -/
theorem stringBody_backslash_return {quote : Char} {triple raw : Bool} {out : List Char} {n : Nat}
    (hquote : isQuote quote = true) (cs : List Char) :
    stringBody quote triple raw out n ('\\' :: '\r' :: '\n' :: cs) =
      if triple then stringBody quote triple raw ('\n' :: '\r' :: '\\' :: out) (n + 1) cs
      else .error ⟨.lineEndInString, n⟩ := by
  cases raw with
  | true => rw [stringBody_raw hquote, if_neg (by decide), stringBody_lineEnd hquote]
  | false =>
      rw [stringBody_escape hquote (escape_return _), if_neg (by decide)]
      exact stringBody_lineEnd hquote

/-- Without its carriage return the line end would have been hidden in the literal. -/
theorem stringBody_cut {quote : Char} {triple raw : Bool} {out : List Char} {n j : Nat}
    (hquote : isQuote quote = true) (cs : List Char) (stop : Stop) :
    StringFollows n j (stringBody quote triple raw out (n + 1) cs) (.error stop) := by
  cases hread : stringBody quote triple raw out (n + 1) cs with
  | error stop' => exact .failed stop' stop
  | ok r =>
      obtain ⟨k, hk, -⟩ := stringBody_leaves (isQuote_ne hquote).1 hread
      exact .cut stop (by omega)

theorem stringBody_withReturns {quote : Char} {triple raw : Bool} {out out' : List Char} {n j : Nat}
    (hquote : isQuote quote = true) (hout : Gained j out out') (cs : List Char) :
    StringFollows n j (stringBody quote triple raw out n cs)
      (stringBody quote triple raw out' n (withReturns cs)) := by
  have hclosing (t : List Char) :
      closing? quote triple (withReturns t) = (closing? quote triple t).map withReturns :=
    recasts_withReturns.closing?_eq (isQuote_ne hquote) triple t
  induction out, n, cs using stringBody_steps quote triple raw generalizing out' j with
  | ended =>
      rw [withReturns, stringBody_nil, stringBody_nil]
      exact .failed _ _
  | @closed out n cs left hclose =>
      have hclose' : closing? quote triple (withReturns cs) = some (withReturns left) := by
        rw [hclosing, hclose, Option.map_some]
      rw [withReturns_cons (isQuote_ne hquote).1, stringBody_close hclose, stringBody_close hclose']
      exact .read 0 rfl hout.value_eq_iff
  | @lineEnd out n cs ih =>
      rw [withReturns_lineEnd, stringBody_return hquote, stringBody_lineEnd hquote,
        stringBody_lineEnd hquote]
      cases triple with
      | false => exact .failed _ _
      | true => exact (ih hout.lineEnd).lineEnd
  | backslash =>
      rw [withReturns_cons (by decide), withReturns, stringBody_backslash hquote,
        stringBody_backslash hquote]
      exact .failed _ _
  | @kept out n d cs hraw ih =>
      subst hraw
      rw [withReturns_cons (by decide), stringBody_raw hquote]
      by_cases hfeed : d = '\n'
      · subst hfeed
        rw [if_pos rfl] at ih ⊢
        rw [withReturns_lineEnd, stringBody_backslash_return hquote]
        -- The backslash now hides the carriage return, and the line end stands for itself.
        cases triple with
        | false => exact stringBody_cut hquote cs _
        | true => exact (ih (hout.append ['\\']).lineEnd).lineEnd
      · rw [if_neg hfeed] at ih ⊢
        rw [withReturns_cons hfeed, stringBody_raw hquote, if_neg hfeed]
        exact ih (hout.append [d, '\\'])
  | @escaped out n d cs chars rest hraw hescape ih =>
      subst hraw
      rw [withReturns_cons (by decide), stringBody_escape hquote hescape]
      by_cases hfeed : d = '\n'
      · subst hfeed
        cases hescape
        rw [if_pos rfl] at ih ⊢
        rw [withReturns_lineEnd, stringBody_backslash_return hquote]
        cases triple with
        | false => exact stringBody_cut hquote cs _
        | true => exact (ih hout.hidden).lineEnd
      · have hescape' := recasts_withReturns.escape_iff.mpr ⟨rest, rfl, hescape⟩
        rw [if_neg hfeed] at ih ⊢
        rw [withReturns_cons hfeed, stringBody_escape hquote hescape', if_neg hfeed]
        exact ih (hout.append chars.reverse)
  | @badEscape out n d cs fault hraw hescape =>
      subst hraw
      have hfeed : d ≠ '\n' := by rintro rfl; cases hescape
      obtain ⟨fault', hescape'⟩ := recasts_withReturns.escape_error hescape
      rw [withReturns_cons (by decide), withReturns_cons hfeed, stringBody_badEscape hquote hescape,
        stringBody_badEscape hquote hescape']
      exact .failed _ _
  | @plain out n c cs hopen hline hslash ih =>
      have hopen' (hc : c = quote) : closing? quote triple (withReturns cs) = none := by
        rw [hclosing, hopen hc, Option.map_none]
      rw [withReturns_cons hline, stringBody_plain hopen hline hslash,
        stringBody_plain hopen' hline hslash]
      exact ih (hout.append [c])

theorem stringLiteral_withReturns {quote : Char} (hquote : isQuote quote = true) (raw : Bool)
    (cs : List Char) :
    StringFollows 0 0 (stringLiteral raw (quote :: cs))
      (stringLiteral raw (quote :: withReturns cs)) := by
  rw [stringLiteral_cons, stringLiteral_cons,
    recasts_withReturns.closing?_eq (isQuote_ne hquote) true cs]
  cases closing? quote true cs with
  | none => exact stringBody_withReturns hquote (.refl []) cs
  | some rest => exact stringBody_withReturns hquote (.refl []) rest

/-! ## Lexemes -/

/-- Whether a lexeme is a string literal that does not end on the line where it begins. -/
def Reading.isSpanning (r : Reading Lexeme) : Bool :=
  match r.value with
  | .token (.str _) => r.lineEnds != 0
  | _ => false

inductive LexemeFollows : Except Stop (Reading Lexeme) → Except Stop (Reading Lexeme) → Prop
  | read {r : Reading Lexeme} (hwithin : r.isSpanning = false) :
      LexemeFollows (.ok r) (.ok (r.recast withReturns))
  | altered {s s' : String} {rest : List Char} {n : Nat} (hends : n ≠ 0) (hvalue : s' ≠ s) :
      LexemeFollows (.ok ⟨.token (.str s), rest, n⟩) (.ok ⟨.token (.str s'), withReturns rest, n⟩)
  | cut {r : Reading Lexeme} (stop : Stop) (hspanning : r.isSpanning = true) :
      LexemeFollows (.ok r) (.error stop)
  | failed (stop stop' : Stop) : LexemeFollows (.error stop) (.error stop')

theorem stringLexeme_withReturns {quote : Char} (hquote : isQuote quote = true) (raw : Bool)
    (cs : List Char) :
    LexemeFollows (stringLexeme raw (quote :: cs))
      (stringLexeme raw (quote :: withReturns cs)) := by
  have hfollows := stringLiteral_withReturns hquote raw cs
  unfold stringLexeme
  generalize stringLiteral raw (quote :: cs) = x at hfollows ⊢
  generalize stringLiteral raw (quote :: withReturns cs) = y at hfollows ⊢
  cases hfollows with
  | failed stop stop' => exact .failed stop stop'
  | @cut r stop hends =>
      refine .cut stop ?_
      simpa [Reading.isSpanning, Reading.map] using Nat.ne_of_gt hends
  | @read r value k hends hvalue =>
      obtain ⟨s, rest, n⟩ := r
      by_cases hk : n = 0
      · obtain rfl : value = s := hvalue.mpr (by simpa [hk] using hends.symm)
        exact .read (by simp [Reading.isSpanning, Reading.map, hk])
      · exact .altered hk fun heq => hk (by have := hvalue.mp heq; simp only at hends; omega)

theorem plainLexeme_isSpanning {r : Reading Lexeme} (hc : c ≠ '\n') (h : plainLexeme c cs = .ok r) :
    r.isSpanning = false := by
  have hends := (plainLexeme_leaves hc h).1
  unfold Reading.isSpanning
  split <;> simp [hends]

/-- Comments apart, which also lose the carriage return of their line end. -/
theorem lexeme_withReturns (hplain : '\r' ∉ c :: cs) (hcomment : c ≠ '#') (hline : c ≠ '\n') :
    LexemeFollows (lexeme c cs) (lexeme c (withReturns cs)) := by
  have hjoining := joinedLine?_withReturns hplain hline
  cases hjoin : joinedLine? (c :: cs) with
  | some rest =>
      rw [hjoin] at hjoining
      rw [lexeme_joined hjoin, lexeme_joined hjoining]
      exact .read rfl
  | none =>
      rw [hjoin] at hjoining
      have hstrings := recasts_withReturns.announced?_eq hline cs
      cases hstring : announced? (c :: cs) with
      | some found =>
          obtain ⟨raw, text⟩ := found
          obtain ⟨-, quote, after, rfl, hquote⟩ := announced?_split hstring
          rw [hstring, Option.map_some, withReturns_cons (isQuote_ne hquote).1] at hstrings
          rw [lexeme_string hstring, lexeme_string hstrings]
          exact stringLexeme_withReturns hquote raw after
      | none =>
          rw [hstring] at hstrings
          rw [lexeme_plain hcomment hline hjoin hstring,
            lexeme_plain hcomment hline hjoining hstrings, recasts_withReturns.plainLexeme_eq hline]
          cases hplain : plainLexeme c cs with
          | error stop => exact .failed stop stop
          | ok r => exact .read (plainLexeme_isSpanning hline hplain)

/-! ## Lines with carriage returns -/

/-- Whether every string literal up to the first error ends on the line where it begins. -/
def stringsWithinLines : List Char → Bool
  | [] => true
  | c :: cs =>
    match _read : lexeme c cs with
    | .error _ => true
    | .ok r => !r.isSpanning && stringsWithinLines r.rest
  termination_by cs => cs.length
  decreasing_by exact Nat.lt_succ_of_le (lexeme_rest_length _read)

theorem stringsWithinLines_nil : stringsWithinLines [] = true := by
  rw [stringsWithinLines]

theorem stringsWithinLines_read {r : Reading Lexeme} (hread : lexeme c cs = .ok r) :
    stringsWithinLines (c :: cs) = (!r.isSpanning && stringsWithinLines r.rest) := by
  rw [stringsWithinLines]
  split <;> simp_all

theorem stringsWithinLines_gap {n : Nat} (hread : lexeme c cs = .ok ⟨.gap, rest, n⟩) :
    stringsWithinLines (c :: cs) = stringsWithinLines rest := by
  rw [stringsWithinLines_read hread]
  rfl

theorem stringsWithinLines_indentation (column : Nat) (cs : List Char) :
    stringsWithinLines (indentation column cs).2 = stringsWithinLines cs := by
  fun_induction indentation column cs with
  | case1 => rfl
  | case2 column cs ih => exact ih.trans (stringsWithinLines_gap (lexeme_blank cs)).symm
  | case3 column cs _ ih =>
      have hread : lexeme '\t' cs = .ok ⟨.gap, cs, 0⟩ := rfl
      exact ih.trans (stringsWithinLines_gap hread).symm
  | case4 column cs _ _ ih =>
      have hread : lexeme '\x0c' cs = .ok ⟨.gap, cs, 0⟩ := rfl
      exact ih.trans (stringsWithinLines_gap hread).symm
  | case5 => rfl

theorem stringsWithinLines_lineEnd (cs : List Char) :
    stringsWithinLines ('\n' :: cs) = stringsWithinLines cs := by
  rw [stringsWithinLines_read (lexeme_lineEnd cs)]
  rfl

theorem stringsWithinLines_comment (cs : List Char) :
    stringsWithinLines ('#' :: cs) = stringsWithinLines (skipComment cs) :=
  stringsWithinLines_gap (lexeme_comment cs)

theorem stringsWithinLines_blank (hblank : beginsBlank c = true) (hreturn : c ≠ '\r') :
    stringsWithinLines (c :: cs) = stringsWithinLines (skipComment (c :: cs)) := by
  have hcases : c = '\n' ∨ c = '#' := by simpa [beginsBlank, hreturn] using hblank
  obtain rfl | rfl := hcases
  · rfl
  · exact stringsWithinLines_comment cs

theorem linesFrom_return (cs : List Char) :
    linesFrom line (some o) done ('\r' :: cs) = linesFrom line (some o) done cs := by
  have hread : lexeme '\r' cs = .ok ⟨.gap, cs, 0⟩ := rfl
  exact linesFrom_gap hread

theorem linesFrom_skipComment (cs : List Char) :
    linesFrom line (some o) done (skipComment (withReturns cs)) =
      linesFrom line (some o) done (withReturns (skipComment cs)) := by
  rw [skipComment_withReturns]
  cases hskip : skipComment cs with
  | nil => rfl
  | cons c rest =>
      obtain rfl := skipComment_head hskip
      rw [withReturns_lineEnd, linesFrom_return]

theorem indentation_withReturns {text : List Char} {indent : Nat} (hplain : '\r' ∉ cs)
    (hindent : indentation 0 cs = (indent, text)) :
    '\r' ∉ text ∧ indentation 0 (withReturns cs) = (indent, withReturns text) ∧
      stringsWithinLines text = stringsWithinLines cs := by
  have hreturns := recasts_withReturns.indentation_eq 0 cs
  have hwithin := stringsWithinLines_indentation 0 cs
  have hsuffix := (indentation_leaves 0 cs).suffix
  rw [hindent] at hreturns hwithin hsuffix
  exact ⟨fun hmem => hplain (hsuffix.mem hmem), hreturns, hwithin⟩

theorem blank_withReturns {after : List Char} {indent : Nat} (hplain : '\r' ∉ cs)
    (hindent : indentation 0 cs = (indent, c :: after)) (hblank : beginsBlank c = true) :
    (∃ d rest, indentation 0 (withReturns cs) = (indent, d :: rest) ∧ beginsBlank d = true ∧
      skipComment (d :: rest) = match skipComment (c :: after) with
        | [] => []
        | _ :: left => '\n' :: withReturns left) ∧
      stringsWithinLines (skipComment (c :: after)) = stringsWithinLines cs := by
  obtain ⟨hplain, hreturns, hwithin⟩ := indentation_withReturns hplain hindent
  have hc : c ≠ '\r' := fun hc => hplain (by simp [hc])
  refine ⟨?_, (stringsWithinLines_blank hblank hc).symm.trans hwithin⟩
  rw [hreturns, ← skipComment_withReturns]
  by_cases hline : c = '\n'
  · subst hline
    exact ⟨_, _, rfl, rfl, rfl⟩
  · rw [withReturns_cons hline]
    exact ⟨_, _, rfl, hblank, rfl⟩

theorem linesFrom_altered {s s' : String} {n : Nat} (hvalue : s' ≠ s) (rest : List Char)
    (h : linesFrom line (some (o.push ⟨.str s, n⟩)) done cs = .ok lines) :
    linesFrom line (some (o.push ⟨.str s', n⟩)) done rest ≠ .ok lines := by
  intro h'
  -- Both token lists would be heads of the tokens of the same lines.
  have hprefix := tokensRead_prefix _ _ _ _ h
  have hprefix' := tokensRead_prefix _ _ _ _ h'
  rw [tokensRead_push] at hprefix hprefix'
  have hsame := List.prefix_of_prefix_length_le hprefix' hprefix (by simp)
  have heq := hsame.eq_of_length (by simp)
  simp [hvalue] at heq

/-- After a spanning literal the texts read alike only if neither can be read. -/
theorem linesFrom_altered_iff {s s' : String} {n : Nat} {rest : List Char} (hvalue : s' ≠ s)
    (hnone : (linesFrom line (some (o.push ⟨.str s, n⟩)) done cs).toOption = none →
      (linesFrom line (some (o.push ⟨.str s, n⟩)) done rest).toOption = none) :
    (linesFrom line (some (o.push ⟨.str s', n⟩)) done rest).toOption =
        (linesFrom line (some (o.push ⟨.str s, n⟩)) done cs).toOption ↔
      (linesFrom line (some (o.push ⟨.str s, n⟩)) done cs).toOption = none := by
  cases hlines : linesFrom line (some (o.push ⟨.str s, n⟩)) done cs with
  | ok lines =>
      have hother := linesFrom_altered hvalue rest hlines
      generalize linesFrom line (some (o.push ⟨.str s', n⟩)) done rest = y at hother
      cases y <;> simp_all [Except.toOption]
  | error e =>
      have hsome : (linesFrom line (some (o.push ⟨.str s', n⟩)) done rest).toOption.isSome =
          (linesFrom line (some (o.push ⟨.str s, n⟩)) done rest).toOption.isSome :=
        linesFrom_isSome_of_depth _ _ _ _ rfl
      rw [hnone (by rw [hlines]; rfl), Option.isSome_none, Option.isSome_eq_false_iff,
        Option.isNone_iff_eq_none] at hsome
      exact ⟨fun _ => rfl, fun _ => hsome⟩

theorem linesFrom_withReturns (line : Nat) (current : Option OpenLine) (done : List LogicalLine)
    (cs : List Char) (hplain : '\r' ∉ cs) :
    (linesFrom line current done (withReturns cs)).toOption =
        (linesFrom line current done cs).toOption ↔
      (linesFrom line current done cs).toOption = none ∨ stringsWithinLines cs = true := by
  induction line, current, done, cs using linesFrom_steps with
  | indented hindent =>
      obtain ⟨-, hreturns, hwithin⟩ := indentation_withReturns hplain hindent
      rw [linesFrom_indented hreturns, linesFrom_indented hindent, ← hwithin,
        stringsWithinLines_nil]
      simp
  | @begins line done cs indent c after hindent hblank ih =>
      obtain ⟨hplain, hreturns, hwithin⟩ := indentation_withReturns hplain hindent
      have hline : c ≠ '\n' := by rintro rfl; cases hblank
      rw [withReturns_cons hline] at hreturns ih
      rw [linesFrom_begin hreturns hblank, linesFrom_begin hindent hblank, ← hwithin]
      exact ih hplain
  | blankEnd hindent hblank hskip =>
      obtain ⟨⟨d, rest, hreturns, hblank', hskip'⟩, hwithin⟩ :=
        blank_withReturns hplain hindent hblank
      rw [hskip] at hskip' hwithin
      rw [linesFrom_blank_end hreturns hblank' hskip', linesFrom_blank_end hindent hblank hskip,
        ← hwithin, stringsWithinLines_nil]
      simp
  | @blank line done cs indent c after d left hindent hblank hskip ih =>
      obtain ⟨⟨d', rest, hreturns, hblank', hskip'⟩, hwithin⟩ :=
        blank_withReturns hplain hindent hblank
      obtain rfl := skipComment_head hskip
      rw [hskip] at hskip' hwithin
      rw [linesFrom_blank hreturns hblank' hskip', linesFrom_blank hindent hblank hskip, ← hwithin,
        stringsWithinLines_lineEnd]
      have hleaves := (indentation_leaves 0 cs).trans (skipComment_leaves _)
      rw [hindent, hskip] at hleaves
      exact ih fun hmem => hplain (hleaves.suffix.mem (by simp [hmem]))
  | ended => simp [withReturns, stringsWithinLines_nil]
  | @stopped line o done c after stop hread =>
      have hcomment : c ≠ '#' := by rintro rfl; cases (lexeme_comment after).symm.trans hread
      have hline : c ≠ '\n' := by rintro rfl; cases (lexeme_lineEnd after).symm.trans hread
      have hfollows := lexeme_withReturns hplain hcomment hline
      rw [hread] at hfollows
      generalize hread' : lexeme c (withReturns after) = y at hfollows
      cases hfollows with
      | failed _ stop' =>
          rw [withReturns_cons hline, linesFrom_error hread', linesFrom_error hread]
          simp [Except.toOption]
  | @read line o done c after value rest lineEnds hread ih =>
      have hsuffix := (lexeme_leaves hread).suffix
      have ih := ih fun hmem => hplain (hsuffix.mem hmem)
      by_cases hcomment : c = '#'
      · subst hcomment
        cases (lexeme_comment after).symm.trans hread
        rw [withReturns_cons (by decide), linesFrom_lexeme (lexeme_comment _),
          linesFrom_lexeme hread, stringsWithinLines_comment, OpenLine.read, linesFrom_skipComment]
        exact ih
      by_cases hline : c = '\n'
      · subst hline
        cases (lexeme_lineEnd after).symm.trans hread
        rw [withReturns_lineEnd, linesFrom_return, linesFrom_lexeme (lexeme_lineEnd _),
          linesFrom_lexeme hread, stringsWithinLines_lineEnd]
        exact ih
      have hfollows := lexeme_withReturns hplain hcomment hline
      rw [hread] at hfollows
      rw [withReturns_cons hline, linesFrom_lexeme hread, stringsWithinLines_read hread]
      generalize hread' : lexeme c (withReturns after) = y at hfollows
      cases hfollows with
      | read hwithin =>
          rw [linesFrom_lexeme hread', hwithin]
          exact ih
      | @altered s s' _ _ hends hvalue =>
          have hspanning : Reading.isSpanning ⟨.token (.str s), rest, lineEnds⟩ = true := by
            simpa [Reading.isSpanning] using hends
          -- With the token as it was, the rest would fail with carriage returns as without.
          have hnone := fun hnone => (ih.mpr (.inl hnone)).trans hnone
          rw [linesFrom_lexeme hread', hspanning, Bool.not_true, Bool.false_and, Bool.false_eq_true,
            or_false]
          exact linesFrom_altered_iff hvalue hnone
      | cut stop hspanning =>
          rw [linesFrom_error hread', hspanning]
          simp [Except.toOption, eq_comm]

/-- Carriage returns before the line ends of a text change nothing, and this exactly if no
string literal spans a line end or the text cannot be read in either form. -/
theorem logicalLines_withReturns_eq_iff {source : String} (hplain : '\r' ∉ source.toList) :
    (logicalLines (String.ofList (withReturns source.toList))).toOption =
        (logicalLines source).toOption ↔
      (logicalLines source).toOption = none ∨ stringsWithinLines source.toList = true := by
  unfold logicalLines
  rw [String.toList_ofList]
  exact linesFrom_withReturns 1 none [] source.toList hplain

/-- A hidden line end between two tokens. -/
theorem logicalLines_withReturns_continued :
    (logicalLines "a\\\r\n+1\r\n").toOption = (logicalLines "a\\\n+1\n").toOption := by
  have hwithin : stringsWithinLines ['a', '\\', '\n', '+', '1', '\n'] = true := by
    refine (stringsWithinLines_read rfl).trans ?_
    refine (stringsWithinLines_gap rfl).trans ?_
    refine (stringsWithinLines_read rfl).trans ?_
    refine (stringsWithinLines_read rfl).trans ?_
    exact (stringsWithinLines_lineEnd []).trans stringsWithinLines_nil
  have hplain : '\r' ∉ "a\\\n+1\n".toList := by decide
  exact (logicalLines_withReturns_eq_iff hplain).mpr (.inr hwithin)

/-- A literal over two lines. -/
theorem logicalLines_withReturns_ne :
    logicalLines "a = '''x\ny'''\n" =
        .ok [⟨0, 1, [⟨.name "a", 1⟩, ⟨.op .assign, 1⟩, ⟨.str "x\ny", 2⟩]⟩] ∧
      logicalLines (String.ofList (withReturns "a = '''x\ny'''\n".toList)) =
        .ok [⟨0, 1, [⟨.name "a", 1⟩, ⟨.op .assign, 1⟩, ⟨.str "x\r\ny", 2⟩]⟩] ∧
      "x\r\ny" ≠ "x\ny" := by
  have hquote : isQuote '\'' = true := rfl
  have hline {out : List Char} {n : Nat} {cs : List Char} :
      stringBody '\'' true false out n ('\n' :: cs) =
        stringBody '\'' true false ('\n' :: out) (n + 1) cs :=
    (stringBody_lineEnd hquote).trans (if_pos rfl)
  have hplain {c : Char} {out : List Char} {n : Nat} {cs : List Char}
      (hc : c ≠ '\'' ∧ c ≠ '\n' ∧ c ≠ '\\') :
      stringBody '\'' true false out n (c :: cs) = stringBody '\'' true false (c :: out) n cs :=
    stringBody_plain (fun heq => absurd heq hc.1) hc.2.1 hc.2.2
  have hread (text : List Char) (s : String) (rest : List Char)
      (hbody : stringBody '\'' true false [] 0 text = .ok ⟨s, rest, 1⟩) :
      linesFrom 1 none [] ('a' :: ' ' :: '=' :: ' ' :: '\'' :: '\'' :: '\'' :: text) =
        linesFrom 2 (some ⟨0, 1, 0, [⟨.str s, 2⟩, ⟨.op .assign, 1⟩, ⟨.name "a", 1⟩]⟩) [] rest := by
    have hstring : lexeme '\'' ('\'' :: '\'' :: text) = .ok ⟨.token (.str s), rest, 1⟩ := by
      have hliteral : stringLiteral false ('\'' :: '\'' :: '\'' :: text) = .ok ⟨s, rest, 1⟩ :=
        (stringLiteral_cons false '\'' _).trans hbody
      have hlexeme : lexeme '\'' ('\'' :: '\'' :: text) =
          stringLexeme false ('\'' :: '\'' :: '\'' :: text) := lexeme_string rfl
      rw [hlexeme, stringLexeme, hliteral]
      rfl
    refine (linesFrom_begin rfl rfl).trans ?_
    refine (linesFrom_token rfl).trans ?_
    refine (linesFrom_gap rfl).trans ?_
    refine (linesFrom_token rfl).trans ?_
    refine (linesFrom_gap rfl).trans ?_
    exact linesFrom_token hstring
  refine ⟨?_, ?_, by decide⟩
  · refine (hread ['x', '\n', 'y', '\'', '\'', '\'', '\n'] "x\ny" ['\n'] ?_).trans ?_
    · rw [hplain (by decide), hline, hplain (by decide)]
      exact stringBody_close rfl
    · exact (linesFrom_lineEnd rfl rfl).trans linesFrom_nil
  · unfold logicalLines
    rw [String.toList_ofList]
    refine (hread ['x', '\r', '\n', 'y', '\'', '\'', '\'', '\r', '\n'] "x\r\ny" ['\r', '\n']
      ?_).trans ?_
    · rw [hplain (by decide), hplain (by decide), hline, hplain (by decide)]
      exact stringBody_close rfl
    · rw [linesFrom_return]
      exact (linesFrom_lineEnd rfl rfl).trans linesFrom_nil

end IconConstraints.Source
