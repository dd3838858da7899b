import IconConstraints.Proofs.LineCounts
import IconConstraints.Proofs.LineRuns
import IconConstraints.Proofs.WithinLines

/-!
# Texts read one after the other

The reader of lines keeps nothing across the end of a logical line but the lines it has
made.  A text that ends there can be read on its own, and what follows it as if it came
first: its lines are the same, with the number of lines before it added to theirs.
-/

namespace IconConstraints.Source

variable {c : Char} {t left rest : List Char} {line : Nat} {current : Option OpenLine}
  {done lines : List LogicalLine}

/-! ## Reading up to a line end -/

/-- Whether a line end directly after the text would be hidden by a backslash. -/
def HidesLineEnd (t : List Char) : Prop :=
  ['\\'] <:+ t ∨ ['\\', '\r'] <:+ t

theorem HidesLineEnd.mono (h : HidesLineEnd left) (hsuffix : left <:+ t) : HidesLineEnd t :=
  h.imp (·.trans hsuffix) (·.trans hsuffix)

theorem recasts_append (b : List Char) : Recasts (· ++ '\n' :: b) where
  cons _ _ _ := rfl
  nil := .inr ⟨_, _, rfl, .inl rfl⟩
  lineEnd _ := .inr ⟨_, _, rfl, .inl rfl⟩

theorem skipComment_append (t b : List Char) :
    skipComment (t ++ '\n' :: b) = skipComment t ++ '\n' :: b := by
  induction t with
  | nil => rfl
  | cons c t ih =>
      simp only [skipComment, List.cons_append, List.dropWhile_cons] at ih ⊢
      split
      · exact ih
      · rfl

theorem joinedLine?_append (hhides : ¬ HidesLineEnd t) (b : List Char) :
    joinedLine? (t ++ '\n' :: b) = (joinedLine? t).map (· ++ '\n' :: b) := by
  match t with
  | [] => rfl
  | [c] =>
      have hc : c ≠ '\\' := by
        rintro rfl
        exact hhides (.inl ⟨[], rfl⟩)
      simp [joinedLine?, hc]
  | [c, d] =>
      by_cases hc : c = '\\'
      · subst hc
        have hd : d ≠ '\r' := by
          rintro rfl
          exact hhides (.inr ⟨[], rfl⟩)
        by_cases hfeed : d = '\n'
        · subst hfeed
          rfl
        · simp [joinedLine?, hd, hfeed]
      · simp [joinedLine?, hc]
  | c :: d :: e :: rest =>
      simp only [joinedLine?, List.cons_append]
      grind

/-- What `read` makes of the text `t` with a line end after it, whatever follows. -/
def ReadsBefore {α : Type} (read : List Char → Except Stop (Reading α)) (t : List Char)
    (r : Reading α) : Prop :=
  ∃ left, r.rest = left ++ ['\n'] ∧
    ∀ b, read (t ++ '\n' :: b) = .ok { r with rest := left ++ '\n' :: b }

theorem ReadsBefore.of_eq {α : Type} {read read' : List Char → Except Stop (Reading α)}
    {r : Reading α} (heq : ∀ b, read (t ++ '\n' :: b) = read' (left ++ '\n' :: b))
    (h : ReadsBefore read' left r) : ReadsBefore read t r := by
  obtain ⟨rest, hrest, hread⟩ := h
  exact ⟨rest, hrest, fun b => (heq b).trans (hread b)⟩

theorem stringBody_before {quote : Char} {triple raw : Bool} {out : List Char} {n : Nat}
    {r : Reading String} (hquote : isQuote quote = true)
    (h : stringBody quote triple raw out n (t ++ ['\n']) = .ok r) :
    ReadsBefore (stringBody quote triple raw out n) t r := by
  have hclosing (t b : List Char) : closing? quote triple (t ++ '\n' :: b) =
      (closing? quote triple t).map (· ++ '\n' :: b) :=
    (recasts_append b).closing?_eq (isQuote_ne hquote) triple t
  induction out, n, t using stringBody_steps quote triple raw with
  | ended =>
      rw [List.nil_append, stringBody_lineEnd hquote] at h
      split at h
      · cases stringBody_nil.symm.trans h
      · cases h
  | @closed out n t left hclose =>
      have hread (b : List Char) : stringBody quote triple raw out n (quote :: (t ++ '\n' :: b)) =
          .ok ⟨String.ofList out.reverse, left ++ '\n' :: b, n⟩ :=
        stringBody_close (by rw [hclosing, hclose]; rfl)
      cases (hread []).symm.trans h
      exact ⟨left, rfl, hread⟩
  | @lineEnd out n t ih =>
      cases triple with
      | false => cases (stringBody_lineEnd hquote).symm.trans h
      | true =>
          have heq (b : List Char) : stringBody quote true raw out n ('\n' :: (t ++ '\n' :: b)) =
              stringBody quote true raw ('\n' :: out) (n + 1) (t ++ '\n' :: b) :=
            stringBody_lineEnd hquote
          exact (ih ((heq []).symm.trans h)).of_eq heq
  | backslash =>
      -- It hides the line end after it, and the literal is not closed before the text ends.
      cases raw with
      | true => cases stringBody_nil.symm.trans ((stringBody_raw hquote).symm.trans h)
      | false =>
          have hescape : escape '\n' [] = .ok ([], []) := rfl
          cases stringBody_nil.symm.trans ((stringBody_escape hquote hescape).symm.trans h)
  | @kept out n d t hraw ih =>
      subst hraw
      have heq (b : List Char) :
          stringBody quote triple true out n ('\\' :: d :: (t ++ '\n' :: b)) =
            stringBody quote triple true (d :: '\\' :: out) (if d = '\n' then n + 1 else n)
              (t ++ '\n' :: b) :=
        stringBody_raw hquote
      exact (ih ((heq []).symm.trans h)).of_eq heq
  | @escaped out n d t chars left hraw hescape ih =>
      subst hraw
      have heq (b : List Char) :
          stringBody quote triple false out n ('\\' :: d :: (t ++ '\n' :: b)) =
            stringBody quote triple false (chars.reverse ++ out) (if d = '\n' then n + 1 else n)
              (left ++ '\n' :: b) :=
        stringBody_escape hquote ((recasts_append b).escape_iff.mpr ⟨left, rfl, hescape⟩)
      exact (ih ((heq []).symm.trans h)).of_eq heq
  | @badEscape out n d t fault hraw hescape =>
      subst hraw
      obtain ⟨fault', hescape'⟩ := (recasts_append []).escape_error hescape
      cases (stringBody_badEscape hquote hescape').symm.trans h
  | @plain out n c t hopen hline hslash ih =>
      have heq (b : List Char) : stringBody quote triple raw out n (c :: (t ++ '\n' :: b)) =
          stringBody quote triple raw (c :: out) n (t ++ '\n' :: b) :=
        stringBody_plain (fun hc => by rw [hclosing, hopen hc]; rfl) hline hslash
      exact (ih ((heq []).symm.trans h)).of_eq heq

theorem ReadsBefore.map {α β : Type} {read : List Char → Except Stop (Reading α)} {r : Reading α}
    (f : α → β) (h : ReadsBefore read t r) :
    ReadsBefore (fun cs => (read cs).map (Reading.map f)) t (r.map f) := by
  obtain ⟨left, hrest, hread⟩ := h
  exact ⟨left, hrest, fun b => by simp only [hread]; rfl⟩

theorem stringLiteral_before {quote : Char} {raw : Bool} {r : Reading String}
    (hquote : isQuote quote = true) (h : stringLiteral raw (quote :: (t ++ ['\n'])) = .ok r) :
    ReadsBefore (fun cs => stringLiteral raw (quote :: cs)) t r := by
  have hopening (b : List Char) : closing? quote true (t ++ '\n' :: b) =
      (closing? quote true t).map (· ++ '\n' :: b) :=
    (recasts_append b).closing?_eq (isQuote_ne hquote) true t
  cases hopen : closing? quote true t with
  | some body =>
      have heq (b : List Char) : stringLiteral raw (quote :: (t ++ '\n' :: b)) =
          stringBody quote true raw [] 0 (body ++ '\n' :: b) := by
        rw [stringLiteral_cons, hopening, hopen]
        rfl
      exact (stringBody_before hquote ((heq []).symm.trans h)).of_eq heq
  | none =>
      have heq (b : List Char) : stringLiteral raw (quote :: (t ++ '\n' :: b)) =
          stringBody quote false raw [] 0 (t ++ '\n' :: b) := by
        rw [stringLiteral_cons, hopening, hopen]
        rfl
      exact (stringBody_before hquote ((heq []).symm.trans h)).of_eq heq

theorem stringLexeme_before {quote : Char} {raw : Bool} {r : Reading Lexeme}
    (hquote : isQuote quote = true) (h : stringLexeme raw (quote :: (t ++ ['\n'])) = .ok r) :
    ReadsBefore (fun cs => stringLexeme raw (quote :: cs)) t r := by
  unfold stringLexeme at h ⊢
  cases hread : stringLiteral raw (quote :: (t ++ ['\n'])) with
  | error stop =>
      rw [hread] at h
      cases h
  | ok s =>
      rw [hread] at h
      cases h
      exact (stringLiteral_before hquote hread).map _

theorem lexeme_before {r : Reading Lexeme} (hhides : ¬ HidesLineEnd (c :: t))
    (h : lexeme c (t ++ ['\n']) = .ok r) : ReadsBefore (lexeme c) t r := by
  by_cases hcomment : c = '#'
  · subst hcomment
    rw [lexeme_comment, skipComment_append] at h
    cases h
    exact ⟨skipComment t, rfl, fun b => by rw [lexeme_comment, skipComment_append]⟩
  by_cases hline : c = '\n'
  · subst hline
    rw [lexeme_lineEnd] at h
    cases h
    exact ⟨t, rfl, fun b => lexeme_lineEnd _⟩
  have hjoining (b : List Char) : joinedLine? (c :: (t ++ '\n' :: b)) =
      (joinedLine? (c :: t)).map (· ++ '\n' :: b) := joinedLine?_append hhides b
  cases hjoin : joinedLine? (c :: t) with
  | some left =>
      have hread (b : List Char) : lexeme c (t ++ '\n' :: b) = .ok ⟨.gap, left ++ '\n' :: b, 1⟩ :=
        lexeme_joined (by rw [hjoining, hjoin]; rfl)
      cases (hread []).symm.trans h
      exact ⟨left, rfl, hread⟩
  | none =>
      have hjoining (b : List Char) : joinedLine? (c :: (t ++ '\n' :: b)) = none := by
        rw [hjoining, hjoin]
        rfl
      have hstrings (b : List Char) := (recasts_append b).announced?_eq hline t
      cases hstring : announced? (c :: t) with
      | some found =>
          obtain ⟨raw, text⟩ := found
          obtain ⟨-, quote, after, rfl, hquote⟩ := announced?_split hstring
          have hread (b : List Char) :
              lexeme c (t ++ '\n' :: b) = stringLexeme raw (quote :: (after ++ '\n' :: b)) :=
            lexeme_string (by rw [hstrings, hstring]; rfl)
          exact (stringLexeme_before hquote ((hread []).symm.trans h)).of_eq hread
      | none =>
          have hread (b : List Char) : lexeme c (t ++ '\n' :: b) =
              (plainLexeme c t).map (·.recast (· ++ '\n' :: b)) := by
            rw [lexeme_plain hcomment hline (hjoining b) (by rw [hstrings, hstring]; rfl)]
            exact (recasts_append b).plainLexeme_eq hline t
          cases hplain : plainLexeme c t with
          | error stop =>
              rw [hread, hplain] at h
              cases h
          | ok s =>
              rw [hread, hplain] at h
              cases h
              exact ⟨s.rest, rfl, fun b => by rw [hread, hplain]; rfl⟩

/-! ## Lines up to a line end -/

theorem Leaves.of_append_lineEnd {n : Nat} (h : Leaves n (t ++ ['\n']) (left ++ ['\n'])) :
    Leaves n t left := by
  obtain ⟨taken, htaken, hcount⟩ := h
  rw [← List.append_assoc] at htaken
  exact ⟨taken, List.append_cancel_right htaken, hcount⟩

theorem indentation_before {cs : List Char} {indent : Nat}
    (h : indentation 0 (t ++ ['\n']) = (indent, cs)) :
    ∃ left, cs = left ++ ['\n'] ∧ Leaves 0 t left ∧
      ∀ b, indentation 0 (t ++ '\n' :: b) = (indent, left ++ '\n' :: b) := by
  have hindent (b : List Char) : indentation 0 (t ++ '\n' :: b) =
      ((indentation 0 t).1, (indentation 0 t).2 ++ '\n' :: b) :=
    (recasts_append b).indentation_eq 0 t
  cases (hindent []).symm.trans h
  exact ⟨_, rfl, indentation_leaves 0 t, hindent⟩

section Steps

variable {b : List Char}

/-- After a step from `t` to `left`, which passes `n` line ends, the text `left` is read. -/
theorem linesFrom_append_of_step {current' : Option OpenLine} {done' : List LogicalLine} {n : Nat}
    (hread : ∀ b, linesFrom line current done (t ++ '\n' :: b) =
      linesFrom (line + n) current' done' (left ++ '\n' :: b))
    (hleaves : Leaves n t left)
    (hrest : linesFrom (line + n) current' done' (left ++ ['\n']) = .ok lines →
      linesFrom (line + n) current' done' (left ++ '\n' :: b) =
        linesFrom (line + n + (left.count '\n' + 1)) none lines.reverse b)
    (h : linesFrom line current done (t ++ ['\n']) = .ok lines) :
    linesFrom line current done (t ++ '\n' :: b) =
      linesFrom (line + (t.count '\n' + 1)) none lines.reverse b := by
  rw [hread, hrest ((hread []).symm.trans h), hleaves.count_eq]
  congr 1
  omega

/-- After a step that takes the last line end nothing of the text is left. -/
theorem linesFrom_append_of_last {done' : List LogicalLine} (ht : t.count '\n' = 0)
    (hread : ∀ b, linesFrom line current done (t ++ '\n' :: b) = linesFrom (line + 1) none done' b)
    (h : linesFrom line current done (t ++ ['\n']) = .ok lines) :
    linesFrom line current done (t ++ '\n' :: b) =
      linesFrom (line + (t.count '\n' + 1)) none lines.reverse b := by
  rw [hread, linesFrom_nil] at h
  cases h
  rw [hread, ht, List.reverse_reverse]

end Steps

/-- What is read after a text that ends a line starts on the next line, with the lines of the
text before it. -/
theorem linesFrom_append_lineEnd (hhides : ¬ HidesLineEnd t)
    (h : linesFrom line current done (t ++ ['\n']) = .ok lines) (b : List Char) :
    linesFrom line current done (t ++ '\n' :: b) =
      linesFrom (line + (t.count '\n' + 1)) none lines.reverse b := by
  generalize htext : t ++ ['\n'] = cs at h
  induction line, current, done, cs using linesFrom_steps generalizing t with
  | indented hindent =>
      subst htext
      obtain ⟨left, hleft, -⟩ := indentation_before hindent
      simp at hleft
  | begins hindent hblank ih =>
      subst htext
      obtain ⟨left, hleft, hleaves, hbefore⟩ := indentation_before hindent
      cases left with
      | nil =>
          cases hleft
          cases hblank
      | cons c left =>
          cases hleft
          exact linesFrom_append_of_step (n := 0) (fun b => linesFrom_begin (hbefore b) hblank) hleaves
            (ih (fun hleft => hhides (hleft.mono hleaves.suffix)) rfl) h
  | blankEnd hindent hblank hskip =>
      subst htext
      obtain ⟨left, hleft, -⟩ := indentation_before hindent
      rw [hleft, skipComment_append] at hskip
      simp at hskip
  | @blank _ _ _ _ c after _ _ hindent hblank hskip ih =>
      subst htext
      obtain ⟨left, hleft, hleaves, hbefore⟩ := indentation_before hindent
      cases left with
      | nil =>
          cases hleft
          exact linesFrom_append_of_last hleaves.count_eq
            (fun b => linesFrom_blank (hbefore b) hblank rfl) h
      | cons _ left =>
          cases hleft
          have hskips (b : List Char) := skipComment_append (c :: left) b
          have hcomment := hleaves.trans (skipComment_leaves (c :: left))
          have hsame := (hskips []).symm.trans hskip
          cases hrest : skipComment (c :: left) with
          | nil =>
              rw [hrest] at hskips hcomment
              exact linesFrom_append_of_last hcomment.count_eq
                (fun b => linesFrom_blank (hbefore b) hblank (hskips b)) h
          | cons d left =>
              obtain rfl : d = '\n' := skipComment_head hrest
              rw [hrest] at hskips hcomment hsame
              cases hsame
              have hline : Leaves 1 t left := by
                simpa using hcomment.trans (Leaves.refl left).lineEnd
              exact linesFrom_append_of_step (fun b => linesFrom_blank (hbefore b) hblank (hskips b))
                hline (ih (fun hleft => hhides (hleft.mono hline.suffix)) rfl) h
  | ended => simp at htext
  | stopped hstop => cases (linesFrom_error hstop).symm.trans h
  | @read _ o _ c _ value _ n hread ih =>
      cases t with
      | nil =>
          cases htext
          cases (lexeme_lineEnd []).symm.trans hread
          by_cases hdepth : o.depth = 0
          · exact linesFrom_append_of_last rfl
              (fun b => linesFrom_lineEnd (lexeme_lineEnd b) hdepth) h
          · rw [linesFrom_lexeme (lexeme_lineEnd []), OpenLine.read, if_neg hdepth, linesFrom_end,
              if_neg hdepth] at h
            cases h
      | cons _ t =>
          cases htext
          obtain ⟨left, hrest, hbefore⟩ := lexeme_before hhides hread
          dsimp only at hrest
          subst hrest
          have hleaves : Leaves n (c :: t) left := (lexeme_leaves hread).of_append_lineEnd
          exact linesFrom_append_of_step (fun b => linesFrom_lexeme (hbefore b)) hleaves
            (ih (fun hleft => hhides (hleft.mono hleaves.suffix)) rfl) h

/-! ## One text after another -/

theorem logicalLines_append_of_lineEnd {a : String} (ht : a.toList = t ++ ['\n'])
    (hhides : ¬ HidesLineEnd t) (hlines : logicalLines a = .ok lines) (b : String) :
    logicalLines (a ++ b) = following lines (a.toList.count '\n') (logicalLines b) := by
  unfold logicalLines at hlines ⊢
  rw [ht] at hlines
  have hcount : a.toList.count '\n' = t.count '\n' + 1 := by simp [ht]
  have hboundary := linesFrom_append_lineEnd hhides hlines b.toList
  have hshift := linesFrom_later (t.count '\n' + 1) lines.reverse 1 none [] b.toList
  rw [List.reverse_reverse] at hshift
  rw [hcount, ← hshift, String.toList_append, ht, List.append_assoc]
  exact hboundary

/-- Where a text ends a line that no backslash makes go on, what follows is read as if on its
own. -/
theorem logicalLines_append {a : String}
    (ha : a = "" ∨ ∃ t, a.toList = t ++ ['\n'] ∧ ¬ HidesLineEnd t)
    (hlines : logicalLines a = .ok lines) (b : String) :
    logicalLines (a ++ b) = following lines (a.toList.count '\n') (logicalLines b) := by
  obtain rfl | ⟨t, ht, hhides⟩ := ha
  · unfold logicalLines at hlines ⊢
    cases linesFrom_nil.symm.trans hlines
    have hsame := linesFrom_later 0 [] 1 none [] b.toList
    simpa using hsame
  · exact logicalLines_append_of_lineEnd ht hhides hlines b

/-- A call over two lines, then a blank line and a character that begins no token. -/
theorem logicalLines_append_call :
    logicalLines "f(\n1)\n" =
        .ok [⟨0, 1, [⟨.name "f", 1⟩, ⟨.op .openParen, 1⟩, ⟨.int 1, 2⟩, ⟨.op .closeParen, 2⟩]⟩] ∧
      logicalLines "\n $" = .error ⟨2, .unexpectedCharacter '$'⟩ ∧
      logicalLines ("f(\n1)\n" ++ "\n $") = .error ⟨4, .unexpectedCharacter '$'⟩ := by
  have hcall : logicalLines "f(\n1)\n" =
      .ok [⟨0, 1, [⟨.name "f", 1⟩, ⟨.op .openParen, 1⟩, ⟨.int 1, 2⟩, ⟨.op .closeParen, 2⟩]⟩] := by
    change linesFrom 1 none [] ['f', '(', '\n', '1', ')', '\n'] = _
    refine (linesFrom_begin rfl rfl).trans ?_
    refine (linesFrom_token rfl).trans ?_
    refine (linesFrom_token rfl).trans ?_
    refine (linesFrom_lexeme rfl).trans ?_
    refine (linesFrom_token rfl).trans ?_
    refine (linesFrom_token rfl).trans ?_
    exact (linesFrom_lineEnd rfl rfl).trans linesFrom_nil
  have hstop : lexeme '$' [] = .error ⟨.unexpectedCharacter '$', 0⟩ := rfl
  have hdollar : logicalLines "\n $" = .error ⟨2, .unexpectedCharacter '$'⟩ :=
    calc linesFrom 1 none [] ['\n', ' ', '$']
      _ = linesFrom 2 none [] [' ', '$'] := linesFrom_blank rfl rfl rfl
      _ = linesFrom 2 (some (.begin 1 2)) [] ['$'] := linesFrom_begin rfl rfl
      _ = .error ⟨2, .unexpectedCharacter '$'⟩ := linesFrom_error hstop
  have hhides : ¬ HidesLineEnd ['f', '(', '\n', '1', ')'] := by
    unfold HidesLineEnd
    decide
  refine ⟨hcall, hdollar, ?_⟩
  rw [logicalLines_append (.inr ⟨_, rfl, hhides⟩) hcall, hdollar]
  rfl

end IconConstraints.Source
