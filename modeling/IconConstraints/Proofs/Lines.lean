import IconConstraints.Source.Lines

/-!
# Reading logical lines step by step

One equation for each thing that the reader of lines can meet.  From them, a line
whose tokens are written with a blank after each is read back as those tokens.
-/

namespace IconConstraints.Source

variable {line indent lineEnds : Nat} {done : List LogicalLine} {o : OpenLine}
  {c d : Char} {cs after rest : List Char} {stop : Stop}

/-! ## One step -/

theorem linesFrom_nil : linesFrom line none done [] = .ok done.reverse := by
  rw [linesFrom]
  rfl

theorem linesFrom_indented (hindent : indentation 0 cs = (indent, [])) :
    linesFrom line none done cs = .ok done.reverse := by
  rw [linesFrom]
  split <;> simp_all

theorem linesFrom_blank (hindent : indentation 0 cs = (indent, c :: after))
    (hblank : beginsBlank c = true) (hskip : skipComment (c :: after) = d :: rest) :
    linesFrom line none done cs = linesFrom (line + 1) none done rest := by
  conv => lhs; rw [linesFrom]
  split
  case h_1 heq =>
    rw [hindent] at heq
    cases heq
  case h_2 heq =>
    rw [hindent] at heq
    cases heq
    rw [if_pos hblank]
    split <;> simp_all

theorem linesFrom_blank_end (hindent : indentation 0 cs = (indent, c :: after))
    (hblank : beginsBlank c = true) (hskip : skipComment (c :: after) = []) :
    linesFrom line none done cs = .ok done.reverse := by
  rw [linesFrom]
  split
  case h_1 heq => rfl
  case h_2 heq =>
    rw [hindent] at heq
    cases heq
    rw [if_pos hblank]
    split <;> simp_all

theorem linesFrom_begin (hindent : indentation 0 cs = (indent, c :: after))
    (hblank : beginsBlank c = false) :
    linesFrom line none done cs = linesFrom line (some (.begin indent line)) done (c :: after) := by
  rw [linesFrom]
  split
  case h_1 heq =>
    rw [hindent] at heq
    cases heq
  case h_2 heq =>
    rw [hindent] at heq
    cases heq
    simp [hblank]

theorem linesFrom_end : linesFrom line (some o) done [] =
    if o.depth = 0 then .ok (o.finish?.toList ++ done).reverse
    else .error ⟨line, .unclosedBracket⟩ := by
  rw [linesFrom]

theorem linesFrom_error (hread : lexeme c after = .error stop) :
    linesFrom line (some o) done (c :: after) = .error ⟨line + stop.lineEnds, stop.fault⟩ := by
  rw [linesFrom]
  split <;> simp_all

theorem linesFrom_gap (hread : lexeme c after = .ok ⟨.gap, rest, lineEnds⟩) :
    linesFrom line (some o) done (c :: after) =
      linesFrom (line + lineEnds) (some o) done rest := by
  rw [linesFrom]
  split <;> simp_all

theorem linesFrom_lineEnd (hread : lexeme c after = .ok ⟨.lineEnd, rest, lineEnds⟩)
    (hdepth : o.depth = 0) :
    linesFrom line (some o) done (c :: after) =
      linesFrom (line + lineEnds) none (o.finish?.toList ++ done) rest := by
  conv => lhs; rw [linesFrom]
  split <;> simp_all

theorem linesFrom_token {kind : TokenKind}
    (hread : lexeme c after = .ok ⟨.token kind, rest, lineEnds⟩) :
    linesFrom line (some o) done (c :: after) =
      linesFrom (line + lineEnds) (some (o.push ⟨kind, line + lineEnds⟩)) done rest := by
  rw [linesFrom]
  split <;> simp_all

/-! ## Spelled lines -/

/-- A way to write a token, which is never empty. -/
structure Word where
  first : Char
  more : List Char
  kind : TokenKind

namespace Word

/-- The word is read as its token wherever a blank follows. -/
def Reads (w : Word) : Prop :=
  ∀ rest, lexeme w.first (w.more ++ ' ' :: rest) = .ok ⟨.token w.kind, ' ' :: rest, 0⟩

/-- The words with a blank after each. -/
def spelled (ws : List Word) : List Char :=
  ws.flatMap fun w => w.first :: w.more ++ [' ']

def tokens (line : Nat) (ws : List Word) : List Token :=
  ws.map fun w => ⟨w.kind, line⟩

/-- The number of brackets that the words leave open. -/
def depth (ws : List Word) : Nat :=
  ws.foldl (fun depth w => (Token.mk w.kind 0).depthAfter depth) 0

end Word

theorem lexeme_blank (rest : List Char) : lexeme ' ' rest = .ok ⟨.gap, rest, 0⟩ :=
  rfl

theorem lexeme_lineEnd (rest : List Char) : lexeme '\n' rest = .ok ⟨.lineEnd, rest, 1⟩ :=
  rfl

theorem isWhiteSpace_of_token {kind : TokenKind}
    (hread : lexeme c after = .ok ⟨.token kind, rest, lineEnds⟩) :
    Text.isWhiteSpace c = false ∧ c ≠ '#' := by
  unfold lexeme at hread
  split at hread
  case isTrue => cases hread
  case isFalse hhash =>
    split at hread
    case h_1 => cases hread
    case h_2 =>
      split at hread
      case isTrue => cases hread
      case isFalse =>
        split at hread
        case isTrue => cases hread
        case isFalse hspace => exact ⟨by simpa using hspace, hhash⟩

theorem indentation_replicate (column n : Nat) (hspace : Text.isWhiteSpace c = false) :
    indentation column (List.replicate n ' ' ++ c :: after) = (column + n, c :: after) := by
  induction n generalizing column with
  | zero =>
      have hblank : c ≠ ' ' := by rintro rfl; cases hspace
      have htab : c ≠ '\t' := by rintro rfl; cases hspace
      have hfeed : c ≠ '\x0c' := by rintro rfl; cases hspace
      simp [indentation, hblank, htab, hfeed]
  | succ n ih =>
      rw [List.replicate_succ, List.cons_append, indentation, if_pos rfl, ih]
      congr 1
      omega

theorem beginsBlank_of_visible (hspace : Text.isWhiteSpace c = false) (hhash : c ≠ '#') :
    beginsBlank c = false := by
  have hline : c ≠ '\n' := by rintro rfl; cases hspace
  have hreturn : c ≠ '\r' := by rintro rfl; cases hspace
  simp [beginsBlank, hline, hreturn, hhash]

namespace Word

def into (line : Nat) (o : OpenLine) (ws : List Word) : OpenLine :=
  ws.foldl (fun o w => o.push ⟨w.kind, line⟩) o

theorem linesFrom_spelled {ws : List Word} (hws : ∀ w ∈ ws, w.Reads) :
    linesFrom line (some o) done (spelled ws ++ rest) =
      linesFrom line (some (into line o ws)) done rest := by
  induction ws generalizing o with
  | nil => rfl
  | cons w ws ih =>
      have hw : w.Reads := hws w (by simp)
      have htext : spelled (w :: ws) ++ rest =
          w.first :: (w.more ++ ' ' :: (spelled ws ++ rest)) := by
        simp [spelled]
      rw [htext, linesFrom_token (hw _), linesFrom_gap (lexeme_blank _)]
      exact ih fun v hv => hws v (by simp [hv])

theorem into_tokens (line : Nat) (o : OpenLine) (ws : List Word) :
    (into line o ws).tokens.reverse = o.tokens.reverse ++ tokens line ws := by
  induction ws generalizing o with
  | nil => simp [into, tokens]
  | cons w ws ih =>
      unfold into at ih ⊢
      rw [List.foldl_cons, ih]
      simp [OpenLine.push, tokens]

theorem into_fields (line : Nat) (o : OpenLine) (ws : List Word) :
    (into line o ws).indent = o.indent ∧ (into line o ws).line = o.line ∧
      (into line o ws).depth =
        ws.foldl (fun depth w => (Token.mk w.kind 0).depthAfter depth) o.depth := by
  induction ws generalizing o with
  | nil => simp [into]
  | cons w ws ih =>
      unfold into at ih ⊢
      rw [List.foldl_cons, List.foldl_cons]
      exact ih (o.push ⟨w.kind, line⟩)

theorem linesFrom_line {w : Word} {ws : List Word} (hws : ∀ v ∈ w :: ws, v.Reads)
    (hdepth : depth (w :: ws) = 0) :
    linesFrom line none done (List.replicate indent ' ' ++ (spelled (w :: ws) ++ '\n' :: rest)) =
      linesFrom (line + 1) none (⟨indent, line, tokens line (w :: ws)⟩ :: done) rest := by
  obtain ⟨hspace, hhash⟩ := isWhiteSpace_of_token (hws w (by simp) [])
  have hfirst : spelled (w :: ws) ++ '\n' :: rest =
      w.first :: (w.more ++ ' ' :: (spelled ws ++ '\n' :: rest)) := by
    simp [spelled]
  have hindent : indentation 0
      (List.replicate indent ' ' ++ (spelled (w :: ws) ++ '\n' :: rest)) =
        (indent, spelled (w :: ws) ++ '\n' :: rest) := by
    rw [hfirst, indentation_replicate 0 indent hspace, Nat.zero_add]
  have hblank : beginsBlank w.first = false := beginsBlank_of_visible hspace hhash
  rw [hfirst] at hindent
  rw [hfirst, linesFrom_begin hindent hblank, ← hfirst, linesFrom_spelled hws]
  obtain ⟨hlineIndent, hlineLine, hlineDepth⟩ := into_fields line (.begin indent line) (w :: ws)
  rw [linesFrom_lineEnd (lexeme_lineEnd rest) (hlineDepth.trans hdepth)]
  have htokens := into_tokens line (.begin indent line) (w :: ws)
  have hfinish : (into line (.begin indent line) (w :: ws)).finish? =
      some ⟨indent, line, tokens line (w :: ws)⟩ := by
    unfold OpenLine.finish?
    rw [hlineIndent, hlineLine, htokens]
    have hne : (into line (.begin indent line) (w :: ws)).tokens ≠ [] := by
      intro hnil
      rw [hnil] at htokens
      simp [tokens] at htokens
    rw [if_neg (by simpa using hne)]
    rfl
  rw [hfinish]
  rfl

/-- Lines of words, each with its indentation. -/
def text (ls : List (Nat × List Word)) : List Char :=
  ls.flatMap fun (indent, ws) => List.replicate indent ' ' ++ (spelled ws ++ ['\n'])

/-- The logical lines for lines of words, the first on the given physical line. -/
def lines : (line : Nat) → List (Nat × List Word) → List LogicalLine
  | _, [] => []
  | line, (indent, ws) :: rest => ⟨indent, line, tokens line ws⟩ :: lines (line + 1) rest

theorem linesFrom_text {ls : List (Nat × List Word)}
    (hls : ∀ l ∈ ls, l.2 ≠ [] ∧ (∀ w ∈ l.2, w.Reads) ∧ depth l.2 = 0) :
    linesFrom line none done (text ls) = .ok (done.reverse ++ lines line ls) := by
  induction ls generalizing line done with
  | nil => simpa [text, lines] using linesFrom_nil
  | cons l ls ih =>
      obtain ⟨indent, ws⟩ := l
      obtain ⟨hne, hreads, hdepth⟩ := hls (indent, ws) (by simp)
      cases ws with
      | nil => exact absurd rfl hne
      | cons w ws =>
          have htext : text ((indent, w :: ws) :: ls) =
              List.replicate indent ' ' ++ (spelled (w :: ws) ++ '\n' :: text ls) := by
            simp [text]
          rw [htext, linesFrom_line hreads hdepth, ih fun l hl => hls l (by simp [hl])]
          simp [lines]

theorem logicalLines_text {source : String} {ls : List (Nat × List Word)}
    (hsource : source = String.ofList (text ls))
    (hls : ∀ l ∈ ls, l.2 ≠ [] ∧ (∀ w ∈ l.2, w.Reads) ∧ depth l.2 = 0) :
    logicalLines source = .ok (lines 1 ls) := by
  unfold logicalLines
  rw [hsource, String.toList_ofList, linesFrom_text hls]
  rfl

/-! ### Words for names, operators and strings -/

def ofName (name : String) : Word :=
  ⟨name.toList.headD ' ', name.toList.tail, .name name⟩

def ofOperator (o : Operator) : Word :=
  ⟨o.chars.headD ' ', o.chars.tail, .op o⟩

theorem ofOperator_reads (o : Operator) : (ofOperator o).Reads := by
  intro rest
  cases o <;> rfl

theorem stringBody_verbatim {quote : Char} {text : List Char} (out : List Char)
    (lineEnds : Nat) (rest : List Char)
    (htext : ∀ c ∈ text, c ≠ quote ∧ c ≠ '\n' ∧ c ≠ '\\') :
    stringBody quote false false out lineEnds (text ++ quote :: rest) =
      .ok ⟨String.ofList (out.reverse ++ text), rest, lineEnds⟩ := by
  induction text generalizing out with
  | nil =>
      rw [List.nil_append, stringBody.eq_def]
      simp [closing?]
  | cons c text ih =>
      obtain ⟨hquote, hline, hescape⟩ := htext c (by simp)
      rw [List.cons_append, stringBody.eq_def]
      simp only [hquote, hline, hescape, if_false]
      rw [ih (c :: out) fun d hd => htext d (by simp [hd])]
      simp

/-- A text between single quotes. -/
def ofText (text : String) : Word :=
  ⟨'\'', text.toList ++ ['\''], .str text⟩

/-- Whether a character stands for itself between single quotes. -/
def isVerbatim (c : Char) : Bool :=
  c != '\'' && c != '\n' && c != '\\'

theorem ofText_reads {text : String} (htext : text.toList.all isVerbatim = true) :
    (ofText text).Reads := by
  intro rest
  have hchars : ∀ c ∈ text.toList, c ≠ '\'' ∧ c ≠ '\n' ∧ c ≠ '\\' := by
    intro c hc
    have hverbatim := List.all_eq_true.mp htext c hc
    simpa [isVerbatim, and_assoc] using hverbatim
  have hbody := stringBody_verbatim [] 0 (' ' :: rest) hchars
  have hread : stringLiteral false ('\'' :: (text.toList ++ '\'' :: ' ' :: rest)) =
      stringBody '\'' false false [] 0 (text.toList ++ '\'' :: ' ' :: rest) := by
    unfold stringLiteral
    split
    case h_1 heq => cases heq
    case h_2 heq =>
      cases heq
      split
      case h_1 a b after heq =>
        rw [if_neg]
        rintro ⟨rfl, rfl⟩
        cases htoList : text.toList with
        | nil =>
            rw [htoList] at heq
            cases heq
        | cons c chars =>
            rw [htoList] at heq
            exact (hchars c (by simp [htoList])).1 (List.cons.inj heq).1
      case h_2 => rfl
  have hlexeme : lexeme '\'' (text.toList ++ '\'' :: ' ' :: rest) =
      stringLexeme false ('\'' :: (text.toList ++ '\'' :: ' ' :: rest)) := rfl
  simp only [ofText, List.append_assoc, List.cons_append, List.nil_append]
  rw [hlexeme, stringLexeme, hread, hbody]
  simp [Except.map, Reading.map]

end Word

end IconConstraints.Source
