import IconConstraints.Proofs.Lines

/-!
# Runs of the reader of lines

The reader makes one step for each lexeme and for each blank line.  What a whole run does
follows from its steps by one induction: runs that begin further down give the same lines
further down, tokens that were read stay as they are, and whether a run ends in an error
depends on the open brackets alone.
-/

namespace IconConstraints.Source

variable {line lineEnds : Nat} {current : Option OpenLine} {done lines : List LogicalLine}
  {o : OpenLine} {c d : Char} {cs after rest : List Char}

/-! ## Steps -/

/-- The open line and the lines before it once a lexeme is read that ends on line `line`. -/
def OpenLine.read (o : OpenLine) (done : List LogicalLine) (line : Nat) :
    Lexeme → Option OpenLine × List LogicalLine
  | .gap => (some o, done)
  | .lineEnd => if o.depth = 0 then (none, o.finish?.toList ++ done) else (some o, done)
  | .token kind => (some (o.push ⟨kind, line⟩), done)

theorem linesFrom_lexeme {value : Lexeme}
    (hread : lexeme c after = .ok ⟨value, rest, lineEnds⟩) :
    linesFrom line (some o) done (c :: after) =
      linesFrom (line + lineEnds) (o.read done (line + lineEnds) value).1
        (o.read done (line + lineEnds) value).2 rest := by
  cases value with
  | gap => exact linesFrom_gap hread
  | token kind => exact linesFrom_token hread
  | lineEnd =>
      simp only [OpenLine.read]
      split
      case isTrue hdepth => exact linesFrom_lineEnd hread hdepth
      case isFalse hdepth =>
        conv => lhs; rw [linesFrom]
        split <;> simp_all

theorem isUnstarted_le (current : Option OpenLine) : isUnstarted current ≤ 1 := by
  unfold isUnstarted
  split <;> omega

/-- What holds of a state of the reader if it holds of the state after the next step holds of
all states. -/
theorem linesFrom_steps
    {motive : Nat → Option OpenLine → List LogicalLine → List Char → Prop}
    (indented : ∀ {line done cs indent}, indentation 0 cs = (indent, []) → motive line none done cs)
    (begins : ∀ {line done cs indent c after}, indentation 0 cs = (indent, c :: after) →
      beginsBlank c = false → motive line (some (.begin indent line)) done (c :: after) →
      motive line none done cs)
    (blankEnd : ∀ {line done cs indent c after}, indentation 0 cs = (indent, c :: after) →
      beginsBlank c = true → skipComment (c :: after) = [] → motive line none done cs)
    (blank : ∀ {line done cs indent c after d rest}, indentation 0 cs = (indent, c :: after) →
      beginsBlank c = true → skipComment (c :: after) = d :: rest →
      motive (line + 1) none done rest → motive line none done cs)
    (ended : ∀ {line o done}, motive line (some o) done [])
    (stopped : ∀ {line o done c after stop}, lexeme c after = .error stop →
      motive line (some o) done (c :: after))
    (read : ∀ {line o done c after value rest lineEnds},
      lexeme c after = .ok ⟨value, rest, lineEnds⟩ →
      motive (line + lineEnds) (o.read done (line + lineEnds) value).1
        (o.read done (line + lineEnds) value).2 rest →
      motive line (some o) done (c :: after))
    (line : Nat) (current : Option OpenLine) (done : List LogicalLine) (cs : List Char) :
    motive line current done cs := by
  induction hsize : 2 * cs.length + isUnstarted current using Nat.strongRecOn
    generalizing line current done cs with
  | ind size ih =>
  cases current with
  | none =>
      change 2 * cs.length + 1 = size at hsize
      have hshorter := indentation_rest_length 0 cs
      cases hindent : indentation 0 cs with
      | mk indent text =>
      rw [hindent] at hshorter
      cases text with
      | nil => exact indented hindent
      | cons c after =>
          change (c :: after).length ≤ cs.length at hshorter
          cases hblank : beginsBlank c with
          | false =>
              have hnext := ih (2 * (c :: after).length + 0) (by omega)
              exact begins hindent hblank (hnext _ _ _ _ rfl)
          | true =>
              have hdrop : (skipComment (c :: after)).length ≤ (c :: after).length :=
                (List.dropWhile_sublist _).length_le
              cases hskip : skipComment (c :: after) with
              | nil => exact blankEnd hindent hblank hskip
              | cons d rest =>
                  rw [hskip] at hdrop
                  simp only [List.length_cons] at hdrop hshorter
                  exact blank hindent hblank hskip (ih (2 * rest.length + 1) (by omega) _ _ _ _ rfl)
  | some o =>
      cases cs with
      | nil => exact ended
      | cons c after =>
          cases hread : lexeme c after with
          | error stop => exact stopped hread
          | ok r =>
              have hshorter := lexeme_rest_length hread
              have hnext := isUnstarted_le (o.read done (line + r.lineEnds) r.value).1
              change 2 * (after.length + 1) + 0 = size at hsize
              exact read hread (ih _ (by omega) _ _ _ _ rfl)

/-! ## Lines further down -/

def Token.later (n : Nat) (t : Token) : Token :=
  { t with line := t.line + n }

def LogicalLine.later (n : Nat) (l : LogicalLine) : LogicalLine :=
  { l with line := l.line + n, tokens := l.tokens.map (Token.later n) }

def LexError.later (n : Nat) (e : LexError) : LexError :=
  { e with line := e.line + n }

/-- The outcome for a text that begins `n` lines further down, after the lines `before`. -/
def following (before : List LogicalLine) (n : Nat) :
    Except LexError (List LogicalLine) → Except LexError (List LogicalLine)
  | .ok lines => .ok (before ++ lines.map (LogicalLine.later n))
  | .error e => .error (e.later n)

def OpenLine.later (n : Nat) (o : OpenLine) : OpenLine :=
  { o with line := o.line + n, tokens := o.tokens.map (Token.later n) }

theorem OpenLine.finish?_later (n : Nat) (o : OpenLine) :
    (o.later n).finish? = o.finish?.map (LogicalLine.later n) := by
  simp only [finish?, later, List.isEmpty_map]
  split
  · rfl
  · simp [LogicalLine.later]

theorem OpenLine.read_later (n : Nat) (o : OpenLine) (before : List LogicalLine) (value : Lexeme) :
    (o.later n).read (done.map (LogicalLine.later n) ++ before) (line + n) value =
      ((o.read done line value).1.map (OpenLine.later n),
        (o.read done line value).2.map (LogicalLine.later n) ++ before) := by
  cases value with
  | gap => rfl
  | token kind => rfl
  | lineEnd =>
      have hdepth : (o.later n).depth = o.depth := rfl
      simp only [read, hdepth, finish?_later]
      split
      · cases o.finish? <;> simp
      · rfl

theorem linesFrom_later (n : Nat) (before : List LogicalLine) (line : Nat)
    (current : Option OpenLine) (done : List LogicalLine) (cs : List Char) :
    linesFrom (line + n) (current.map (OpenLine.later n))
        (done.map (LogicalLine.later n) ++ before) cs =
      following before.reverse n (linesFrom line current done cs) := by
  have hdone (done : List LogicalLine) :
      (.ok (done.map (LogicalLine.later n) ++ before).reverse : Except LexError _) =
        following before.reverse n (.ok done.reverse) := by
    simp [following]
  induction line, current, done, cs using linesFrom_steps with
  | indented hindent =>
      rw [Option.map_none, linesFrom_indented hindent, linesFrom_indented hindent, hdone]
  | begins hindent hblank ih =>
      rw [Option.map_none, linesFrom_begin hindent hblank, linesFrom_begin hindent hblank]
      exact ih
  | blankEnd hindent hblank hskip =>
      rw [Option.map_none, linesFrom_blank_end hindent hblank hskip,
        linesFrom_blank_end hindent hblank hskip, hdone]
  | blank hindent hblank hskip ih =>
      rw [Option.map_none, linesFrom_blank hindent hblank hskip,
        linesFrom_blank hindent hblank hskip, Nat.add_right_comm]
      exact ih
  | @ended line o done =>
      have hdepth : (o.later n).depth = o.depth := rfl
      rw [Option.map_some, linesFrom_end, linesFrom_end, hdepth]
      split
      · cases hfinish : o.finish? <;> simp [OpenLine.finish?_later, hfinish, following]
      · rfl
  | stopped hread =>
      rw [Option.map_some, linesFrom_error hread, linesFrom_error hread, Nat.add_right_comm]
      rfl
  | read hread ih =>
      rw [Option.map_some, linesFrom_lexeme hread, linesFrom_lexeme hread, Nat.add_right_comm,
        OpenLine.read_later]
      exact ih

/-! ## What a run depends on -/

/-- The tokens that were read so far. -/
def tokensRead (current : Option OpenLine) (done : List LogicalLine) : List Token :=
  done.reverse.flatMap LogicalLine.tokens ++ (current.map fun o => o.tokens.reverse).getD []

theorem tokensRead_push (o : OpenLine) (t : Token) (done : List LogicalLine) :
    tokensRead (some (o.push t)) done = tokensRead (some o) done ++ [t] := by
  simp [tokensRead, OpenLine.push]

theorem tokensRead_finish (o : OpenLine) (done : List LogicalLine) :
    tokensRead none (o.finish?.toList ++ done) = tokensRead (some o) done := by
  cases htokens : o.tokens with
  | nil => simp [tokensRead, OpenLine.finish?, htokens]
  | cons t tokens => simp [tokensRead, OpenLine.finish?, htokens]

/-- What holds of the tokens read so far, and goes on to hold with every token that is read,
holds of the tokens of all lines. -/
theorem linesFrom_tokens {I : List Token → Prop} (line : Nat) (current : Option OpenLine)
    (done : List LogicalLine) (cs : List Char)
    (hpush : ∀ {ts c after kind rest lineEnds line}, I ts →
      lexeme c after = .ok ⟨.token kind, rest, lineEnds⟩ → I (ts ++ [⟨kind, line⟩]))
    (hread : I (tokensRead current done)) (h : linesFrom line current done cs = .ok lines) :
    I (lines.flatMap LogicalLine.tokens) := by
  have hdone {done : List LogicalLine} (hread : I (tokensRead none done))
      (h : (.ok done.reverse : Except LexError (List LogicalLine)) = .ok lines) :
      I (lines.flatMap LogicalLine.tokens) := by
    cases h
    simpa [tokensRead] using hread
  induction line, current, done, cs using linesFrom_steps with
  | indented hindent =>
      rw [linesFrom_indented hindent] at h
      exact hdone hread h
  | begins hindent hblank ih =>
      rw [linesFrom_begin hindent hblank] at h
      exact ih (by simpa [tokensRead, OpenLine.begin] using hread) h
  | blankEnd hindent hblank hskip =>
      rw [linesFrom_blank_end hindent hblank hskip] at h
      exact hdone hread h
  | blank hindent hblank hskip ih =>
      rw [linesFrom_blank hindent hblank hskip] at h
      exact ih hread h
  | ended =>
      rw [linesFrom_end] at h
      split at h
      · rw [← tokensRead_finish] at hread
        exact hdone hread h
      · cases h
  | stopped hlexeme => cases (linesFrom_error hlexeme).symm.trans h
  | @read line o done c after value rest lineEnds hlexeme ih =>
      rw [linesFrom_lexeme hlexeme] at h
      refine ih ?_ h
      cases value with
      | gap => exact hread
      | token kind =>
          simp only [OpenLine.read, tokensRead_push]
          exact hpush hread hlexeme
      | lineEnd =>
          simp only [OpenLine.read]
          split
          · exact (tokensRead_finish o done).symm ▸ hread
          · exact hread

theorem tokensRead_prefix (line : Nat) (current : Option OpenLine) (done : List LogicalLine)
    (cs : List Char) (h : linesFrom line current done cs = .ok lines) :
    tokensRead current done <+: lines.flatMap LogicalLine.tokens :=
  linesFrom_tokens line current done cs (fun hts _ => hts.trans (List.prefix_append _ _))
    (List.prefix_refl _) h

theorem OpenLine.read_depth {o o' : OpenLine} (h : o.depth = o'.depth)
    (done done' : List LogicalLine) (line line' : Nat) (value : Lexeme) :
    (o.read done line value).1.map depth = (o'.read done' line' value).1.map depth := by
  cases value with
  | gap => exact congrArg some h
  | lineEnd =>
      simp only [read, h]
      split
      · rfl
      · exact congrArg some h
  | token kind =>
      have hkind : Token.depthAfter ⟨kind, line⟩ = Token.depthAfter ⟨kind, line'⟩ := rfl
      simp only [read, push, Option.map_some, h, hkind]

/-- Whether a text can be read depends on the brackets that are open and not on the tokens. -/
theorem linesFrom_isSome_of_depth (line : Nat) (current : Option OpenLine) (done : List LogicalLine)
    (cs : List Char) {line' : Nat} {current' : Option OpenLine} {done' : List LogicalLine}
    (hdepth : current.map OpenLine.depth = current'.map OpenLine.depth) :
    (linesFrom line current done cs).toOption.isSome =
      (linesFrom line' current' done' cs).toOption.isSome := by
  have hnone {current' : Option OpenLine}
      (hdepth : (none : Option OpenLine).map OpenLine.depth = current'.map OpenLine.depth) :
      current' = none :=
    Option.map_eq_none_iff.mp hdepth.symm
  have hsome {o : OpenLine} {current' : Option OpenLine}
      (hdepth : (some o).map OpenLine.depth = current'.map OpenLine.depth) :
      ∃ o', current' = some o' ∧ o.depth = o'.depth := by
    obtain ⟨o', rfl, ho⟩ := Option.map_eq_some_iff.mp hdepth.symm
    exact ⟨o', rfl, ho.symm⟩
  induction line, current, done, cs using linesFrom_steps generalizing line' current' done' with
  | indented hindent =>
      obtain rfl := hnone hdepth
      rw [linesFrom_indented hindent, linesFrom_indented hindent]
      rfl
  | begins hindent hblank ih =>
      obtain rfl := hnone hdepth
      rw [linesFrom_begin hindent hblank, linesFrom_begin hindent hblank]
      exact ih rfl
  | blankEnd hindent hblank hskip =>
      obtain rfl := hnone hdepth
      rw [linesFrom_blank_end hindent hblank hskip, linesFrom_blank_end hindent hblank hskip]
      rfl
  | blank hindent hblank hskip ih =>
      obtain rfl := hnone hdepth
      rw [linesFrom_blank hindent hblank hskip, linesFrom_blank hindent hblank hskip]
      exact ih rfl
  | ended =>
      obtain ⟨o', rfl, ho⟩ := hsome hdepth
      rw [linesFrom_end, linesFrom_end, ho]
      split <;> rfl
  | stopped hread =>
      obtain ⟨o', rfl, ho⟩ := hsome hdepth
      rw [linesFrom_error hread, linesFrom_error hread]
      rfl
  | read hread ih =>
      obtain ⟨o', rfl, ho⟩ := hsome hdepth
      rw [linesFrom_lexeme hread, linesFrom_lexeme hread]
      exact ih (OpenLine.read_depth ho _ _ _ _ _)

end IconConstraints.Source
