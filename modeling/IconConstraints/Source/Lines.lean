import IconConstraints.Source.Lexeme

/-!
# Logical lines

A text is split into logical lines.  A line starts at its first token; before it
there may be lines that are blank or hold only a comment, and indentation.
Open brackets and a backslash before a line end make a line go on.
-/

namespace IconConstraints.Source

def tabSize : Nat := 8

/-- The column reached by the white space at the head of a line, and the text after it. -/
def indentation (column : Nat) : List Char → Nat × List Char
  | [] => (column, [])
  | c :: cs =>
    if c = ' ' then indentation (column + 1) cs
    else if c = '\t' then indentation ((column / tabSize + 1) * tabSize) cs
    else if c = '\x0c' then indentation 0 cs
    else (column, c :: cs)

theorem indentation_rest_length (column : Nat) (cs : List Char) :
    (indentation column cs).2.length ≤ cs.length := by
  fun_induction indentation column cs with
  | case1 => exact Nat.le_refl _
  | case2 _ _ ih => exact Nat.le_succ_of_le ih
  | case3 _ _ _ ih => exact Nat.le_succ_of_le ih
  | case4 _ _ _ _ ih => exact Nat.le_succ_of_le ih
  | case5 => exact Nat.le_refl _

/-- A logical line that is being read; the latest token comes first. -/
structure OpenLine where
  indent : Nat
  line : Nat
  depth : Nat
  tokens : List Token
  deriving DecidableEq, Repr

namespace OpenLine

def begin (indent line : Nat) : OpenLine :=
  ⟨indent, line, 0, []⟩

def push (o : OpenLine) (t : Token) : OpenLine :=
  { o with depth := t.depthAfter o.depth, tokens := t :: o.tokens }

/-- A line without tokens, such as a lone backslash, is dropped. -/
def finish? (o : OpenLine) : Option LogicalLine :=
  if o.tokens.isEmpty then none else some ⟨o.indent, o.line, o.tokens.reverse⟩

end OpenLine

/-- A line that begins with one of these holds no token. -/
def beginsBlank (c : Char) : Bool :=
  c == '\n' || c == '\r' || c == '#'

def isUnstarted (current : Option OpenLine) : Nat :=
  if current.isNone then 1 else 0

/-- The logical lines of the text `cs` that starts on physical line `line`, in the middle of
`current` if there is one; `done` are the lines before, the last one first. -/
def linesFrom (line : Nat) (current : Option OpenLine) (done : List LogicalLine) (cs : List Char) :
    Except LexError (List LogicalLine) :=
  match current with
  | none =>
    match _found : indentation 0 cs with
    | (_, []) => .ok done.reverse
    | (indent, c :: after) =>
      if beginsBlank c then
        match left : skipComment (c :: after) with
        | [] => .ok done.reverse
        | _ :: rest => linesFrom (line + 1) none done rest
      else linesFrom line (some (.begin indent line)) done (c :: after)
  | some o =>
    match cs with
    | [] => if o.depth = 0 then .ok (o.finish?.toList ++ done).reverse else .error ⟨line, .unclosedBracket⟩
    | c :: after =>
      match _read : lexeme c after with
      | .error stop => .error ⟨line + stop.lineEnds, stop.fault⟩
      | .ok ⟨.gap, rest, lineEnds⟩ => linesFrom (line + lineEnds) (some o) done rest
      | .ok ⟨.lineEnd, rest, lineEnds⟩ =>
        if o.depth = 0 then linesFrom (line + lineEnds) none (o.finish?.toList ++ done) rest
        else linesFrom (line + lineEnds) (some o) done rest
      | .ok ⟨.token kind, rest, lineEnds⟩ =>
        linesFrom (line + lineEnds) (some (o.push ⟨kind, line + lineEnds⟩)) done rest
  termination_by (cs.length, isUnstarted current)
  decreasing_by
    · have := indentation_rest_length 0 cs
      have dropped : (skipComment (c :: after)).length ≤ (c :: after).length :=
        (List.dropWhile_sublist _).length_le
      rw [_found] at this
      rw [left] at dropped
      simp only [List.length_cons] at *
      exact Prod.Lex.left _ _ (by omega)
    · have := indentation_rest_length 0 cs
      rw [_found] at this
      exact (Nat.lt_or_eq_of_le this).elim (Prod.Lex.left _ _)
        fun same => by rw [show (c :: after).length = cs.length from same]; exact Prod.Lex.right _ Nat.zero_lt_one
    all_goals
      have := lexeme_rest_length _read
      exact Prod.Lex.left _ _ (Nat.lt_succ_of_le this)

/-- The logical lines of a whole text. -/
def logicalLines (text : String) : Except LexError (List LogicalLine) :=
  linesFrom 1 none [] text.toList

end IconConstraints.Source
