import IconConstraints.Proofs.Lookahead
import IconConstraints.Proofs.Scripts
import IconConstraints.Statement

/-!
# Plain assignments

A line is read as an assignment by its equals signs outside brackets alone: they part it
into targets and a value, unless the line begins with a keyword.  That is all a plain
assignment needs, but not all it excludes.  A semicolon, an augmented assignment or an
annotation outside brackets does not stop the line from being read.
-/

namespace IconConstraints

open Source

variable {depth : Nat} {t : Token} {ts part value rest : List Token} {parts : List (List Token)}

/-! ## Tokens outside brackets -/

/-- The tokens at which no bracket is open, after a text that leaves `depth` brackets open. -/
def outsideBrackets : (depth : Nat) → List Token → List Token
  | _, [] => []
  | 0, t :: ts => t :: outsideBrackets (t.depthAfter 0) ts
  | depth + 1, t :: ts => outsideBrackets (t.depthAfter (depth + 1)) ts

def depthOver (depth : Nat) (ts : List Token) : Nat :=
  ts.foldl (fun depth t => t.depthAfter depth) depth

/-- No equals sign stands outside brackets. -/
def Unparted (depth : Nat) (ts : List Token) : Prop :=
  ∀ t ∈ outsideBrackets depth ts, t.isOp .assign = false

theorem unparted_nil (depth : Nat) : Unparted depth [] := by
  simp [Unparted, outsideBrackets]

theorem unparted_cons :
    Unparted depth (t :: ts) ↔
      ¬ (depth = 0 ∧ t.isOp .assign = true) ∧ Unparted (t.depthAfter depth) ts := by
  cases depth <;> simp [Unparted, outsideBrackets]

/-! ## Parts between equals signs -/

/-- The tokens are `parts` with an equals sign outside brackets after each, and then the
`value`; no other equals sign is outside brackets. -/
inductive Parted : (depth : Nat) → (parts : List (List Token)) → (value : List Token) →
    List Token → Prop
  | value {depth : Nat} {value : List Token} (h : Unparted depth value) :
      Parted depth [] value value
  | target {depth line : Nat} {part value rest : List Token} {parts : List (List Token)}
      (hpart : Unparted depth part) (hdepth : depthOver depth part = 0)
      (hrest : Parted 0 parts value rest) :
      Parted depth (part :: parts) value (part ++ ⟨.op .assign, line⟩ :: rest)

theorem Parted.cons (h : Parted (t.depthAfter depth) parts value ts)
    (ht : ¬ (depth = 0 ∧ t.isOp .assign = true)) :
    (∃ part more, parts = part :: more ∧ Parted depth ((t :: part) :: more) value (t :: ts)) ∨
      parts = [] ∧ Parted depth [] (t :: value) (t :: ts) := by
  cases h with
  | value hvalue => exact .inr ⟨rfl, .value (unparted_cons.mpr ⟨ht, hvalue⟩)⟩
  | @target _ _ part _ _ parts hpart hdepth hrest =>
      have hlonger : Unparted depth (t :: part) := unparted_cons.mpr ⟨ht, hpart⟩
      exact .inl ⟨part, parts, rfl, .target hlonger hdepth hrest⟩

theorem assignmentParts_cons_of_not (ht : ¬ (depth = 0 ∧ t.isOp .assign = true))
    (h : assignmentParts (t.depthAfter depth) ts = part :: parts) :
    assignmentParts depth (t :: ts) = (t :: part) :: parts := by
  rw [assignmentParts, if_neg ht, h]

theorem assignmentParts_of_unparted (h : Unparted depth ts) : assignmentParts depth ts = [ts] := by
  induction ts generalizing depth with
  | nil => rfl
  | cons t ts ih =>
      obtain ⟨ht, hts⟩ := unparted_cons.mp h
      exact assignmentParts_cons_of_not ht (ih hts)

theorem assignmentParts_target {line : Nat} (hpart : Unparted depth part)
    (hdepth : depthOver depth part = 0) (rest : List Token) :
    assignmentParts depth (part ++ ⟨.op .assign, line⟩ :: rest) =
      part :: assignmentParts 0 rest := by
  induction part generalizing depth with
  | nil =>
      obtain rfl : depth = 0 := hdepth
      rfl
  | cons t part ih =>
      obtain ⟨ht, hpart⟩ := unparted_cons.mp hpart
      exact assignmentParts_cons_of_not ht (ih hpart hdepth)

theorem Parted.assignmentParts_eq (h : Parted depth parts value ts) :
    assignmentParts depth ts = parts ++ [value] := by
  induction h with
  | value hvalue => exact assignmentParts_of_unparted hvalue
  | target hpart hdepth _ ih => rw [assignmentParts_target hpart hdepth, ih, List.cons_append]

theorem exists_parted (depth : Nat) (ts : List Token) :
    ∃ parts value, Parted depth parts value ts := by
  induction ts generalizing depth with
  | nil => exact ⟨[], [], .value (unparted_nil depth)⟩
  | cons t ts ih =>
      by_cases ht : depth = 0 ∧ t.isOp .assign = true
      · obtain ⟨rfl, hassign⟩ := ht
        obtain ⟨parts, value, h⟩ := ih 0
        obtain ⟨kind, line⟩ := t
        obtain rfl : kind = .op .assign := Parsing.isOp_iff.mp hassign
        exact ⟨[] :: parts, value, .target (unparted_nil 0) rfl h⟩
      · obtain ⟨parts, value, h⟩ := ih (t.depthAfter depth)
        obtain ⟨part, more, -, h⟩ | ⟨-, h⟩ := h.cons ht
        · exact ⟨_, _, h⟩
        · exact ⟨_, _, h⟩

/-! ## Lines that are read -/

/-- The line has targets and a value, and no keyword begins another statement. -/
structure Source.LogicalLine.Assigns (l : LogicalLine) (targets : List (List Token))
    (value : List Token) : Prop where
  parted : Parted 0 targets value l.tokens
  targets_ne_nil : targets ≠ []
  no_keyword : ∀ n line rest, l.tokens = ⟨.name n, line⟩ :: rest → n ∉ statementKeywords

theorem beginsStatement_eq_false {ts : List Token} :
    beginsStatement ts = false ↔
      ∀ n line rest, ts = ⟨.name n, line⟩ :: rest → n ∉ statementKeywords := by
  cases ts with
  | nil => simp [beginsStatement]
  | cons t ts =>
      obtain ⟨kind, line⟩ := t
      cases kind <;> simp [beginsStatement]

theorem ofLine?_eq_some {l : LogicalLine} {a : Assignment} :
    Assignment.ofLine? l = some a ↔ ∃ targets value, l.Assigns targets value ∧
      a = ⟨targets.map Target.ofTokens, value, l.line⟩ := by
  obtain ⟨targets, value, hparted⟩ := exists_parted 0 l.tokens
  have hparts : assignmentParts 0 l.tokens = targets ++ [value] := hparted.assignmentParts_eq
  constructor
  · intro h
    unfold Assignment.ofLine? at h
    simp only [hparts, List.dropLast_concat, List.getLast?_concat] at h
    split at h
    case isTrue => cases h
    case isFalse hbegins =>
      cases targets with
      | nil => cases h
      | cons first more =>
          cases h
          have hkeyword := beginsStatement_eq_false.mp (by simpa using hbegins)
          exact ⟨_, _, ⟨hparted, by simp, hkeyword⟩, rfl⟩
  · rintro ⟨targets', value', ⟨hparted', hne, hkeyword⟩, rfl⟩
    unfold Assignment.ofLine?
    rw [beginsStatement_eq_false.mpr hkeyword]
    simp only [hparted'.assignmentParts_eq, List.dropLast_concat, List.getLast?_concat]
    cases targets' with
    | nil => exact absurd rfl hne
    | cons first more => rfl

/-! ## Plain assignments -/

def Source.Operator.isAugmented : Operator → Bool
  | .plusAssign | .minusAssign | .timesAssign | .divideAssign | .floorDivideAssign
  | .moduloAssign | .powerAssign | .matrixAssign | .andAssign | .orAssign | .xorAssign
  | .shiftLeftAssign | .shiftRightAssign => true
  | _ => false

def Source.Token.isAugmented (t : Token) : Bool :=
  match t.kind with
  | .op o => o.isAugmented
  | _ => false

/-- Outside brackets there is no semicolon, no augmented assignment, and no colon before the
first equals sign. -/
def Source.LogicalLine.isUnmixed (l : LogicalLine) : Bool :=
  let outside := outsideBrackets 0 l.tokens
  outside.all (fun t => !t.isOp .semicolon && !t.isAugmented) &&
    (outside.takeWhile (!·.isOp .assign)).all (!·.isOp .colon)

/-- The line is a plain assignment of the value to the targets. -/
def Source.LogicalLine.IsPlain (l : LogicalLine) (targets : List (List Token))
    (value : List Token) : Prop :=
  l.Assigns targets value ∧ l.isUnmixed = true

/-- Lines are read by their parts alone, so that exactly the plain assignments are read if a
line with targets and a value is always unmixed. -/
theorem ofLine?_plain_iff (l : LogicalLine) :
    (∀ a, Assignment.ofLine? l = some a ↔ ∃ targets value, l.Assigns targets value ∧
      a = ⟨targets.map Target.ofTokens, value, l.line⟩) ∧
    ((∀ a, Assignment.ofLine? l = some a ↔ ∃ targets value, l.IsPlain targets value ∧
      a = ⟨targets.map Target.ofTokens, value, l.line⟩) ↔
        ((∃ targets value, l.Assigns targets value) → l.isUnmixed = true)) := by
  refine ⟨fun a => ofLine?_eq_some, ?_, ?_⟩
  · rintro hplain ⟨targets, value, hassigns⟩
    obtain ⟨_, _, hplain, -⟩ := (hplain _).mp (ofLine?_eq_some.mpr ⟨_, _, hassigns, rfl⟩)
    exact hplain.2
  · intro hunmixed a
    rw [ofLine?_eq_some]
    constructor
    · rintro ⟨targets, value, hassigns, rfl⟩
      exact ⟨targets, value, ⟨hassigns, hunmixed ⟨_, _, hassigns⟩⟩, rfl⟩
    · rintro ⟨targets, value, hplain, rfl⟩
      exact ⟨targets, value, hplain.1, rfl⟩

/-! ## Two lines that are no plain assignments -/

/-- An annotated assignment. -/
def annotatedLine : LogicalLine :=
  ⟨0, 1, [⟨.name "x", 1⟩, ⟨.op .colon, 1⟩, ⟨.name "int", 1⟩, ⟨.op .assign, 1⟩, ⟨.int 1, 1⟩]⟩

/-- Two assignments on one line. -/
def joinedLine : LogicalLine :=
  ⟨0, 2, [⟨.name "a", 2⟩, ⟨.op .assign, 2⟩, ⟨.int 1, 2⟩, ⟨.op .semicolon, 2⟩, ⟨.name "b", 2⟩,
    ⟨.op .assign, 2⟩, ⟨.int 1, 2⟩]⟩

def mixedWords : List (Nat × List Word) :=
  [(0, [.ofName "x", .ofOperator .colon, .ofName "int", .ofOperator .assign, ⟨'1', [], .int 1⟩]),
   (0, [.ofName "a", .ofOperator .assign, ⟨'1', [], .int 1⟩, .ofOperator .semicolon, .ofName "b",
     .ofOperator .assign, ⟨'1', [], .int 1⟩])]

theorem logicalLines_mixedWords :
    logicalLines "x : int = 1 \na = 1 ; b = 1 \n" = .ok [annotatedLine, joinedLine] := by
  have hnames : ∀ n ∈ ["x", "int", "a", "b"], (Word.ofName n).Reads := by
    simp only [List.forall_mem_cons]
    exact ⟨fun _ => rfl, fun _ => rfl, fun _ => rfl, fun _ => rfl, by simp⟩
  simp only [List.forall_mem_cons] at hnames
  obtain ⟨hx, hint, ha, hb, -⟩ := hnames
  have hlines : logicalLines "x : int = 1 \na = 1 ; b = 1 \n" =
      .ok (Word.lines 1 mixedWords) := by
    refine Word.logicalLines_text rfl ?_
    simp only [mixedWords, List.forall_mem_cons, List.not_mem_nil, false_imp_iff, implies_true,
      and_true, hx, hint, ha, hb, Word.digit_one_reads, Word.ofOperator_reads]
    exact ⟨⟨by simp, trivial, rfl⟩, by simp, trivial, rfl⟩
  exact hlines

/-- The annotation becomes part of a target, and the end of the first statement one of the
second. -/
theorem mixed_lines_read :
    logicalLines "x : int = 1 \na = 1 ; b = 1 \n" = .ok [annotatedLine, joinedLine] ∧
    Assignment.ofLine? annotatedLine = some ⟨[.other], [⟨.int 1, 1⟩], 1⟩ ∧
    (∀ targets value, ¬ annotatedLine.IsPlain targets value) ∧
    Assignment.ofLine? joinedLine = some ⟨[.name "a", .other], [⟨.int 1, 2⟩], 2⟩ ∧
    (∀ targets value, ¬ joinedLine.IsPlain targets value) := by
  refine ⟨logicalLines_mixedWords, rfl, fun _ _ h => ?_, rfl, fun _ _ h => ?_⟩
  · cases h.2
  · cases h.2

end IconConstraints
