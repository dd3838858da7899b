import IconConstraints.Expression.Words
import IconConstraints.Source.Token

/-!
# Assignments and blocks

Of the statements of a script only plain assignments matter, and of its blocks
only the one that belongs to a given header line.
-/

namespace IconConstraints

open Source

/-! ## Assignments -/

/-- What an assignment binds: a name, an attribute path, or something else. -/
inductive Target where
  | name (name : String)
  | attribute (path : String)
  | other
  deriving DecidableEq, Repr

structure Assignment where
  targets : List Target
  value : List Token
  line : Nat
  deriving DecidableEq, Repr

namespace Target

/-- Attribute names, each after a dot. -/
def attributePath? : List Token → Option String
  | [] => some ""
  | ⟨.op .dot, _⟩ :: ⟨.name n, _⟩ :: rest => (attributePath? rest).map ("." ++ n ++ ·)
  | _ => none

def ofTokens : List Token → Target
  | [⟨.name n, _⟩] => if reservedWords.contains n then .other else .name n
  | ⟨.name n, _⟩ :: rest =>
    match attributePath? rest with
    | some path => .attribute (n ++ path)
    | none => .other
  | _ => .other

end Target

/-- The parts of a line between equals signs that lie outside brackets; `depth` brackets are open. -/
def assignmentParts (depth : Nat) : List Token → List (List Token)
  | [] => [[]]
  | t :: ts =>
    if depth = 0 ∧ t.isOp .assign then [] :: assignmentParts 0 ts
    else match assignmentParts (t.depthAfter depth) ts with
      | part :: parts => (t :: part) :: parts
      | [] => [[t]]

def beginsStatement : List Token → Bool
  | ⟨.name n, _⟩ :: _ => statementKeywords.contains n
  | _ => false

namespace Assignment

/-- Reads a line as an assignment; augmented and annotated ones are none. -/
def ofLine? (l : LogicalLine) : Option Assignment :=
  if beginsStatement l.tokens then none
  else
    let parts := assignmentParts 0 l.tokens
    match parts.dropLast, parts.getLast? with
    | first :: more, some value => some ⟨(first :: more).map Target.ofTokens, value, l.line⟩
    | _, _ => none

end Assignment

/-! ## Blocks -/

/-- Whether the line opens a definition such as `class font_patcher`. -/
def opensDefinition (keyword name : String) (l : LogicalLine) : Bool :=
  match l.tokens with
  | k :: n :: _ => k.isName keyword && n.isName name
  | _ => false

/-- The index of the first line from `start` on that opens the definition. -/
def definitionIndex? (keyword name : String) (start : Nat) (lines : List LogicalLine) : Option Nat :=
  ((lines.drop start).findIdx? (opensDefinition keyword name)).map (start + ·)

/-- The lines of the block that the line `header` opens, at every depth. -/
def blockLines (header : Nat) (lines : List LogicalLine) : List LogicalLine :=
  match lines.drop header with
  | head :: rest => rest.takeWhile (head.indent < ·.indent)
  | [] => []

/-- The lines of the block at the indentation of its first line. -/
def blockBody (header : Nat) (lines : List LogicalLine) : List LogicalLine :=
  match blockLines header lines with
  | [] => []
  | first :: rest => (first :: rest).filter (·.indent == first.indent)

end IconConstraints
