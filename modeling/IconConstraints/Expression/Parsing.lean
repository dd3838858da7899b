import IconConstraints.Expression
import IconConstraints.Expression.SyntaxFault
import IconConstraints.Expression.Words

/-!
# From tokens to expressions

From the loosest to the tightest: a conditional, `or`, `and`, `not`, a chain of
comparisons, six tiers of left-associative operators, signs, the power operator
(whose right operand is a signed one), and an atom with its trailers.  Each
function takes the tokens that are left and returns what it read with the tokens
after it.

The depth of the calls is bounded by a fuel argument: between two tokens that
are consumed there are fewer calls than there are levels.
-/

namespace IconConstraints

open Source

/-- A fault and the tokens that were left when it was found. -/
structure Misread where
  fault : SyntaxFault
  rest : List Token

/-- What a level reads, or where it fails. -/
abbrev Attempt := Except Misread

namespace Parsing

def fail {α : Type} (fault : SyntaxFault) (ts : List Token) : Attempt (α × List Token) :=
  .error ⟨fault, ts⟩

def unexpected {α : Type} (ts : List Token) : Attempt (α × List Token) :=
  match ts with
  | [] => fail .unexpectedEnd ts
  | t :: _ => fail (.unexpectedToken t.kind) ts

def atOp (o : Operator) (ts : List Token) : Bool :=
  (ts.head?.map (·.isOp o)).getD false

def atName (n : String) (ts : List Token) : Bool :=
  (ts.head?.map (·.isName n)).getD false

/-- The tokens after the operator `o`, if it is the next one. -/
def eatOp? (o : Operator) : List Token → Option (List Token)
  | t :: ts => if t.isOp o then some ts else none
  | [] => none

def eatName? (n : String) : List Token → Option (List Token)
  | t :: ts => if t.isName n then some ts else none
  | [] => none

def expectOp (o : Operator) (ts : List Token) : Attempt (List Token) :=
  match eatOp? o ts with
  | some rest => .ok rest
  | none => .error ⟨.expectedOperator o, ts⟩

/-- Whether a list of expressions can end before the next token. -/
def atListEnd : List Token → Bool
  | [] => true
  | t :: _ => [.closeParen, .closeBracket, .closeBrace, .colon, .assign].any t.isOp

def rejectComprehension (ts : List Token) : Attempt Unit :=
  if atName "for" ts || atName "async" ts then .error ⟨.comprehension, ts⟩ else .ok ()

/-! ## Operators by level -/

def connectiveWord : Connective → String
  | .and => "and"
  | .or => "or"

/-- The tiers of left-associative binary operators, the loosest first. -/
inductive Tier where
  | bitOr | bitXor | bitAnd | shift | sum | product
  deriving DecidableEq, Repr

def Tier.tighter? : Tier → Option Tier
  | .bitOr => some .bitXor
  | .bitXor => some .bitAnd
  | .bitAnd => some .shift
  | .shift => some .sum
  | .sum => some .product
  | .product => none

def Tier.operator? (tier : Tier) (o : Operator) : Option BinaryOp :=
  match tier, o with
  | .bitOr, .bar => some .bitOr
  | .bitXor, .caret => some .bitXor
  | .bitAnd, .ampersand => some .bitAnd
  | .shift, .shiftLeft => some .shl
  | .shift, .shiftRight => some .shr
  | .sum, .plus => some .add
  | .sum, .minus => some .sub
  | .product, .times => some .mul
  | .product, .floorDivide => some .floorDiv
  | .product, .divide => some .div
  | .product, .modulo => some .mod
  | _, _ => none

def eatBinaryOp? (tier : Tier) : List Token → Option (BinaryOp × List Token)
  | t :: ts =>
    match t.kind with
    | .op o => (tier.operator? o).map (·, ts)
    | _ => none
  | [] => none

def signOf? : Operator → Option UnaryOp
  | .minus => some .neg
  | .plus => some .pos
  | .tilde => some .invert
  | _ => none

def eatSign? : List Token → Option (UnaryOp × List Token)
  | t :: ts =>
    match t.kind with
    | .op o => (signOf? o).map (·, ts)
    | _ => none
  | [] => none

def symbolicComparison? : Operator → Option CompareOp
  | .equal => some .eq
  | .notEqual => some .notEq
  | .less => some .lt
  | .lessEqual => some .ltE
  | .greater => some .gt
  | .greaterEqual => some .gtE
  | _ => none

/-- A comparison operator; `not in` and `is not` are two words. -/
def eatComparison? (ts : List Token) : Option (CompareOp × List Token) :=
  match ts with
  | t :: after =>
    match t.kind with
    | .op o => (symbolicComparison? o).map (·, after)
    | .name "in" => some (.isIn, after)
    | .name "not" => (eatName? "in" after).map (.notIn, ·)
    | .name "is" =>
      match eatName? "not" after with
      | some rest => some (.isNot, rest)
      | none => some (.is, after)
    | _ => none
  | [] => none

/-! ## Atoms without parts -/

/-- The rest of a string that is written as several adjacent literals. -/
def adjacentStrings : List Token → String × List Token
  | t :: ts =>
    match t.kind with
    | .str s => let (more, rest) := adjacentStrings ts; (s ++ more, rest)
    | _ => ("", t :: ts)
  | [] => ("", [])

def nameAtom (n : String) (ts after : List Token) : Attempt (Expr × List Token) :=
  if n = "True" then .ok (.bool true, after)
  else if n = "False" then .ok (.bool false, after)
  else if n = "None" then .ok (.nothing, after)
  else if reservedWords.contains n then unexpected ts
  else .ok (.name n, after)

/-- A name with an equals sign after it announces a keyword argument. -/
def keyword? : List Token → Option (String × List Token)
  | t :: eq :: rest =>
    match t.kind with
    | .name n => if eq.isOp .assign then some (n, rest) else none
    | _ => none
  | _ => none

/-- What a display in braces has turned out to be; the latest item comes first. -/
inductive Display where
  | undecided
  | pairs (items : List DictItem)
  | elements (items : List Expr)

def Display.toExpr : Display → Expr
  | .undecided => .dict []
  | .pairs items => .dict items.reverse
  | .elements items => .set items.reverse

/-! ## Levels -/

mutual

/-- One expression, or several with commas between them, which make a tuple. -/
def exprList : (fuel : Nat) → List Token → Attempt (Expr × List Token)
  | 0, ts => fail .unexpectedEnd ts
  | fuel + 1, ts => do
    let (first, ts) ← expr fuel ts
    if atOp .comma ts then
      let (items, ts) ← exprListRest fuel [first] ts
      return (.tuple items, ts)
    else return (first, ts)

def exprListRest : (fuel : Nat) → (items : List Expr) → List Token → Attempt (List Expr × List Token)
  | 0, _, ts => fail .unexpectedEnd ts
  | fuel + 1, items, ts =>
    match eatOp? .comma ts with
    | none => .ok (items.reverse, ts)
    | some ts => do
      if atListEnd ts then return (items.reverse, ts)
      let (item, ts) ← expr fuel ts
      exprListRest fuel (item :: items) ts

def expr : (fuel : Nat) → List Token → Attempt (Expr × List Token)
  | 0, ts => fail .unexpectedEnd ts
  | fuel + 1, ts => do
    if atName "lambda" ts then fail .lambdaExpression ts
    else
      let (body, ts) ← chain fuel .or ts
      match eatName? "if" ts with
      | none => return (body, ts)
      | some ts =>
        let (test, ts) ← chain fuel .or ts
        match eatName? "else" ts with
        | none => fail .expectedElse ts
        | some ts =>
          let (orelse, ts) ← expr fuel ts
          return (.conditional body test orelse, ts)

/-- Operands of `or`, each a chain of `and`, whose operands may carry `not`. -/
def chain : (fuel : Nat) → Connective → List Token → Attempt (Expr × List Token)
  | 0, _, ts => fail .unexpectedEnd ts
  | fuel + 1, op, ts => do
    let (first, ts) ← chainOperand fuel op ts
    if atName (connectiveWord op) ts then
      let (operands, ts) ← chainRest fuel op [first] ts
      return (.chain op operands, ts)
    else return (first, ts)

def chainRest : (fuel : Nat) → Connective → (operands : List Expr) → List Token → Attempt (List Expr × List Token)
  | 0, _, _, ts => fail .unexpectedEnd ts
  | fuel + 1, op, operands, ts =>
    match eatName? (connectiveWord op) ts with
    | none => .ok (operands.reverse, ts)
    | some ts => do
      let (operand, ts) ← chainOperand fuel op ts
      chainRest fuel op (operand :: operands) ts

def chainOperand : (fuel : Nat) → Connective → List Token → Attempt (Expr × List Token)
  | 0, _, ts => fail .unexpectedEnd ts
  | fuel + 1, .or, ts => chain fuel .and ts
  | fuel + 1, .and, ts => negation fuel ts

def negation : (fuel : Nat) → List Token → Attempt (Expr × List Token)
  | 0, ts => fail .unexpectedEnd ts
  | fuel + 1, ts =>
    match eatName? "not" ts with
    | none => comparison fuel ts
    | some ts => do
      let (operand, ts) ← negation fuel ts
      return (.unary .not operand, ts)

def comparison : (fuel : Nat) → List Token → Attempt (Expr × List Token)
  | 0, ts => fail .unexpectedEnd ts
  | fuel + 1, ts => do
    let (left, ts) ← binary fuel .bitOr ts
    let (rest, ts) ← comparisonRest fuel [] ts
    return (if rest.isEmpty then left else .compare left rest, ts)

def comparisonRest : (fuel : Nat) → (found : List (CompareOp × Expr)) → List Token →
    Attempt (List (CompareOp × Expr) × List Token)
  | 0, _, ts => fail .unexpectedEnd ts
  | fuel + 1, found, ts =>
    match eatComparison? ts with
    | none => .ok (found.reverse, ts)
    | some (op, ts) => do
      let (right, ts) ← binary fuel .bitOr ts
      comparisonRest fuel ((op, right) :: found) ts

def binary : (fuel : Nat) → Tier → List Token → Attempt (Expr × List Token)
  | 0, _, ts => fail .unexpectedEnd ts
  | fuel + 1, tier, ts => do
    let (left, ts) ← binaryOperand fuel tier ts
    binaryRest fuel tier left ts

def binaryRest : (fuel : Nat) → Tier → (left : Expr) → List Token → Attempt (Expr × List Token)
  | 0, _, _, ts => fail .unexpectedEnd ts
  | fuel + 1, tier, left, ts =>
    match eatBinaryOp? tier ts with
    | none => .ok (left, ts)
    | some (op, ts) => do
      let (right, ts) ← binaryOperand fuel tier ts
      binaryRest fuel tier (.binary op left right) ts

def binaryOperand : (fuel : Nat) → Tier → List Token → Attempt (Expr × List Token)
  | 0, _, ts => fail .unexpectedEnd ts
  | fuel + 1, tier, ts =>
    match tier.tighter? with
    | some tighter => binary fuel tighter ts
    | none => signed fuel ts

def signed : (fuel : Nat) → List Token → Attempt (Expr × List Token)
  | 0, ts => fail .unexpectedEnd ts
  | fuel + 1, ts =>
    match eatSign? ts with
    | none => power fuel ts
    | some (op, ts) => do
      let (operand, ts) ← signed fuel ts
      return (.unary op operand, ts)

def power : (fuel : Nat) → List Token → Attempt (Expr × List Token)
  | 0, ts => fail .unexpectedEnd ts
  | fuel + 1, ts => do
    let (base, ts) ← primary fuel ts
    match eatOp? .power ts with
    | none => return (base, ts)
    | some ts =>
      let (exponent, ts) ← signed fuel ts
      return (.binary .pow base exponent, ts)

def primary : (fuel : Nat) → List Token → Attempt (Expr × List Token)
  | 0, ts => fail .unexpectedEnd ts
  | fuel + 1, ts => do
    let (base, ts) ← atom fuel ts
    trailers fuel base ts

/-- Attributes, calls and subscripts after `base`. -/
def trailers : (fuel : Nat) → (base : Expr) → List Token → Attempt (Expr × List Token)
  | 0, _, ts => fail .unexpectedEnd ts
  | fuel + 1, base, ts =>
    match ts with
    | ⟨.op .dot, _⟩ :: ⟨.name n, _⟩ :: rest => trailers fuel (.attribute base n) rest
    | ⟨.op .dot, _⟩ :: rest => fail .expectedAttribute rest
    | ⟨.op .openParen, _⟩ :: rest => do
      let (arguments, ts) ← callArguments fuel [] rest
      trailers fuel (.call base arguments) ts
    | ⟨.op .openBracket, _⟩ :: rest => do
      let (index, ts) ← exprList fuel rest
      if atOp .colon ts then fail .slice ts
      else
        let ts ← expectOp .closeBracket ts
        trailers fuel (.subscript base index) ts
    | _ => .ok (base, ts)

def callArguments : (fuel : Nat) → (found : List Argument) → List Token → Attempt (List Argument × List Token)
  | 0, _, ts => fail .unexpectedEnd ts
  | fuel + 1, found, ts =>
    match eatOp? .closeParen ts with
    | some rest => .ok (found.reverse, rest)
    | none => do
      if atOp .times ts || atOp .power ts then fail .argumentUnpacking ts
      else
        let (argument, ts) ← callArgument fuel ts
        rejectComprehension ts
        match eatOp? .comma ts with
        | some ts => callArguments fuel (argument :: found) ts
        | none =>
          let ts ← expectOp .closeParen ts
          return ((argument :: found).reverse, ts)

def callArgument : (fuel : Nat) → List Token → Attempt (Argument × List Token)
  | 0, ts => fail .unexpectedEnd ts
  | fuel + 1, ts =>
    match keyword? ts with
    | some (n, rest) => do
      let (value, ts) ← expr fuel rest
      return (.keyword n value, ts)
    | none => do
      let (value, ts) ← expr fuel ts
      return (.positional value, ts)

/-- Items up to the bracket `close`, and whether there was a comma. -/
def sequence : (fuel : Nat) → (close : Operator) → (items : List Expr) → (comma : Bool) → List Token →
    Attempt ((List Expr × Bool) × List Token)
  | 0, _, _, _, ts => fail .unexpectedEnd ts
  | fuel + 1, close, items, comma, ts =>
    match eatOp? close ts with
    | some rest => .ok ((items.reverse, comma), rest)
    | none => do
      if atOp .times ts then fail .starredItem ts
      else
        let (item, ts) ← expr fuel ts
        rejectComprehension ts
        match eatOp? .comma ts with
        | some ts => sequence fuel close (item :: items) true ts
        | none =>
          let ts ← expectOp close ts
          return (((item :: items).reverse, comma), ts)

def atom : (fuel : Nat) → List Token → Attempt (Expr × List Token)
  | 0, ts => fail .unexpectedEnd ts
  | fuel + 1, ts =>
    match ts with
    | [] => fail .unexpectedEnd ts
    | t :: after =>
      match t.kind with
      | .int n => .ok (.int n, after)
      | .float x => .ok (.float x, after)
      | .str s => let (more, rest) := adjacentStrings after; .ok (.str (s ++ more), rest)
      | .name n => nameAtom n ts after
      | .op .ellipsis => .ok (.ellipsis, after)
      | .op .openParen => do
        let ((items, comma), ts) ← sequence fuel .closeParen [] false after
        match items, comma with
        | [item], false => return (item, ts)
        | items, _ => return (.tuple items, ts)
      | .op .openBracket => do
        let ((items, _), ts) ← sequence fuel .closeBracket [] false after
        return (.list items, ts)
      | .op .openBrace =>
        match eatOp? .closeBrace after with
        | some rest => .ok (.dict [], rest)
        | none => do
          let (display, ts) ← braces fuel .undecided after
          return (display.toExpr, ts)
      | .op _ => unexpected ts

/-- The items of a dict or a set, at least one, up to the closing brace. -/
def braces : (fuel : Nat) → Display → List Token → Attempt (Display × List Token)
  | 0, _, ts => fail .unexpectedEnd ts
  | fuel + 1, display, ts => do
    let (display, ts) ← braceItem fuel display ts
    match eatOp? .comma ts with
    | some ts =>
      match eatOp? .closeBrace ts with
      | some ts => return (display, ts)
      | none => braces fuel display ts
    | none =>
      let ts ← expectOp .closeBrace ts
      return (display, ts)

def braceItem : (fuel : Nat) → Display → List Token → Attempt (Display × List Token)
  | 0, _, ts => fail .unexpectedEnd ts
  | fuel + 1, display, ts =>
    match eatOp? .power ts with
    | some ts =>
      match display with
      | .elements _ => fail .unpackInSet ts
      | .undecided => do
        let (mapping, ts) ← binary fuel .bitOr ts
        return (.pairs [.unpack mapping], ts)
      | .pairs items => do
        let (mapping, ts) ← binary fuel .bitOr ts
        return (.pairs (.unpack mapping :: items), ts)
    | none => do
      let (key, ts) ← expr fuel ts
      rejectComprehension ts
      match eatOp? .colon ts with
      | some ts =>
        match display with
        | .elements _ => fail .pairInSet ts
        | .undecided =>
          let (value, ts) ← expr fuel ts
          rejectComprehension ts
          return (.pairs [.pair key value], ts)
        | .pairs items =>
          let (value, ts) ← expr fuel ts
          rejectComprehension ts
          return (.pairs (.pair key value :: items), ts)
      | none =>
        match display with
        | .pairs _ => fail .keyWithoutValue ts
        | .undecided => return (.elements [key], ts)
        | .elements items => return (.elements (key :: items), ts)

end

/-- More calls than can be nested while the tokens are read. -/
def fuelFor (ts : List Token) : Nat :=
  32 * (ts.length + 1)

end Parsing

/-- A fault at the end of the tokens is on the line of the last one. -/
def Misread.locate (all : List Token) (m : Misread) : SyntaxError :=
  ⟨((m.rest.head? <|> all.getLast?).map Token.line).getD 0, m.fault⟩

/-- Reads all tokens as one expression; a bare tuple is allowed. -/
def Expr.ofTokens (ts : List Token) : Except SyntaxError Expr :=
  if ts.isEmpty then .error ⟨0, .emptyExpression⟩
  else
    let parsed : Attempt (Expr × List Token) := do
      let (e, rest) ← Parsing.exprList (Parsing.fuelFor ts) ts
      if rest.isEmpty then return (e, rest) else Parsing.unexpected rest
    (parsed.map Prod.fst).mapError (Misread.locate ts)

end IconConstraints
