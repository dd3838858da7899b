import IconConstraints.Expression
import IconConstraints.Expression.Parsing

/-!
# The grammar of expressions

Which lists of tokens are a rendering of an expression, said without a parser.
The levels are the ranks of precedence.  A production says how an expression of
one level is put together from tokens and from parts of given levels; what counts
as a part is a parameter, and the renderings are the least relation that is closed
under the productions.
-/

namespace IconConstraints.Grammar

open Source

/-! ## Levels -/

/-- The ranks of precedence, the tightest first. -/
inductive Level where
  | atom | primary | power | signed
  | tier (tier : Parsing.Tier)
  | comparison | negation
  | chain (op : Connective)
  | conditional | list
  deriving DecidableEq, Repr

/-- The level of the right operand in a tier of binary operators. -/
def tierOperand : Parsing.Tier → Level
  | .bitOr => .tier .bitXor
  | .bitXor => .tier .bitAnd
  | .bitAnd => .tier .shift
  | .shift => .tier .sum
  | .sum => .tier .product
  | .product => .signed

def connectiveOperand : Connective → Level
  | .or => .chain .and
  | .and => .negation

def Level.tighter? : Level → Option Level
  | .list => some .conditional
  | .conditional => some (.chain .or)
  | .chain op => some (connectiveOperand op)
  | .negation => some .comparison
  | .comparison => some (.tier .bitOr)
  | .tier t => some (tierOperand t)
  | .signed => some .power
  | .power => some .primary
  | .primary => some .atom
  | .atom => none

/-! ## Spellings -/

def word : Connective → String
  | .and => "and"
  | .or => "or"

def prefixSign : UnaryOp → Option Operator
  | .neg => some .minus
  | .pos => some .plus
  | .invert => some .tilde
  | .not => none

/-- The sign of a left-associative operator with its tier. -/
def infixSign : BinaryOp → Option (Parsing.Tier × Operator)
  | .bitOr => some (.bitOr, .bar)
  | .bitXor => some (.bitXor, .caret)
  | .bitAnd => some (.bitAnd, .ampersand)
  | .shl => some (.shift, .shiftLeft)
  | .shr => some (.shift, .shiftRight)
  | .add => some (.sum, .plus)
  | .sub => some (.sum, .minus)
  | .mul => some (.product, .times)
  | .div => some (.product, .divide)
  | .floorDiv => some (.product, .floorDivide)
  | .mod => some (.product, .modulo)
  | .pow => none

def comparisonWords : CompareOp → List TokenKind
  | .eq => [.op .equal]
  | .notEq => [.op .notEqual]
  | .lt => [.op .less]
  | .ltE => [.op .lessEqual]
  | .gt => [.op .greater]
  | .gtE => [.op .greaterEqual]
  | .isIn => [.name "in"]
  | .notIn => [.name "not", .name "in"]
  | .is => [.name "is"]
  | .isNot => [.name "is", .name "not"]

/-- Whether a name atom can have this name. -/
def Nameable (n : String) : Prop :=
  n ∉ "True" :: "False" :: "None" :: reservedWords

theorem Nameable.not_reserved {n : String} (h : Nameable n) : n ∉ reservedWords :=
  fun hmem => h (by simp [hmem])

/-- One string, written as one or more adjacent tokens. -/
inductive Adjacent : List Token → String → Prop
  | one {s : String} {n : Nat} : Adjacent [⟨.str s, n⟩] s
  | more {s more : String} {n : Nat} {ts : List Token} :
      Adjacent ts more → Adjacent (⟨.str s, n⟩ :: ts) (s ++ more)

/-! ## Productions -/

section Productions

/-- Items with commas between them, and perhaps one after the last; with the items
goes whether there is a comma. -/
inductive Listed {α : Type} (Item : List Token → α → Prop) :
    List Token → List α → Bool → Prop
  | none : Listed Item [] [] false
  | last {ts : List Token} {x : α} : Item ts x → Listed Item ts [x] false
  | more {ts rest : List Token} {x : α} {xs : List α} {comma : Bool} {n : Nat} :
      Item ts x → Listed Item rest xs comma →
      Listed Item (ts ++ ⟨.op .comma, n⟩ :: rest) (x :: xs) true

/-- Without a comma there is at most one item. -/
theorem Listed.comma_or {α : Type} {Item : List Token → α → Prop} {ts : List Token}
    {xs : List α} {comma : Bool} (h : Listed Item ts xs comma) :
    comma = true ∨ xs = [] ∨ ∃ x, comma = false ∧ xs = [x] ∧ Item ts x := by
  cases h with
  | none => exact .inr (.inl rfl)
  | last hx => exact .inr (.inr ⟨_, rfl, rfl, hx⟩)
  | more => exact .inl rfl

variable (Part : Level → List Token → Expr → Prop)

inductive ArgumentForm : List Token → Argument → Prop
  | positional {ts : List Token} {e : Expr} :
      Part .conditional ts e → ArgumentForm ts (.positional e)
  | keyword {w : String} {n m : Nat} {ts : List Token} {e : Expr} :
      Part .conditional ts e →
      ArgumentForm (⟨.name w, n⟩ :: ⟨.op .assign, m⟩ :: ts) (.keyword w e)

inductive EntryForm : List Token → DictItem → Prop
  | pair {ks vs : List Token} {key value : Expr} {n : Nat} :
      Part .conditional ks key → Part .conditional vs value →
      EntryForm (ks ++ ⟨.op .colon, n⟩ :: vs) (.pair key value)
  | unpack {ts : List Token} {mapping : Expr} {n : Nat} :
      Part (.tier .bitOr) ts mapping → EntryForm (⟨.op .power, n⟩ :: ts) (.unpack mapping)

/-- The further operands of a chain, each after the word. -/
inductive Operands (op : Connective) : List Token → List Expr → Prop
  | none : Operands op [] []
  | more {n : Nat} {ts rest : List Token} {e : Expr} {es : List Expr} :
      Part (connectiveOperand op) ts e → Operands op rest es →
      Operands op (⟨.name (word op), n⟩ :: (ts ++ rest)) (e :: es)

/-- The further operands of a comparison, each after its operator. -/
inductive Comparands : List Token → List (CompareOp × Expr) → Prop
  | none : Comparands [] []
  | more {op : CompareOp} {ws ts rest : List Token} {e : Expr} {es : List (CompareOp × Expr)} :
      ws.map Token.kind = comparisonWords op → Part (.tier .bitOr) ts e → Comparands rest es →
      Comparands (ws ++ (ts ++ rest)) ((op, e) :: es)

/-- The ways to write an expression of a level when `Part` tells how to write the
expressions in it. -/
inductive Production : Level → List Token → Expr → Prop
  | tighter {l l' : Level} {ts : List Token} {e : Expr} :
      l.tighter? = some l' → Part l' ts e → Production l ts e
  | bare {ts : List Token} {items : List Expr} :
      Listed (Part .conditional) ts items true → Production .list ts (.tuple items)
  | conditional {bs ts os : List Token} {body test orelse : Expr} {n m : Nat} :
      Part (.chain .or) bs body → Part (.chain .or) ts test → Part .conditional os orelse →
      Production .conditional (bs ++ ⟨.name "if", n⟩ :: (ts ++ ⟨.name "else", m⟩ :: os))
        (.conditional body test orelse)
  | or {ts rest : List Token} {first second : Expr} {more : List Expr} :
      Part (.chain .and) ts first → Operands Part .or rest (second :: more) →
      Production (.chain .or) (ts ++ rest) (.chain .or (first :: second :: more))
  | and {ts rest : List Token} {first second : Expr} {more : List Expr} :
      Part .negation ts first → Operands Part .and rest (second :: more) →
      Production (.chain .and) (ts ++ rest) (.chain .and (first :: second :: more))
  | not {n : Nat} {ts : List Token} {e : Expr} :
      Part .negation ts e → Production .negation (⟨.name "not", n⟩ :: ts) (.unary .not e)
  | compare {ts rest : List Token} {left : Expr} {first : CompareOp × Expr}
      {more : List (CompareOp × Expr)} :
      Part (.tier .bitOr) ts left → Comparands Part rest (first :: more) →
      Production .comparison (ts ++ rest) (.compare left (first :: more))
  | binary {op : BinaryOp} {t : Parsing.Tier} {o : Operator} {n : Nat} {ls rs : List Token}
      {left right : Expr} :
      infixSign op = some (t, o) → Part (.tier t) ls left → Part (tierOperand t) rs right →
      Production (.tier t) (ls ++ ⟨.op o, n⟩ :: rs) (.binary op left right)
  | sign {op : UnaryOp} {o : Operator} {n : Nat} {ts : List Token} {e : Expr} :
      prefixSign op = some o → Part .signed ts e →
      Production .signed (⟨.op o, n⟩ :: ts) (.unary op e)
  | power {bs es : List Token} {base exponent : Expr} {n : Nat} :
      Part .primary bs base → Part .signed es exponent →
      Production .power (bs ++ ⟨.op .power, n⟩ :: es) (.binary .pow base exponent)
  | member {ts : List Token} {base : Expr} {w : String} {n m : Nat} :
      Part .primary ts base →
      Production .primary (ts ++ [⟨.op .dot, n⟩, ⟨.name w, m⟩]) (.attribute base w)
  | call {ts args : List Token} {callee : Expr} {arguments : List Argument} {comma : Bool}
      {n m : Nat} :
      Part .primary ts callee → Listed (ArgumentForm Part) args arguments comma →
      Production .primary (ts ++ ⟨.op .openParen, n⟩ :: (args ++ [⟨.op .closeParen, m⟩]))
        (.call callee arguments)
  | subscript {ts is : List Token} {base index : Expr} {n m : Nat} :
      Part .primary ts base → Part .list is index →
      Production .primary (ts ++ ⟨.op .openBracket, n⟩ :: (is ++ [⟨.op .closeBracket, m⟩]))
        (.subscript base index)
  | int {k : Int64} {n : Nat} : Production .atom [⟨.int k, n⟩] (.int k)
  | float {x : Float} {n : Nat} : Production .atom [⟨.float x, n⟩] (.float x)
  | str {ts : List Token} {s : String} : Adjacent ts s → Production .atom ts (.str s)
  | name {w : String} {n : Nat} : Nameable w → Production .atom [⟨.name w, n⟩] (.name w)
  | true {n : Nat} : Production .atom [⟨.name "True", n⟩] (.bool true)
  | false {n : Nat} : Production .atom [⟨.name "False", n⟩] (.bool false)
  | nothing {n : Nat} : Production .atom [⟨.name "None", n⟩] .nothing
  | ellipsis {n : Nat} : Production .atom [⟨.op .ellipsis, n⟩] .ellipsis
  | group {ts : List Token} {e : Expr} {n m : Nat} :
      Part .conditional ts e →
      Production .atom (⟨.op .openParen, n⟩ :: (ts ++ [⟨.op .closeParen, m⟩])) e
  | tuple {ts : List Token} {items : List Expr} {comma : Bool} {n m : Nat} :
      Listed (Part .conditional) ts items comma → comma = true ∨ items = [] →
      Production .atom (⟨.op .openParen, n⟩ :: (ts ++ [⟨.op .closeParen, m⟩])) (.tuple items)
  | list {ts : List Token} {items : List Expr} {comma : Bool} {n m : Nat} :
      Listed (Part .conditional) ts items comma →
      Production .atom (⟨.op .openBracket, n⟩ :: (ts ++ [⟨.op .closeBracket, m⟩])) (.list items)
  | set {ts : List Token} {first : Expr} {more : List Expr} {comma : Bool} {n m : Nat} :
      Listed (Part .conditional) ts (first :: more) comma →
      Production .atom (⟨.op .openBrace, n⟩ :: (ts ++ [⟨.op .closeBrace, m⟩]))
        (.set (first :: more))
  | dict {ts : List Token} {items : List DictItem} {comma : Bool} {n m : Nat} :
      Listed (EntryForm Part) ts items comma →
      Production .atom (⟨.op .openBrace, n⟩ :: (ts ++ [⟨.op .closeBrace, m⟩])) (.dict items)

end Productions

/-- The tokens are a rendering of the expression at the level. -/
inductive Renders : Level → List Token → Expr → Prop
  | of {l : Level} {ts : List Token} {e : Expr} : Production Renders l ts e → Renders l ts e

/-! ## Induction over renderings -/

abbrev RendersAnd (M : Level → List Token → Expr → Prop) (l : Level) (ts : List Token)
    (e : Expr) : Prop :=
  Renders l ts e ∧ M l ts e

/-- Every production passes `M` on from the parts to the whole. -/
def Hereditary (M : Level → List Token → Expr → Prop) : Prop :=
  ∀ {l ts e}, Production (RendersAnd M) l ts e → M l ts e

variable {M : Level → List Token → Expr → Prop}

-- The parts of a production are renderings in lists of three kinds and in chains, so
-- the recursion goes through all of these.
mutual

private theorem Renders.also (step : Hereditary M) :
    ∀ {l ts e}, Renders l ts e → RendersAnd M l ts e
  | _, _, _, .of h => ⟨.of h, step (production_also step h)⟩

private theorem production_also (step : Hereditary M) :
    ∀ {l ts e}, Production Renders l ts e → Production (RendersAnd M) l ts e
  | _, _, _, .tighter hl h => .tighter hl (h.also step)
  | _, _, _, .bare h => .bare (items_also step h)
  | _, _, _, .conditional hb ht ho => .conditional (hb.also step) (ht.also step) (ho.also step)
  | _, _, _, .or h hs => .or (h.also step) (disjuncts_also step hs)
  | _, _, _, .and h hs => .and (h.also step) (conjuncts_also step hs)
  | _, _, _, .not h => .not (h.also step)
  | _, _, _, .compare h hs => .compare (h.also step) (comparands_also step hs)
  | _, _, _, .binary hop hl hr => .binary hop (hl.also step) (hr.also step)
  | _, _, _, .sign hop h => .sign hop (h.also step)
  | _, _, _, .power hb he => .power (hb.also step) (he.also step)
  | _, _, _, .member h => .member (h.also step)
  | _, _, _, .call h hs => .call (h.also step) (arguments_also step hs)
  | _, _, _, .subscript h hi => .subscript (h.also step) (hi.also step)
  | _, _, _, .int => .int
  | _, _, _, .float => .float
  | _, _, _, .str h => .str h
  | _, _, _, .name h => .name h
  | _, _, _, .true => .true
  | _, _, _, .false => .false
  | _, _, _, .nothing => .nothing
  | _, _, _, .ellipsis => .ellipsis
  | _, _, _, .group h => .group (h.also step)
  | _, _, _, .tuple hs hcomma => .tuple (items_also step hs) hcomma
  | _, _, _, .list hs => .list (items_also step hs)
  | _, _, _, .set hs => .set (items_also step hs)
  | _, _, _, .dict hs => .dict (entries_also step hs)

private theorem items_also (step : Hereditary M) :
    ∀ {ts es comma}, Listed (Renders .conditional) ts es comma →
      Listed (RendersAnd M .conditional) ts es comma
  | _, _, _, .none => .none
  | _, _, _, .last h => .last (h.also step)
  | _, _, _, .more h hs => .more (h.also step) (items_also step hs)

private theorem argument_also (step : Hereditary M) :
    ∀ {ts a}, ArgumentForm Renders ts a → ArgumentForm (RendersAnd M) ts a
  | _, _, .positional h => .positional (h.also step)
  | _, _, .keyword h => .keyword (h.also step)

private theorem arguments_also (step : Hereditary M) :
    ∀ {ts as comma}, Listed (ArgumentForm Renders) ts as comma →
      Listed (ArgumentForm (RendersAnd M)) ts as comma
  | _, _, _, .none => .none
  | _, _, _, .last h => .last (argument_also step h)
  | _, _, _, .more h hs => .more (argument_also step h) (arguments_also step hs)

private theorem entry_also (step : Hereditary M) :
    ∀ {ts i}, EntryForm Renders ts i → EntryForm (RendersAnd M) ts i
  | _, _, .pair hk hv => .pair (hk.also step) (hv.also step)
  | _, _, .unpack h => .unpack (h.also step)

private theorem entries_also (step : Hereditary M) :
    ∀ {ts is comma}, Listed (EntryForm Renders) ts is comma →
      Listed (EntryForm (RendersAnd M)) ts is comma
  | _, _, _, .none => .none
  | _, _, _, .last h => .last (entry_also step h)
  | _, _, _, .more h hs => .more (entry_also step h) (entries_also step hs)

private theorem disjuncts_also (step : Hereditary M) :
    ∀ {ts es}, Operands Renders .or ts es → Operands (RendersAnd M) .or ts es
  | _, _, .none => .none
  | _, _, .more h hs => .more (h.also step) (disjuncts_also step hs)

private theorem conjuncts_also (step : Hereditary M) :
    ∀ {ts es}, Operands Renders .and ts es → Operands (RendersAnd M) .and ts es
  | _, _, .none => .none
  | _, _, .more h hs => .more (h.also step) (conjuncts_also step hs)

private theorem comparands_also (step : Hereditary M) :
    ∀ {ts es}, Comparands Renders ts es → Comparands (RendersAnd M) ts es
  | _, _, .none => .none
  | _, _, .more hop h hs => .more hop (h.also step) (comparands_also step hs)

end

/-- What every production passes on from its parts holds of every rendering. -/
theorem Renders.induction (step : Hereditary M) {l : Level} {ts : List Token} {e : Expr}
    (h : Renders l ts e) : M l ts e :=
  (h.also step).2

/-! ## Climbing the levels -/

/-- The place of a level in the order of precedence.  The gaps leave room for the
operands of a chain and of a tier. -/
def Level.height : Level → Nat
  | .atom => 1
  | .primary => 2
  | .power => 3
  | .signed => 4
  | .tier .product => 6
  | .tier .sum => 8
  | .tier .shift => 10
  | .tier .bitAnd => 12
  | .tier .bitXor => 14
  | .tier .bitOr => 16
  | .comparison => 17
  | .negation => 18
  | .chain .and => 20
  | .chain .or => 22
  | .conditional => 23
  | .list => 24

theorem Level.height_pos (l : Level) : 0 < l.height := by
  unfold height
  split <;> omega

theorem Level.height_le (l : Level) : l.height ≤ Level.list.height := by
  change l.height ≤ 24
  unfold height
  split <;> omega

theorem Level.height_injective {l l' : Level} (h : l.height = l'.height) : l = l' := by
  unfold height at h
  split at h <;> split at h <;> first | rfl | cases h

theorem tierOperand_height (t : Parsing.Tier) :
    (tierOperand t).height + 2 ≤ (Level.tier t).height := by
  cases t <;> decide

theorem connectiveOperand_height (op : Connective) :
    (connectiveOperand op).height + 2 ≤ (Level.chain op).height := by
  cases op <;> decide

theorem Level.height_lt_of_tighter? {l l' : Level} (h : l.tighter? = some l') :
    l'.height < l.height := by
  cases l with
  | atom => cases h
  | tier t =>
      cases h
      have := tierOperand_height t
      omega
  | chain op =>
      cases h
      have := connectiveOperand_height op
      omega
  | _ => cases h; decide

/-- No level is between a level and the next tighter one. -/
theorem Level.height_le_of_tighter? {l l' l'' : Level} (h : l.tighter? = some l')
    (hlt : l''.height < l.height) : l''.height ≤ l'.height := by
  have hheights : l''.height ∈ [1, 2, 3, 4, 6, 8, 10, 12, 14, 16, 17, 18, 20, 22, 23, 24] := by
    unfold height
    split <;> decide
  simp only [List.mem_cons, List.not_mem_nil, or_false] at hheights
  generalize l''.height = height at hheights hlt ⊢
  cases l with
  | atom => cases h
  | tier t =>
      cases h
      cases t <;> simp only [tierOperand, Level.height] at hlt ⊢ <;> omega
  | chain op =>
      cases h
      cases op <;> simp only [connectiveOperand, Level.height] at hlt ⊢ <;> omega
  | _ =>
      cases h
      simp only [Level.height] at hlt ⊢
      omega

theorem Renders.loosen {l l' : Level} {ts : List Token} {e : Expr} (h : Renders l' ts e)
    (hl : l'.height ≤ l.height) : Renders l ts e := by
  obtain heq | hlt := Nat.eq_or_lt_of_le hl
  · exact Level.height_injective heq ▸ h
  · cases htighter : l.tighter? with
    | none =>
        cases l with
        | atom =>
            have := l'.height_pos
            have : l'.height = 0 := Nat.lt_one_iff.mp hlt
            omega
        | _ => cases htighter
    | some next =>
        have := Level.height_lt_of_tighter? htighter
        exact .of (.tighter htighter (h.loosen (Level.height_le_of_tighter? htighter hlt)))
termination_by l.height

end IconConstraints.Grammar
