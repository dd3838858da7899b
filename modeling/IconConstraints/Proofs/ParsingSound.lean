import IconConstraints.Proofs.Lookahead

/-!
# The parser reads only renderings

Whatever a level of the parser reads is a rendering of the expression that it
returns, and the tokens that it returns are the ones after it.  Every level
leaves the work to levels with less fuel, so the statement is proved for one
amount of fuel from all smaller ones; a loop is followed by an induction of its
own, with what it has gathered so far on the left.
-/

namespace IconConstraints.Parsing

open Source Grammar

variable {fuel : Nat} {ts rest : List Token} {e : Expr}

/-- The function that reads an expression of the level. -/
def parse : Level → Nat → List Token → Attempt (Expr × List Token)
  | .list, fuel, ts => exprList fuel ts
  | .conditional, fuel, ts => expr fuel ts
  | .chain op, fuel, ts => chain fuel op ts
  | .negation, fuel, ts => negation fuel ts
  | .comparison, fuel, ts => comparison fuel ts
  | .tier t, fuel, ts => binary fuel t ts
  | .signed, fuel, ts => signed fuel ts
  | .power, fuel, ts => power fuel ts
  | .primary, fuel, ts => primary fuel ts
  | .atom, fuel, ts => atom fuel ts

/-- The tokens begin with a rendering of the expression and go on with `rest`. -/
def Begins (l : Level) (ts : List Token) (e : Expr) (rest : List Token) : Prop :=
  ∃ used, ts = used ++ rest ∧ Renders l used e

def SoundAt (fuel : Nat) : Prop :=
  ∀ l {ts e rest}, parse l fuel ts = .ok (e, rest) → Begins l ts e rest

def SoundBelow (fuel : Nat) : Prop :=
  ∀ f < fuel, SoundAt f

theorem SoundBelow.here (h : SoundBelow (fuel + 1)) : SoundAt fuel :=
  h fuel (Nat.lt_succ_self fuel)

theorem SoundBelow.pred (h : SoundBelow (fuel + 1)) : SoundBelow fuel :=
  fun f hf => h f (Nat.lt_succ_of_lt hf)

theorem Begins.loosen {l l' : Level} (h : Begins l' ts e rest) (hl : l.tighter? = some l') :
    Begins l ts e rest := by
  obtain ⟨used, rfl, he⟩ := h
  exact ⟨used, rfl, .of (.tighter hl he)⟩

/-! ## Tuples without brackets -/

theorem exprListRest_sound {items found : List Expr} (ih : SoundBelow fuel)
    (h : exprListRest fuel items ts = .ok (found, rest)) :
    ∃ used new, ts = used ++ rest ∧ found = items.reverse ++ new ∧
      ∀ before x, Renders .conditional before x →
        Listed (Renders .conditional) (before ++ used) (x :: new) (atOp .comma ts) := by
  induction fuel generalizing items ts with
  | zero => simp [exprListRest, fail] at h
  | succ fuel ihfuel =>
      rw [exprListRest] at h
      split at h
      case h_1 hcomma =>
        cases h
        refine ⟨[], [], rfl, by simp, fun before x hx => ?_⟩
        simpa [eatOp?_eq_none.mp hcomma] using Listed.last hx
      case h_2 after hcomma =>
        obtain ⟨n, rfl⟩ := eatOp?_eq_some.mp hcomma
        split at h
        case isTrue =>
          cases h
          exact ⟨[⟨.op .comma, n⟩], [], rfl, by simp, fun before x hx => .more hx .none⟩
        case isFalse =>
          simp only [bind_eq_ok, Prod.exists] at h
          obtain ⟨item, after', hitem, h⟩ := h
          obtain ⟨used, rfl, hused⟩ := ih.here .conditional hitem
          obtain ⟨used', new, rfl, rfl, hnew⟩ := ihfuel ih.pred h
          refine ⟨⟨.op .comma, n⟩ :: (used ++ used'), item :: new, by simp, by simp, ?_⟩
          exact fun before x hx => .more hx (hnew used item hused)

theorem exprList_sound (ih : SoundBelow (fuel + 1))
    (h : exprList (fuel + 1) ts = .ok (e, rest)) : Begins .list ts e rest := by
  simp only [exprList, bind_eq_ok, Prod.exists] at h
  obtain ⟨first, after, hfirst, h⟩ := h
  have hbegins := ih.here .conditional hfirst
  split at h
  case isFalse =>
    cases h
    exact hbegins.loosen rfl
  case isTrue hcomma =>
    simp only [bind_eq_ok, Prod.exists] at h
    obtain ⟨items, after', hrest, h⟩ := h
    cases h
    obtain ⟨used, rfl, hused⟩ := hbegins
    obtain ⟨used', new, rfl, rfl, hnew⟩ :=
      exprListRest_sound ih.pred hrest
    have hitems := hnew used first hused
    rw [hcomma] at hitems
    exact ⟨used ++ used', by simp, .of (.bare hitems)⟩

/-! ## From conditionals to comparisons -/

theorem expr_sound (ih : SoundBelow (fuel + 1)) (h : expr (fuel + 1) ts = .ok (e, rest)) :
    Begins .conditional ts e rest := by
  simp only [expr] at h
  split at h
  case isTrue => cases h
  case isFalse =>
    simp only [bind_eq_ok, Prod.exists] at h
    obtain ⟨body, after, hbody, h⟩ := h
    have hbegins := ih.here (.chain .or) hbody
    split at h
    case h_1 =>
      cases h
      exact hbegins.loosen rfl
    case h_2 afterIf hif =>
      simp only [bind_eq_ok, Prod.exists] at h
      obtain ⟨test, after', htest, h⟩ := h
      split at h
      case h_1 => cases h
      case h_2 afterElse helse =>
        simp only [bind_eq_ok, Prod.exists] at h
        obtain ⟨orelse, after'', horelse, h⟩ := h
        cases h
        obtain ⟨n, rfl⟩ := eatName?_eq_some.mp hif
        obtain ⟨m, rfl⟩ := eatName?_eq_some.mp helse
        obtain ⟨bs, rfl, hbs⟩ := hbegins
        obtain ⟨ts, rfl, hts⟩ := ih.here (.chain .or) htest
        obtain ⟨os, rfl, hos⟩ := ih.here .conditional horelse
        exact ⟨bs ++ ⟨.name "if", n⟩ :: (ts ++ ⟨.name "else", m⟩ :: os), by simp,
          .of (.conditional hbs hts hos)⟩

theorem chainOperand_sound {op : Connective} (ih : SoundBelow fuel)
    (h : chainOperand fuel op ts = .ok (e, rest)) : Begins (connectiveOperand op) ts e rest := by
  cases fuel with
  | zero => simp [chainOperand, fail] at h
  | succ fuel =>
      cases op with
      | or =>
          rw [chainOperand] at h
          exact ih.here (.chain .and) h
      | and =>
          rw [chainOperand] at h
          exact ih.here .negation h

theorem connectiveWord_eq (op : Connective) : connectiveWord op = word op := by
  cases op <;> rfl

theorem chainRest_sound {op : Connective} {operands found : List Expr}
    (ih : SoundBelow fuel) (h : chainRest fuel op operands ts = .ok (found, rest)) :
    ∃ used new, ts = used ++ rest ∧ found = operands.reverse ++ new ∧
      Operands Renders op used new ∧ (atName (word op) ts = true → new ≠ []) := by
  induction fuel generalizing operands ts with
  | zero => simp [chainRest, fail] at h
  | succ fuel ihfuel =>
      rw [chainRest, connectiveWord_eq] at h
      split at h
      case h_1 hword =>
        cases h
        exact ⟨[], [], rfl, by simp, .none, by simp [eatName?_eq_none.mp hword]⟩
      case h_2 after hword =>
        simp only [bind_eq_ok, Prod.exists] at h
        obtain ⟨operand, after', hoperand, h⟩ := h
        obtain ⟨n, rfl⟩ := eatName?_eq_some.mp hword
        obtain ⟨used, rfl, hused⟩ :=
          chainOperand_sound ih.pred hoperand
        obtain ⟨used', new, rfl, rfl, hnew, -⟩ := ihfuel ih.pred h
        exact ⟨⟨.name (word op), n⟩ :: (used ++ used'), operand :: new, by simp, by simp,
          .more hused hnew, by simp⟩

theorem chain_sound {op : Connective} (ih : SoundBelow (fuel + 1))
    (h : chain (fuel + 1) op ts = .ok (e, rest)) : Begins (.chain op) ts e rest := by
  simp only [chain, connectiveWord_eq, bind_eq_ok, Prod.exists] at h
  obtain ⟨first, after, hfirst, h⟩ := h
  have hbegins := chainOperand_sound ih.pred hfirst
  split at h
  case isFalse =>
    cases h
    exact hbegins.loosen rfl
  case isTrue hword =>
    simp only [bind_eq_ok, Prod.exists] at h
    obtain ⟨operands, after', hrest, h⟩ := h
    cases h
    obtain ⟨used, rfl, hused⟩ := hbegins
    obtain ⟨used', new, rfl, rfl, hnew, hne⟩ :=
      chainRest_sound ih.pred hrest
    refine ⟨used ++ used', by simp, ?_⟩
    obtain ⟨second, more, rfl⟩ := List.exists_cons_of_ne_nil (hne hword)
    cases op with
    | or => exact .of (.or hused hnew)
    | and => exact .of (.and hused hnew)

theorem negation_sound (ih : SoundBelow (fuel + 1))
    (h : negation (fuel + 1) ts = .ok (e, rest)) : Begins .negation ts e rest := by
  rw [negation] at h
  split at h
  case h_1 => exact (ih.here .comparison h).loosen rfl
  case h_2 after hnot =>
    simp only [bind_eq_ok, Prod.exists] at h
    obtain ⟨operand, after', hoperand, h⟩ := h
    cases h
    obtain ⟨n, rfl⟩ := eatName?_eq_some.mp hnot
    obtain ⟨used, rfl, hused⟩ := ih.here .negation hoperand
    exact ⟨⟨.name "not", n⟩ :: used, rfl, .of (.not hused)⟩

theorem comparisonRest_sound {found pairs : List (CompareOp × Expr)}
    (ih : SoundBelow fuel) (h : comparisonRest fuel found ts = .ok (pairs, rest)) :
    ∃ used new, ts = used ++ rest ∧ pairs = found.reverse ++ new ∧
      Comparands Renders used new := by
  induction fuel generalizing found ts with
  | zero => simp [comparisonRest, fail] at h
  | succ fuel ihfuel =>
      rw [comparisonRest] at h
      split at h
      case h_1 =>
        cases h
        exact ⟨[], [], rfl, by simp, .none⟩
      case h_2 op after hop =>
        simp only [bind_eq_ok, Prod.exists] at h
        obtain ⟨right, after', hright, h⟩ := h
        obtain ⟨ws, rfl, hws⟩ := eatComparison?_sound hop
        obtain ⟨used, rfl, hused⟩ := ih.here (.tier .bitOr) hright
        obtain ⟨used', new, rfl, rfl, hnew⟩ := ihfuel ih.pred h
        exact ⟨ws ++ (used ++ used'), (op, right) :: new, by simp, by simp,
          .more hws hused hnew⟩

theorem comparison_sound (ih : SoundBelow (fuel + 1))
    (h : comparison (fuel + 1) ts = .ok (e, rest)) : Begins .comparison ts e rest := by
  simp only [comparison, bind_eq_ok, Prod.exists] at h
  obtain ⟨left, after, hleft, pairs, after', hpairs, h⟩ := h
  cases h
  obtain ⟨used, rfl, hused⟩ := ih.here (.tier .bitOr) hleft
  obtain ⟨used', new, rfl, rfl, hnew⟩ :=
    comparisonRest_sound ih.pred hpairs
  cases hnew with
  | none => exact ⟨used, by simp, .of (.tighter rfl hused)⟩
  | more hws hright hmore =>
      exact ⟨used ++ _, (List.append_assoc _ _ _).symm,
        .of (.compare hused (.more hws hright hmore))⟩

/-! ## Operators -/

theorem binaryOperand_sound {t : Tier} (ih : SoundBelow fuel)
    (h : binaryOperand fuel t ts = .ok (e, rest)) : Begins (tierOperand t) ts e rest := by
  cases fuel with
  | zero => simp [binaryOperand, fail] at h
  | succ fuel =>
      rw [binaryOperand] at h
      have hparse : parse (tierOperand t) fuel ts = .ok (e, rest) := by
        cases t <;> exact h
      exact ih.here (tierOperand t) hparse

theorem binaryRest_sound {t : Tier} {left : Expr} (ih : SoundBelow fuel)
    (h : binaryRest fuel t left ts = .ok (e, rest)) :
    ∃ used, ts = used ++ rest ∧
      ∀ before, Renders (.tier t) before left → Renders (.tier t) (before ++ used) e := by
  induction fuel generalizing left ts with
  | zero => simp [binaryRest, fail] at h
  | succ fuel ihfuel =>
      rw [binaryRest] at h
      split at h
      case h_1 =>
        cases h
        exact ⟨[], rfl, fun before hbefore => by simpa using hbefore⟩
      case h_2 op after hop =>
        simp only [bind_eq_ok, Prod.exists] at h
        obtain ⟨right, after', hright, h⟩ := h
        obtain ⟨o, n, ho, rfl⟩ := eatBinaryOp?_eq_some.mp hop
        obtain ⟨used, rfl, hused⟩ := binaryOperand_sound ih.pred hright
        obtain ⟨used', rfl, hgrow⟩ := ihfuel ih.pred h
        refine ⟨⟨.op o, n⟩ :: (used ++ used'), by simp, fun before hbefore => ?_⟩
        have hbinary := hgrow (before ++ ⟨.op o, n⟩ :: used) (.of (.binary ho hbefore hused))
        simpa using hbinary

theorem binary_sound {t : Tier} (ih : SoundBelow (fuel + 1))
    (h : binary (fuel + 1) t ts = .ok (e, rest)) : Begins (.tier t) ts e rest := by
  simp only [binary, bind_eq_ok, Prod.exists] at h
  obtain ⟨left, after, hleft, h⟩ := h
  obtain ⟨used, rfl, hused⟩ := binaryOperand_sound ih.pred hleft
  obtain ⟨used', rfl, hgrow⟩ := binaryRest_sound ih.pred h
  exact ⟨used ++ used', by simp, hgrow used (.of (.tighter rfl hused))⟩

theorem signed_sound (ih : SoundBelow (fuel + 1))
    (h : signed (fuel + 1) ts = .ok (e, rest)) : Begins .signed ts e rest := by
  rw [signed] at h
  split at h
  case h_1 => exact (ih.here .power h).loosen rfl
  case h_2 op after hop =>
    simp only [bind_eq_ok, Prod.exists] at h
    obtain ⟨operand, after', hoperand, h⟩ := h
    cases h
    obtain ⟨o, n, ho, rfl⟩ := eatSign?_eq_some.mp hop
    obtain ⟨used, rfl, hused⟩ := ih.here .signed hoperand
    exact ⟨⟨.op o, n⟩ :: used, rfl, .of (.sign ho hused)⟩

theorem power_sound (ih : SoundBelow (fuel + 1)) (h : power (fuel + 1) ts = .ok (e, rest)) :
    Begins .power ts e rest := by
  simp only [power, bind_eq_ok, Prod.exists] at h
  obtain ⟨base, after, hbase, h⟩ := h
  have hbegins := ih.here .primary hbase
  split at h
  case h_1 =>
    cases h
    exact hbegins.loosen rfl
  case h_2 after' hpower =>
    simp only [bind_eq_ok, Prod.exists] at h
    obtain ⟨exponent, after'', hexponent, h⟩ := h
    cases h
    obtain ⟨n, rfl⟩ := eatOp?_eq_some.mp hpower
    obtain ⟨bs, rfl, hbs⟩ := hbegins
    obtain ⟨es, rfl, hes⟩ := ih.here .signed hexponent
    exact ⟨bs ++ ⟨.op .power, n⟩ :: es, by simp, .of (.power hbs hes)⟩

/-! ## Calls -/

theorem callArgument_sound {a : Argument} (ih : SoundBelow fuel)
    (h : callArgument fuel ts = .ok (a, rest)) :
    ∃ used, ts = used ++ rest ∧ ArgumentForm Renders used a := by
  cases fuel with
  | zero => simp [callArgument, fail] at h
  | succ fuel =>
      rw [callArgument] at h
      split at h
      case h_1 w after hkeyword =>
        simp only [bind_eq_ok, Prod.exists] at h
        obtain ⟨value, after', hvalue, h⟩ := h
        cases h
        obtain ⟨n, m, rfl⟩ := keyword?_eq_some.mp hkeyword
        obtain ⟨used, rfl, hused⟩ := ih.here .conditional hvalue
        exact ⟨⟨.name w, n⟩ :: ⟨.op .assign, m⟩ :: used, rfl, .keyword hused⟩
      case h_2 =>
        simp only [bind_eq_ok, Prod.exists] at h
        obtain ⟨value, after', hvalue, h⟩ := h
        cases h
        obtain ⟨used, rfl, hused⟩ := ih.here .conditional hvalue
        exact ⟨used, rfl, .positional hused⟩

theorem callArguments_sound {found arguments : List Argument} (ih : SoundBelow fuel)
    (h : callArguments fuel found ts = .ok (arguments, rest)) :
    ∃ used new comma n, ts = used ++ ⟨.op .closeParen, n⟩ :: rest ∧
      arguments = found.reverse ++ new ∧ Listed (ArgumentForm Renders) used new comma := by
  induction fuel generalizing found ts with
  | zero => simp [callArguments, fail] at h
  | succ fuel ihfuel =>
      rw [callArguments] at h
      split at h
      case h_1 after hclose =>
        cases h
        obtain ⟨n, rfl⟩ := eatOp?_eq_some.mp hclose
        exact ⟨[], [], false, n, rfl, by simp, .none⟩
      case h_2 =>
        split at h
        case isTrue => cases h
        case isFalse =>
          simp only [bind_eq_ok, Prod.exists] at h
          obtain ⟨argument, after, hargument, -, -, h⟩ := h
          obtain ⟨used, rfl, hused⟩ :=
            callArgument_sound ih.pred hargument
          split at h
          case h_1 after' hcomma =>
            obtain ⟨m, rfl⟩ := eatOp?_eq_some.mp hcomma
            obtain ⟨used', new, comma, n, rfl, rfl, hnew⟩ :=
              ihfuel ih.pred h
            exact ⟨used ++ ⟨.op .comma, m⟩ :: used', argument :: new, true, n, by simp, by simp,
              .more hused hnew⟩
          case h_2 =>
            simp only [bind_eq_ok] at h
            obtain ⟨after', hclose, h⟩ := h
            cases h
            obtain ⟨n, rfl⟩ := expectOp_eq_ok.mp hclose
            exact ⟨used, [argument], false, n, by simp, by simp, .last hused⟩

/-! ## Trailers -/

theorem trailers_sound {base : Expr} (ih : SoundBelow fuel)
    (h : trailers fuel base ts = .ok (e, rest)) :
    ∃ used, ts = used ++ rest ∧
      ∀ before, Renders .primary before base → Renders .primary (before ++ used) e := by
  induction fuel generalizing base ts with
  | zero => simp [trailers, fail] at h
  | succ fuel ihfuel =>
      unfold trailers at h
      split at h
      case h_1 n w m after =>
        obtain ⟨used, rfl, hgrow⟩ := ihfuel ih.pred h
        refine ⟨⟨.op .dot, n⟩ :: ⟨.name w, m⟩ :: used, by simp, fun before hbefore => ?_⟩
        have hmember := hgrow (before ++ [⟨.op .dot, n⟩, ⟨.name w, m⟩])
          (.of (.member hbefore))
        simpa using hmember
      case h_2 => cases h
      case h_3 n after =>
        simp only [bind_eq_ok, Prod.exists] at h
        obtain ⟨arguments, after', harguments, h⟩ := h
        obtain ⟨args, new, comma, m, rfl, rfl, hnew⟩ := callArguments_sound ih.pred harguments
        obtain ⟨used, rfl, hgrow⟩ := ihfuel ih.pred h
        refine ⟨⟨.op .openParen, n⟩ :: (args ++ ⟨.op .closeParen, m⟩ :: used), by simp,
          fun before hbefore => ?_⟩
        have hcall := hgrow (before ++ ⟨.op .openParen, n⟩ :: (args ++ [⟨.op .closeParen, m⟩]))
          (.of (.call hbefore hnew))
        simpa using hcall
      case h_4 n after =>
        simp only [bind_eq_ok, Prod.exists] at h
        obtain ⟨index, after', hindex, h⟩ := h
        split at h
        case isTrue => cases h
        case isFalse =>
          simp only [bind_eq_ok] at h
          obtain ⟨after'', hclose, h⟩ := h
          obtain ⟨is, rfl, his⟩ := ih.here .list hindex
          obtain ⟨m, rfl⟩ := expectOp_eq_ok.mp hclose
          obtain ⟨used, rfl, hgrow⟩ := ihfuel ih.pred h
          refine ⟨⟨.op .openBracket, n⟩ :: (is ++ ⟨.op .closeBracket, m⟩ :: used), by simp,
            fun before hbefore => ?_⟩
          have hsubscript := hgrow
            (before ++ ⟨.op .openBracket, n⟩ :: (is ++ [⟨.op .closeBracket, m⟩]))
            (.of (.subscript hbefore his))
          simpa using hsubscript
      case h_5 =>
        cases h
        exact ⟨[], rfl, fun before hbefore => by simpa using hbefore⟩

theorem primary_sound (ih : SoundBelow (fuel + 1))
    (h : primary (fuel + 1) ts = .ok (e, rest)) : Begins .primary ts e rest := by
  simp only [primary, bind_eq_ok, Prod.exists] at h
  obtain ⟨base, after, hbase, h⟩ := h
  obtain ⟨used, rfl, hused⟩ := ih.here .atom hbase
  obtain ⟨used', rfl, hgrow⟩ := trailers_sound ih.pred h
  exact ⟨used ++ used', by simp, hgrow used (.of (.tighter rfl hused))⟩

/-! ## Displays -/

theorem sequence_sound {close : Operator} {items found : List Expr} {comma comma' : Bool}
    (ih : SoundBelow fuel)
    (h : sequence fuel close items comma ts = .ok ((found, comma'), rest)) :
    ∃ used new more n, ts = used ++ ⟨.op close, n⟩ :: rest ∧ found = items.reverse ++ new ∧
      comma' = (comma || more) ∧ Listed (Renders .conditional) used new more := by
  induction fuel generalizing items comma ts with
  | zero => simp [sequence, fail] at h
  | succ fuel ihfuel =>
      rw [sequence] at h
      split at h
      case h_1 after hclose =>
        cases h
        obtain ⟨n, rfl⟩ := eatOp?_eq_some.mp hclose
        exact ⟨[], [], false, n, rfl, by simp, by simp, .none⟩
      case h_2 =>
        split at h
        case isTrue => cases h
        case isFalse =>
          simp only [bind_eq_ok, Prod.exists] at h
          obtain ⟨item, after, hitem, -, -, h⟩ := h
          obtain ⟨used, rfl, hused⟩ := ih.here .conditional hitem
          split at h
          case h_1 after' hcomma =>
            obtain ⟨m, rfl⟩ := eatOp?_eq_some.mp hcomma
            obtain ⟨used', new, more, n, rfl, rfl, rfl, hnew⟩ :=
              ihfuel ih.pred h
            exact ⟨used ++ ⟨.op .comma, m⟩ :: used', item :: new, true, n, by simp, by simp,
              by simp, .more hused hnew⟩
          case h_2 =>
            simp only [bind_eq_ok] at h
            obtain ⟨after', hclose, h⟩ := h
            cases h
            obtain ⟨n, rfl⟩ := expectOp_eq_ok.mp hclose
            exact ⟨used, [item], false, n, by simp, by simp, by simp, .last hused⟩

/-- The entries so far, if the display can still be a dict. -/
def Display.entries? : Display → Option (List DictItem)
  | .undecided => some []
  | .pairs items => some items
  | .elements _ => none

/-- The elements so far, if the display can still be a set. -/
def Display.elements? : Display → Option (List Expr)
  | .undecided => some []
  | .pairs _ => none
  | .elements items => some items

theorem braceItem_sound {display display' : Display} (ih : SoundBelow fuel)
    (h : braceItem fuel display ts = .ok (display', rest)) :
    ∃ used, ts = used ++ rest ∧
      ((∃ entries entry, display.entries? = some entries ∧
          display' = .pairs (entry :: entries) ∧ EntryForm Renders used entry) ∨
        ∃ elements x, display.elements? = some elements ∧
          display' = .elements (x :: elements) ∧ Renders .conditional used x) := by
  cases fuel with
  | zero => simp [braceItem, fail] at h
  | succ fuel =>
      rw [braceItem] at h
      split at h
      case h_1 after hpower =>
        obtain ⟨n, rfl⟩ := eatOp?_eq_some.mp hpower
        cases display with
        | elements items => cases h
        | undecided | pairs =>
            simp only [bind_eq_ok, Prod.exists] at h
            obtain ⟨mapping, after', hmapping, h⟩ := h
            cases h
            obtain ⟨used, rfl, hused⟩ := ih.here (.tier .bitOr) hmapping
            exact ⟨⟨.op .power, n⟩ :: used, rfl, .inl ⟨_, _, rfl, rfl, .unpack hused⟩⟩
      case h_2 =>
        simp only [bind_eq_ok, Prod.exists] at h
        obtain ⟨key, after, hkey, -, -, h⟩ := h
        obtain ⟨ks, rfl, hks⟩ := ih.here .conditional hkey
        split at h
        case h_1 after' hcolon =>
          obtain ⟨n, rfl⟩ := eatOp?_eq_some.mp hcolon
          cases display with
          | elements items => cases h
          | undecided | pairs =>
              simp only [bind_eq_ok, Prod.exists] at h
              obtain ⟨value, after'', hvalue, -, -, h⟩ := h
              cases h
              obtain ⟨vs, rfl, hvs⟩ := ih.here .conditional hvalue
              exact ⟨ks ++ ⟨.op .colon, n⟩ :: vs, by simp,
                .inl ⟨_, _, rfl, rfl, .pair hks hvs⟩⟩
        case h_2 =>
          cases display with
          | pairs items => cases h
          | undecided | elements =>
              cases h
              exact ⟨ks, rfl, .inr ⟨_, _, rfl, rfl, hks⟩⟩

theorem braces_sound {display display' : Display} (ih : SoundBelow fuel)
    (h : braces fuel display ts = .ok (display', rest)) :
    ∃ used comma n, ts = used ++ ⟨.op .closeBrace, n⟩ :: rest ∧
      ((∃ entries entry new, display.entries? = some entries ∧
          display' = .pairs ((entry :: new).reverse ++ entries) ∧
          Listed (EntryForm Renders) used (entry :: new) comma) ∨
        ∃ elements x new, display.elements? = some elements ∧
          display' = .elements ((x :: new).reverse ++ elements) ∧
          Listed (Renders .conditional) used (x :: new) comma) := by
  induction fuel generalizing display ts with
  | zero => simp [braces, fail] at h
  | succ fuel ihfuel =>
      simp only [braces, bind_eq_ok, Prod.exists] at h
      obtain ⟨next, after, hitem, h⟩ := h
      obtain ⟨used, rfl, hused⟩ := braceItem_sound ih.pred hitem
      split at h
      case h_2 =>
        simp only [bind_eq_ok] at h
        obtain ⟨after', hclose, h⟩ := h
        cases h
        obtain ⟨n, rfl⟩ := expectOp_eq_ok.mp hclose
        refine ⟨used, false, n, rfl, ?_⟩
        obtain ⟨entries, entry, hentries, rfl, hentry⟩ | ⟨elements, x, helements, rfl, hx⟩ := hused
        · exact .inl ⟨entries, entry, [], hentries, rfl, .last hentry⟩
        · exact .inr ⟨elements, x, [], helements, rfl, .last hx⟩
      case h_1 after' hcomma =>
        obtain ⟨m, rfl⟩ := eatOp?_eq_some.mp hcomma
        split at h
        case h_1 after'' hclose =>
          cases h
          obtain ⟨n, rfl⟩ := eatOp?_eq_some.mp hclose
          refine ⟨used ++ [⟨.op .comma, m⟩], true, n, by simp, ?_⟩
          obtain ⟨entries, entry, hentries, rfl, hentry⟩ | ⟨elements, x, helements, rfl, hx⟩ :=
            hused
          · exact .inl ⟨entries, entry, [], hentries, rfl, .more hentry .none⟩
          · exact .inr ⟨elements, x, [], helements, rfl, .more hx .none⟩
        case h_2 =>
          obtain ⟨used', comma, n, rfl, hrest⟩ := ihfuel ih.pred h
          refine ⟨used ++ ⟨.op .comma, m⟩ :: used', true, n, by simp, ?_⟩
          obtain ⟨entries, entry, hentries, rfl, hentry⟩ | ⟨elements, x, helements, rfl, hx⟩ :=
            hused
          · obtain ⟨_, entry', new, heq, rfl, hnew⟩ | ⟨_, _, _, heq, -⟩ := hrest <;> cases heq
            exact .inl ⟨entries, entry, entry' :: new, hentries, by simp, .more hentry hnew⟩
          · obtain ⟨_, _, _, heq, -⟩ | ⟨_, x', new, heq, rfl, hnew⟩ := hrest <;> cases heq
            exact .inr ⟨elements, x, x' :: new, helements, by simp, .more hx hnew⟩

/-! ## Atoms -/

theorem nameAtom_sound {w : String} {n : Nat} {all after : List Token}
    (h : nameAtom w all after = .ok (e, rest)) :
    rest = after ∧ Renders .atom [⟨.name w, n⟩] e := by
  unfold nameAtom at h
  split at h
  case isTrue hw =>
    cases h
    exact ⟨rfl, hw ▸ .of .true⟩
  case isFalse htrue =>
    split at h
    case isTrue hw =>
      cases h
      exact ⟨rfl, hw ▸ .of .false⟩
    case isFalse hfalse =>
      split at h
      case isTrue hw =>
        cases h
        exact ⟨rfl, hw ▸ .of .nothing⟩
      case isFalse hnone =>
        split at h
        case isTrue => cases all <;> cases h
        case isFalse hword =>
          cases h
          exact ⟨rfl, .of (.name (by simpa [Nameable, htrue, hfalse, hnone] using hword))⟩

theorem atom_sound (ih : SoundBelow (fuel + 1)) (h : atom (fuel + 1) ts = .ok (e, rest)) :
    Begins .atom ts e rest := by
  cases ts with
  | nil => simp [atom, fail] at h
  | cons t after =>
      obtain ⟨kind, n⟩ := t
      cases kind with
      | int k =>
          simp only [atom] at h
          cases h
          exact ⟨[⟨.int k, n⟩], rfl, .of .int⟩
      | float x =>
          simp only [atom] at h
          cases h
          exact ⟨[⟨.float x, n⟩], rfl, .of .float⟩
      | str s =>
          simp only [atom] at h
          cases h
          obtain ⟨before, hafter, hread⟩ := adjacentStrings_spec after s n
          exact ⟨⟨.str s, n⟩ :: before, by simp [← hafter], .of (.str hread)⟩
      | name w =>
          simp only [atom] at h
          obtain ⟨rfl, hname⟩ := nameAtom_sound (n := n) h
          exact ⟨[⟨.name w, n⟩], rfl, hname⟩
      | op o =>
          simp only [atom] at h
          split at h
          case h_1 heq | h_2 heq | h_3 heq | h_4 heq => cases heq
          case h_5 heq =>
            cases heq
            cases h
            exact ⟨[⟨.op .ellipsis, n⟩], rfl, .of .ellipsis⟩
          case h_6 heq =>
            cases heq
            simp only [bind_eq_ok, Prod.exists] at h
            obtain ⟨items, comma, after', hitems, h⟩ := h
            obtain ⟨used, new, more, m, rfl, rfl, rfl, hnew⟩ := sequence_sound ih.pred hitems
            refine ⟨⟨.op .openParen, n⟩ :: (used ++ [⟨.op .closeParen, m⟩]), ?_⟩
            obtain rfl | rfl | ⟨x, rfl, rfl, hx⟩ := hnew.comma_or
            · split at h
              case h_1 heq => cases heq
              case h_2 =>
                cases h
                exact ⟨by simp, .of (.tuple hnew (.inl rfl))⟩
            · cases h
              exact ⟨by simp, .of (.tuple hnew (.inr rfl))⟩
            · cases h
              exact ⟨by simp, .of (.group hx)⟩
          case h_7 heq =>
            cases heq
            simp only [bind_eq_ok, Prod.exists] at h
            obtain ⟨items, comma, after', hitems, h⟩ := h
            obtain ⟨used, new, more, m, rfl, rfl, rfl, hnew⟩ := sequence_sound ih.pred hitems
            cases h
            exact ⟨⟨.op .openBracket, n⟩ :: (used ++ [⟨.op .closeBracket, m⟩]), by simp,
              .of (.list hnew)⟩
          case h_8 heq =>
            cases heq
            split at h
            case h_1 after' hclose =>
              cases h
              obtain ⟨m, rfl⟩ := eatOp?_eq_some.mp hclose
              exact ⟨[⟨.op .openBrace, n⟩, ⟨.op .closeBrace, m⟩], rfl, .of (.dict .none)⟩
            case h_2 =>
              simp only [bind_eq_ok, Prod.exists] at h
              obtain ⟨display, after', hdisplay, h⟩ := h
              cases h
              obtain ⟨used, comma, m, rfl, hused⟩ := braces_sound ih.pred hdisplay
              refine ⟨⟨.op .openBrace, n⟩ :: (used ++ [⟨.op .closeBrace, m⟩]), by simp, ?_⟩
              obtain ⟨_, entry, new, hnone, rfl, hnew⟩ | ⟨_, x, new, hnone, rfl, hnew⟩ := hused
              · cases hnone
                simpa [Display.toExpr] using Renders.of (.dict hnew)
              · cases hnone
                simpa [Display.toExpr] using Renders.of (.set hnew)
          case h_9 => cases h

/-! ## All levels -/

/-- What a level of the parser reads is a rendering of what it returns. -/
theorem soundAt (fuel : Nat) : SoundAt fuel := by
  induction fuel using Nat.strongRecOn with
  | ind fuel ih =>
      intro l ts e rest h
      cases fuel with
      | zero => cases l <;> simp [parse, exprList, expr, chain, negation, comparison, binary,
          signed, power, primary, atom, fail] at h
      | succ fuel =>
          cases l with
          | list => exact exprList_sound ih h
          | conditional => exact expr_sound ih h
          | chain op => exact chain_sound ih h
          | negation => exact negation_sound ih h
          | comparison => exact comparison_sound ih h
          | tier t => exact binary_sound ih h
          | signed => exact signed_sound ih h
          | power => exact power_sound ih h
          | primary => exact primary_sound ih h
          | atom => exact atom_sound ih h

end IconConstraints.Parsing
