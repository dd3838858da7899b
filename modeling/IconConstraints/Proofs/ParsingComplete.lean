import IconConstraints.Proofs.Boundaries
import IconConstraints.Proofs.ParsingSound

/-!
# The parser reads every rendering

A level reads the tokens of each of its renderings, wherever the tokens after them
stop it, if it has fuel for 32 calls a token.  A level that grows its expression to
the right is met in the middle of its loop, so of its renderings it is shown that
the loop gets to them and goes on from there.
-/

namespace IconConstraints.Parsing

open Source Grammar

variable {l l' : Level} {ts rest : List Token} {e : Expr} {fuel : Nat}

/-- The level reads the tokens as the expression and stops after them. -/
def Reads (l : Level) (ts : List Token) (e : Expr) : Prop :=
  ∀ rest fuel, Stops l rest → 32 * ts.length + l.height ≤ fuel + 32 →
    parse l fuel (ts ++ rest) = .ok (e, rest)

/-- The level reads the tokens as the expression; a level with a loop gets to the
expression and has fuel left to go on. -/
def Leads (l : Level) (ts : List Token) (e : Expr) : Prop :=
  match l with
  | .tier t => ∀ rest fuel, Stops (tierOperand t) rest →
      32 * ts.length + (Level.tier t).height ≤ fuel + 32 →
      ∃ left, fuel + 31 ≤ left + 32 * ts.length ∧
        binary fuel t (ts ++ rest) = binaryRest left t e rest
  | .primary => ∀ rest fuel, Stops .atom rest →
      32 * ts.length + Level.primary.height ≤ fuel + 32 →
      ∃ left, fuel + 31 ≤ left + 32 * ts.length ∧
        primary fuel (ts ++ rest) = trailers left e rest
  | l => Reads l ts e

theorem Leads.reads (h : Leads l ts e) : Reads l ts e := by
  cases l with
  | tier t =>
      intro rest fuel hstops hfuel
      have hoperand := tierOperand_height t
      obtain ⟨left, hleft, heq⟩ := h rest fuel (hstops.of_height_lt (by omega)) hfuel
      obtain ⟨left, rfl⟩ : ∃ f, left = f + 1 := ⟨left - 1, by omega⟩
      change binary fuel t (ts ++ rest) = .ok (e, rest)
      rw [heq, binaryRest, hstops.eatBinaryOp?_eq_none]
  | primary =>
      intro rest fuel hstops hfuel
      simp only [Level.height] at hfuel
      obtain ⟨left, hleft, heq⟩ := h rest fuel (hstops.of_height_lt (by decide)) hfuel
      obtain ⟨left, rfl⟩ : ∃ f, left = f + 1 := ⟨left - 1, by omega⟩
      change primary fuel (ts ++ rest) = .ok (e, rest)
      rw [heq, hstops.trailers_eq]
  | _ => exact h

theorem length_append_cons_pos {t : Token} : 0 < (ts ++ t :: rest).length := by
  rw [List.length_append, List.length_cons]
  omega

/-- The first call always has fuel. -/
theorem Reads.of_succ (hlength : 0 < ts.length)
    (h : ∀ rest fuel, Stops l rest → 32 * ts.length + l.height ≤ fuel + 33 →
      parse l (fuel + 1) (ts ++ rest) = .ok (e, rest)) : Reads l ts e := by
  intro rest fuel hstops hfuel
  have := l.height_pos
  obtain ⟨fuel, rfl⟩ : ∃ f, fuel = f + 1 := ⟨fuel - 1, by omega⟩
  exact h rest fuel hstops (by omega)

/-! ## One level down -/

theorem chainOperand_eq {op : Connective} (h : Reads (connectiveOperand op) ts e)
    (hlength : 0 < ts.length) (hstops : Stops (connectiveOperand op) rest)
    (hfuel : 32 * ts.length + (connectiveOperand op).height < fuel + 32) :
    chainOperand fuel op (ts ++ rest) = .ok (e, rest) := by
  have := (connectiveOperand op).height_pos
  obtain ⟨fuel, rfl⟩ : ∃ f, fuel = f + 1 := ⟨fuel - 1, by omega⟩
  have hread := h rest fuel hstops (by omega)
  cases op <;> exact hread

theorem binaryOperand_eq {t : Tier} (h : Reads (tierOperand t) ts e) (hlength : 0 < ts.length)
    (hstops : Stops (tierOperand t) rest)
    (hfuel : 32 * ts.length + (tierOperand t).height < fuel + 32) :
    binaryOperand fuel t (ts ++ rest) = .ok (e, rest) := by
  have := (tierOperand t).height_pos
  obtain ⟨fuel, rfl⟩ : ∃ f, fuel = f + 1 := ⟨fuel - 1, by omega⟩
  have hread := h rest fuel hstops (by omega)
  cases t <;> exact hread

theorem leads_tier {t : Tier} (h : Reads (tierOperand t) ts e)
    (hlength : 0 < ts.length) : Leads (.tier t) ts e := by
  intro rest fuel hstops hfuel
  have := tierOperand_height t
  obtain ⟨fuel, rfl⟩ : ∃ f, fuel = f + 1 := ⟨fuel - 1, by omega⟩
  refine ⟨fuel, by omega, ?_⟩
  rw [binary, binaryOperand_eq h hlength hstops (by omega)]
  rfl

theorem leads_primary (h : Reads .atom ts e) (hlength : 0 < ts.length) :
    Leads .primary ts e := by
  intro rest fuel hstops hfuel
  have hheight : Level.atom.height < Level.primary.height := by decide
  obtain ⟨fuel, rfl⟩ : ∃ f, fuel = f + 1 := ⟨fuel - 1, by omega⟩
  refine ⟨fuel, by omega, ?_⟩
  have hread : atom fuel (ts ++ rest) = .ok (e, rest) := h rest fuel hstops (by omega)
  rw [primary, hread]
  rfl

theorem leads_tighter (hl : l.tighter? = some l') (h : Reads l' ts e) (hopen : Opening l' ts) :
    Leads l ts e := by
  have hheight := Level.height_lt_of_tighter? hl
  have hread {rest fuel} (hstops : Stops l rest)
      (hfuel : 32 * ts.length + l.height ≤ fuel + 33) :
      parse l' fuel (ts ++ rest) = .ok (e, rest) :=
    h rest fuel (hstops.of_height_lt hheight) (by omega)
  cases l with
  | list =>
      refine Reads.of_succ hopen.length_pos fun rest fuel hstops hfuel => ?_
      cases hl
      have hexpr : expr fuel (ts ++ rest) = .ok (e, rest) := hread hstops hfuel
      simp [parse, exprList, hexpr, hstops.atOp_comma_eq_false]
  | conditional =>
      refine Reads.of_succ hopen.length_pos fun rest fuel hstops hfuel => ?_
      cases hl
      have hchain : chain fuel .or (ts ++ rest) = .ok (e, rest) := hread hstops hfuel
      have hlambda := hopen.atName_eq_false (w := "lambda") (by decide) (by decide) rest
      simp [parse, expr, hlambda, hchain, hstops.eatIf_eq_none]
  | chain op =>
      refine Reads.of_succ hopen.length_pos fun rest fuel hstops hfuel => ?_
      cases hl
      have := connectiveOperand_height op
      have hoperand : chainOperand fuel op (ts ++ rest) = .ok (e, rest) :=
        chainOperand_eq h hopen.length_pos (hstops.of_height_lt hheight) (by omega)
      simp [parse, chain, hoperand, connectiveWord_eq, hstops.atName_word_eq_false]
  | negation =>
      refine Reads.of_succ hopen.length_pos fun rest fuel hstops hfuel => ?_
      cases hl
      have hcomparison : comparison fuel (ts ++ rest) = .ok (e, rest) := hread hstops hfuel
      have hnot := hopen.atName_eq_false (w := "not") (by decide) (by decide) rest
      simp [parse, negation, eatName?_eq_none.mpr hnot, hcomparison]
  | comparison =>
      refine Reads.of_succ hopen.length_pos fun rest fuel hstops hfuel => ?_
      cases hl
      have := hopen.length_pos
      have : 1 < Level.comparison.height := by decide
      obtain ⟨fuel, rfl⟩ : ∃ f, fuel = f + 1 := ⟨fuel - 1, by omega⟩
      have hbinary : binary (fuel + 1) .bitOr (ts ++ rest) = .ok (e, rest) := hread hstops hfuel
      simp [parse, comparison, hbinary, comparisonRest, hstops.eatComparison?_eq_none]
  | tier t =>
      cases hl
      exact leads_tier h hopen.length_pos
  | signed =>
      refine Reads.of_succ hopen.length_pos fun rest fuel hstops hfuel => ?_
      cases hl
      have hpower : power fuel (ts ++ rest) = .ok (e, rest) := hread hstops hfuel
      simp [parse, signed, hopen.eatSign?_eq_none (by decide), hpower]
  | power =>
      refine Reads.of_succ hopen.length_pos fun rest fuel hstops hfuel => ?_
      cases hl
      have hprimary : primary fuel (ts ++ rest) = .ok (e, rest) := hread hstops hfuel
      simp [parse, power, hprimary, hstops.eatPower_eq_none]
  | primary =>
      cases hl
      exact leads_primary h hopen.length_pos
  | atom => cases hl

/-! ## Tuples without brackets and conditionals -/

abbrev LeadsPart : Level → List Token → Expr → Prop :=
  RendersAnd Leads

theorem LeadsPart.reads (h : LeadsPart l ts e) : Reads l ts e :=
  Leads.reads h.2

theorem LeadsPart.opening (h : LeadsPart l ts e) : Opening l ts :=
  .of_renders h.1

theorem LeadsPart.expr_eq (h : LeadsPart .conditional ts e) (hstops : Stops .conditional rest)
    (hfuel : 32 * ts.length + 23 ≤ fuel + 32) : expr fuel (ts ++ rest) = .ok (e, rest) :=
  h.reads rest fuel hstops hfuel

theorem LeadsPart.bitOr_eq (h : LeadsPart (.tier .bitOr) ts e)
    (hstops : Stops (.tier .bitOr) rest) (hfuel : 32 * ts.length + 16 ≤ fuel + 32) :
    binary fuel .bitOr (ts ++ rest) = .ok (e, rest) :=
  h.reads rest fuel hstops hfuel

theorem exprListRest_eq {items new : List Expr} {comma : Bool} {n : Nat}
    (h : Listed (LeadsPart .conditional) ts new comma) (hend : atListEnd rest = true)
    (hfuel : 32 * ts.length + 2 ≤ fuel) :
    exprListRest fuel items (⟨.op .comma, n⟩ :: (ts ++ rest)) =
      .ok (items.reverse ++ new, rest) := by
  have hstops {l} : Stops l rest := .of_atListEnd hend
  have hcomma : eatOp? .comma rest = none := eatOp?_eq_none.mpr hstops.atOp_comma_eq_false
  induction h generalizing items n fuel with
  | none =>
      obtain ⟨fuel, rfl⟩ : ∃ f, fuel = f + 1 := ⟨fuel - 1, by omega⟩
      simp [exprListRest, hend]
  | @last ts item hitem =>
      have hlength := hitem.opening.length_pos
      obtain ⟨fuel, rfl⟩ : ∃ f, fuel = f + 2 := ⟨fuel - 2, by omega⟩
      have hexpr : expr (fuel + 1) (ts ++ rest) = .ok (item, rest) :=
        hitem.expr_eq hstops (by omega)
      simp [exprListRest, hitem.opening.atListEnd_eq_false, hexpr, hcomma]
  | @more ts ts' item new comma m hitem _ ih =>
      have hlength := hitem.opening.length_pos
      simp only [List.length_append, List.length_cons] at hfuel
      obtain ⟨fuel, rfl⟩ : ∃ f, fuel = f + 1 := ⟨fuel - 1, by omega⟩
      have hexpr : expr fuel (ts ++ ⟨.op .comma, m⟩ :: (ts' ++ rest)) =
          .ok (item, ⟨.op .comma, m⟩ :: (ts' ++ rest)) :=
        hitem.expr_eq (.of_continues rfl (by decide)) (by omega)
      have hrest : exprListRest fuel (item :: items) (⟨.op .comma, m⟩ :: (ts' ++ rest)) =
          .ok ((item :: items).reverse ++ new, rest) := ih (by omega)
      simp [exprListRest, hitem.opening.atListEnd_eq_false, hexpr, hrest]

theorem reads_bare {items : List Expr} (h : Listed (LeadsPart .conditional) ts items true) :
    Reads .list ts (.tuple items) := by
  cases h with
  | @more ts ts' first items comma n hfirst hitems =>
      have hlength := hfirst.opening.length_pos
      refine .of_succ length_append_cons_pos fun rest fuel hstops hfuel => ?_
      simp only [List.length_append, List.length_cons, Level.height] at hfuel
      have hexpr : expr fuel (ts ++ ⟨.op .comma, n⟩ :: (ts' ++ rest)) =
          .ok (first, ⟨.op .comma, n⟩ :: (ts' ++ rest)) :=
        hfirst.expr_eq (.of_continues rfl (by decide)) (by omega)
      have hrest : exprListRest fuel [first] (⟨.op .comma, n⟩ :: (ts' ++ rest)) =
          .ok ([first].reverse ++ items, rest) :=
        exprListRest_eq hitems (hstops.ends rfl) (by omega)
      simp [parse, exprList, hexpr, hrest]

theorem reads_conditional {bs os : List Token} {body test orelse : Expr} {n m : Nat}
    (hbody : LeadsPart (.chain .or) bs body) (htest : LeadsPart (.chain .or) ts test)
    (horelse : LeadsPart .conditional os orelse) :
    Reads .conditional (bs ++ ⟨.name "if", n⟩ :: (ts ++ ⟨.name "else", m⟩ :: os))
      (.conditional body test orelse) := by
  refine .of_succ length_append_cons_pos fun rest fuel hstops hfuel => ?_
  simp only [List.length_append, List.length_cons, Level.height] at hfuel
  have hlambda := hbody.opening.atName_eq_false (w := "lambda") (by decide) (by decide)
    (⟨.name "if", n⟩ :: (ts ++ ⟨.name "else", m⟩ :: (os ++ rest)))
  have hbody' :
      chain fuel .or (bs ++ ⟨.name "if", n⟩ :: (ts ++ ⟨.name "else", m⟩ :: (os ++ rest))) =
        .ok (body, ⟨.name "if", n⟩ :: (ts ++ ⟨.name "else", m⟩ :: (os ++ rest))) :=
    hbody.reads _ fuel (.of_continues rfl (by decide)) (by simp only [Level.height]; omega)
  have htest' : chain fuel .or (ts ++ ⟨.name "else", m⟩ :: (os ++ rest)) =
      .ok (test, ⟨.name "else", m⟩ :: (os ++ rest)) :=
    htest.reads _ fuel (.of_end rfl fun h => by cases h) (by simp only [Level.height]; omega)
  have horelse' : expr fuel (os ++ rest) = .ok (orelse, rest) :=
    horelse.expr_eq hstops (by omega)
  simp [parse, expr, hlambda, hbody', htest', horelse']

/-! ## Connectives -/

theorem operands_stops {M : Level → List Token → Expr → Prop} {op : Connective} {es : List Expr}
    (h : Operands M op ts es) (hstops : Stops (.chain op) rest) :
    Stops (connectiveOperand op) (ts ++ rest) := by
  have hheight := connectiveOperand_height op
  cases h with
  | none => exact hstops.of_height_lt (by omega)
  | more => exact .of_continues continues?_word (by omega)

theorem chainRest_eq {op : Connective} {found es : List Expr} (h : Operands LeadsPart op ts es)
    (hstops : Stops (.chain op) rest) (hfuel : 32 * ts.length + 1 ≤ fuel) :
    chainRest fuel op found (ts ++ rest) = .ok (found.reverse ++ es, rest) := by
  induction h generalizing found fuel with
  | none =>
      obtain ⟨fuel, rfl⟩ : ∃ f, fuel = f + 1 := ⟨fuel - 1, by omega⟩
      simp [chainRest, connectiveWord_eq, eatName?_eq_none.mpr hstops.atName_word_eq_false]
  | @more n ts ts' e es he hes ih =>
      have hheight : (connectiveOperand op).height ≤ 24 := Level.height_le _
      simp only [List.length_append, List.length_cons] at hfuel
      obtain ⟨fuel, rfl⟩ : ∃ f, fuel = f + 1 := ⟨fuel - 1, by omega⟩
      have hoperand : chainOperand fuel op (ts ++ (ts' ++ rest)) = .ok (e, ts' ++ rest) :=
        chainOperand_eq he.reads he.opening.length_pos (operands_stops hes hstops) (by omega)
      have hrest : chainRest fuel op (e :: found) (ts' ++ rest) =
          .ok ((e :: found).reverse ++ es, rest) := ih (by omega)
      simp [chainRest, connectiveWord_eq, hoperand, hrest]

theorem reads_chain {op : Connective} {os : List Token} {first second : Expr} {more : List Expr}
    (hfirst : LeadsPart (connectiveOperand op) ts first)
    (hmore : Operands LeadsPart op os (second :: more)) :
    Reads (.chain op) (ts ++ os) (.chain op (first :: second :: more)) := by
  have hlength := hfirst.opening.length_pos
  refine .of_succ (by rw [List.length_append]; omega) fun rest fuel hstops hfuel => ?_
  have hheight := connectiveOperand_height op
  simp only [List.length_append] at hfuel
  have hoperand : chainOperand fuel op (ts ++ (os ++ rest)) = .ok (first, os ++ rest) :=
    chainOperand_eq hfirst.reads hlength (operands_stops hmore hstops) (by omega)
  have hrest : chainRest fuel op [first] (os ++ rest) =
      .ok ([first].reverse ++ second :: more, rest) := chainRest_eq hmore hstops (by omega)
  have hword : atName (word op) (os ++ rest) = true := by
    cases hmore
    simp
  simp [parse, chain, connectiveWord_eq, hoperand, hrest, hword]

theorem reads_not {n : Nat} (h : LeadsPart .negation ts e) :
    Reads .negation (⟨.name "not", n⟩ :: ts) (.unary .not e) := by
  refine .of_succ (by simp) fun rest fuel hstops hfuel => ?_
  simp only [List.length_cons] at hfuel
  have hoperand : negation fuel (ts ++ rest) = .ok (e, rest) :=
    h.reads rest fuel hstops (by omega)
  simp [parse, negation, hoperand]

/-! ## Comparisons -/

theorem comparands_stops {M : Level → List Token → Expr → Prop} {es : List (CompareOp × Expr)}
    (h : Comparands M ts es) (hstops : Stops .comparison rest) :
    Stops (.tier .bitOr) (ts ++ rest) := by
  cases h with
  | none => exact hstops.of_height_lt (by decide)
  | more hws =>
      rw [List.append_assoc]
      exact .of_continues (continues?_comparison hws) (by decide)

theorem comparisonRest_eq {found es : List (CompareOp × Expr)} (h : Comparands LeadsPart ts es)
    (hstops : Stops .comparison rest) (hfuel : 32 * ts.length + 1 ≤ fuel) :
    comparisonRest fuel found (ts ++ rest) = .ok (found.reverse ++ es, rest) := by
  induction h generalizing found fuel with
  | none =>
      obtain ⟨fuel, rfl⟩ : ∃ f, fuel = f + 1 := ⟨fuel - 1, by omega⟩
      simp [comparisonRest, hstops.eatComparison?_eq_none]
  | @more op ws ts ts' e es hws he hes ih =>
      have hlength := he.opening.length_pos
      simp only [List.length_append] at hfuel
      obtain ⟨fuel, rfl⟩ : ∃ f, fuel = f + 1 := ⟨fuel - 1, by omega⟩
      have hnot := he.opening.atName_eq_false (w := "not") (by decide) (by decide) (ts' ++ rest)
      have hoperator : eatComparison? (ws ++ (ts ++ (ts' ++ rest))) =
          some (op, ts ++ (ts' ++ rest)) := eatComparison?_complete hws hnot
      have hoperand : binary fuel .bitOr (ts ++ (ts' ++ rest)) = .ok (e, ts' ++ rest) :=
        he.bitOr_eq (comparands_stops hes hstops) (by omega)
      have hrest : comparisonRest fuel ((op, e) :: found) (ts' ++ rest) =
          .ok (((op, e) :: found).reverse ++ es, rest) := ih (by omega)
      simp [comparisonRest, hoperator, hoperand, hrest]

theorem reads_compare {cs : List Token} {left : Expr} {first : CompareOp × Expr}
    {more : List (CompareOp × Expr)} (hleft : LeadsPart (.tier .bitOr) ts left)
    (hmore : Comparands LeadsPart cs (first :: more)) :
    Reads .comparison (ts ++ cs) (.compare left (first :: more)) := by
  have hlength := hleft.opening.length_pos
  refine .of_succ (by rw [List.length_append]; omega) fun rest fuel hstops hfuel => ?_
  simp only [List.length_append, Level.height] at hfuel
  have hoperand : binary fuel .bitOr (ts ++ (cs ++ rest)) = .ok (left, cs ++ rest) :=
    hleft.bitOr_eq (comparands_stops hmore hstops) (by omega)
  have hrest : comparisonRest fuel [] (cs ++ rest) = .ok (first :: more, rest) :=
    comparisonRest_eq hmore hstops (by omega)
  simp [parse, comparison, hoperand, hrest]

/-! ## Operators -/

theorem leads_binary {op : BinaryOp} {t : Tier} {o : Operator} {n : Nat} {ls rs : List Token}
    {left right : Expr} (hop : infixSign op = some (t, o)) (hleft : LeadsPart (.tier t) ls left)
    (hright : LeadsPart (tierOperand t) rs right) :
    Leads (.tier t) (ls ++ ⟨.op o, n⟩ :: rs) (.binary op left right) := by
  intro rest fuel hstops hfuel
  have hheight := tierOperand_height t
  simp only [List.length_append, List.length_cons] at hfuel ⊢
  obtain ⟨fuel', hfuel', hloop⟩ := hleft.2 (⟨.op o, n⟩ :: (rs ++ rest)) fuel
    (.of_continues (continues?_binary hop) (by omega)) (by omega)
  obtain ⟨fuel', rfl⟩ : ∃ f, fuel' = f + 1 := ⟨fuel' - 1, by omega⟩
  have hsign : eatBinaryOp? t (⟨.op o, n⟩ :: (rs ++ rest)) = some (op, rs ++ rest) :=
    eatBinaryOp?_eq_some.mpr ⟨o, n, hop, rfl⟩
  have hoperand : binaryOperand fuel' t (rs ++ rest) = .ok (right, rest) :=
    binaryOperand_eq hright.reads hright.opening.length_pos hstops (by omega)
  refine ⟨fuel', by omega, ?_⟩
  rw [List.append_assoc, List.cons_append, hloop, binaryRest, hsign]
  simp [hoperand]

theorem reads_sign {op : UnaryOp} {o : Operator} {n : Nat} (hop : prefixSign op = some o)
    (h : LeadsPart .signed ts e) : Reads .signed (⟨.op o, n⟩ :: ts) (.unary op e) := by
  refine .of_succ (by simp) fun rest fuel hstops hfuel => ?_
  simp only [List.length_cons] at hfuel
  have hsign : eatSign? (⟨.op o, n⟩ :: (ts ++ rest)) = some (op, ts ++ rest) :=
    eatSign?_eq_some.mpr ⟨o, n, hop, rfl⟩
  have hoperand : signed fuel (ts ++ rest) = .ok (e, rest) := h.reads rest fuel hstops (by omega)
  simp [parse, signed, hsign, hoperand]

theorem reads_power {bs es : List Token} {base exponent : Expr} {n : Nat}
    (hbase : LeadsPart .primary bs base) (hexponent : LeadsPart .signed es exponent) :
    Reads .power (bs ++ ⟨.op .power, n⟩ :: es) (.binary .pow base exponent) := by
  refine .of_succ length_append_cons_pos fun rest fuel hstops hfuel => ?_
  simp only [List.length_append, List.length_cons, Level.height] at hfuel
  have hbase' : primary fuel (bs ++ ⟨.op .power, n⟩ :: (es ++ rest)) =
      .ok (base, ⟨.op .power, n⟩ :: (es ++ rest)) :=
    hbase.reads _ fuel (.of_continues rfl (by decide)) (by simp only [Level.height]; omega)
  have hexponent' : signed fuel (es ++ rest) = .ok (exponent, rest) :=
    hexponent.reads rest fuel hstops.signed (by simp only [Level.height]; omega)
  simp [parse, power, hbase', hexponent']

/-! ## Calls -/

theorem argument_atOp {a : Argument} {o : Operator} (h : ArgumentForm LeadsPart ts a)
    (ho : o ∉ openingOperators) (rest : List Token) : atOp o (ts ++ rest) = false := by
  cases h with
  | positional he => exact he.opening.atOp_eq_false ho rest
  | keyword he => rfl

theorem callArgument_eq {a : Argument} (h : ArgumentForm LeadsPart ts a)
    (hrest : Delimited .closeParen rest) (hfuel : 32 * ts.length + 24 ≤ fuel + 32)
    (hlength : 0 < ts.length) : callArgument fuel (ts ++ rest) = .ok (a, rest) := by
  have hstops := hrest.stops (by decide)
  obtain ⟨fuel, rfl⟩ : ∃ f, fuel = f + 1 := ⟨fuel - 1, by omega⟩
  cases h with
  | positional he =>
      have hkeyword := he.opening.keyword?_eq_none (hrest.atOp_eq_false (by decide) (by decide))
      have hexpr : expr fuel (ts ++ rest) = _ := he.expr_eq hstops (by omega)
      simp [callArgument, hkeyword, hexpr]
  | @keyword w n m ts e he =>
      simp only [List.length_cons] at hfuel
      have hexpr : expr fuel (ts ++ rest) = .ok (e, rest) := he.expr_eq hstops (by omega)
      simp [callArgument, keyword?, Token.isOp, TokenKind.isOp, hexpr]

theorem argument_length {a : Argument} (h : ArgumentForm LeadsPart ts a) : 0 < ts.length := by
  cases h with
  | positional he => exact he.opening.length_pos
  | keyword he => simp

theorem callArguments_step {a : Argument} {found : List Argument}
    (h : ArgumentForm LeadsPart ts a) (hrest : Delimited .closeParen rest)
    (hfuel : 32 * ts.length ≤ fuel + 1) :
    callArguments (fuel + 1) found (ts ++ rest) =
      match eatOp? .comma rest with
      | some after => callArguments fuel (a :: found) after
      | none => do
        let after ← expectOp .closeParen rest
        return ((a :: found).reverse, after) := by
  have hlength := argument_length h
  have hclose := eatOp?_eq_none.mpr (argument_atOp h (o := .closeParen) (by decide) rest)
  have htimes := argument_atOp h (o := .times) (by decide) rest
  have hpower := argument_atOp h (o := .power) (by decide) rest
  have hargument : callArgument fuel (ts ++ rest) = .ok (a, rest) :=
    callArgument_eq h hrest (by omega) hlength
  rw [callArguments, hclose]
  simp only [htimes, hpower, hargument, hrest.rejectComprehension_eq, ok_bind]
  rfl

theorem callArguments_eq {found new : List Argument} {comma : Bool} {n : Nat}
    (h : Listed (ArgumentForm LeadsPart) ts new comma) (hfuel : 32 * ts.length + 1 ≤ fuel) :
    callArguments fuel found (ts ++ ⟨.op .closeParen, n⟩ :: rest) =
      .ok (found.reverse ++ new, rest) := by
  induction h generalizing found fuel with
  | none =>
      obtain ⟨fuel, rfl⟩ : ∃ f, fuel = f + 1 := ⟨fuel - 1, by omega⟩
      simp [callArguments]
  | @last ts a ha =>
      obtain ⟨fuel, rfl⟩ : ∃ f, fuel = f + 1 := ⟨fuel - 1, by omega⟩
      rw [callArguments_step ha .close (by omega)]
      simp
  | @more ts ts' a new comma m ha _ ih =>
      simp only [List.length_append, List.length_cons] at hfuel
      obtain ⟨fuel, rfl⟩ : ∃ f, fuel = f + 1 := ⟨fuel - 1, by omega⟩
      have hrest : callArguments fuel (a :: found) (ts' ++ ⟨.op .closeParen, n⟩ :: rest) =
          .ok ((a :: found).reverse ++ new, rest) := ih (by omega)
      rw [List.append_assoc, List.cons_append, callArguments_step ha .comma (by omega)]
      simp [hrest]

/-! ## Trailers -/

theorem leads_trailer {base whole : Expr} {bs : List Token} (hbase : LeadsPart .primary bs base)
    (hcontinues : ∀ rest, continues? (ts ++ rest) = some .primary) (hlength : 0 < ts.length)
    (htrailer : ∀ rest fuel, 32 * ts.length ≤ fuel + 1 →
      trailers (fuel + 1) base (ts ++ rest) = trailers fuel whole rest) :
    Leads .primary (bs ++ ts) whole := by
  intro rest fuel _ hfuel
  simp only [List.length_append, Level.height] at hfuel ⊢
  obtain ⟨fuel', hfuel', hloop⟩ := hbase.2 (ts ++ rest) fuel
    (.of_continues (hcontinues rest) (by decide)) (by simp only [Level.height]; omega)
  obtain ⟨fuel', rfl⟩ : ∃ f, fuel' = f + 1 := ⟨fuel' - 1, by omega⟩
  refine ⟨fuel', by omega, ?_⟩
  rw [List.append_assoc, hloop, htrailer rest fuel' (by omega)]

theorem leads_member {base : Expr} {w : String} {n m : Nat} (h : LeadsPart .primary ts base) :
    Leads .primary (ts ++ [⟨.op .dot, n⟩, ⟨.name w, m⟩]) (.attribute base w) := by
  refine leads_trailer h (fun rest => rfl) (by simp) fun rest fuel hfuel => ?_
  simp [trailers]

theorem leads_call {args : List Token} {callee : Expr} {arguments : List Argument} {comma : Bool}
    {n m : Nat} (h : LeadsPart .primary ts callee)
    (harguments : Listed (ArgumentForm LeadsPart) args arguments comma) :
    Leads .primary (ts ++ ⟨.op .openParen, n⟩ :: (args ++ [⟨.op .closeParen, m⟩]))
      (.call callee arguments) := by
  refine leads_trailer h (fun rest => rfl) (by simp) fun rest fuel hfuel => ?_
  simp only [List.length_append, List.length_cons, List.length_nil] at hfuel
  have hcall : callArguments fuel [] (args ++ ⟨.op .closeParen, m⟩ :: rest) =
      .ok (arguments, rest) := callArguments_eq harguments (by omega)
  simp [trailers, hcall]

theorem leads_subscript {is : List Token} {base index : Expr} {n m : Nat}
    (h : LeadsPart .primary ts base) (hindex : LeadsPart .list is index) :
    Leads .primary (ts ++ ⟨.op .openBracket, n⟩ :: (is ++ [⟨.op .closeBracket, m⟩]))
      (.subscript base index) := by
  refine leads_trailer h (fun rest => rfl) (by simp) fun rest fuel hfuel => ?_
  simp only [List.length_append, List.length_cons, List.length_nil] at hfuel
  have hlist : exprList fuel (is ++ ⟨.op .closeBracket, m⟩ :: rest) =
      .ok (index, ⟨.op .closeBracket, m⟩ :: rest) :=
    hindex.reads _ fuel (.of_atListEnd rfl) (by simp only [Level.height]; omega)
  simp [trailers, hlist]

/-! ## Displays -/

theorem sequence_step {item : Expr} {items : List Expr} {comma : Bool} {close : Operator}
    (h : LeadsPart .conditional ts item) (hrest : Delimited close rest)
    (hclose : close ∈ closingBrackets) (hfuel : 32 * ts.length ≤ fuel + 1) :
    sequence (fuel + 1) close items comma (ts ++ rest) =
      match eatOp? .comma rest with
      | some after => sequence fuel close (item :: items) true after
      | none => do
        let after ← expectOp close rest
        return (((item :: items).reverse, comma), after) := by
  have hopen := h.opening.eatOp?_eq_none (not_opening_of_closing hclose) rest
  have htimes := h.opening.atOp_eq_false (o := .times) (by decide) rest
  have hexpr : expr fuel (ts ++ rest) = .ok (item, rest) :=
    h.expr_eq (hrest.stops hclose) (by omega)
  rw [sequence, hopen]
  simp only [htimes, hexpr, hrest.rejectComprehension_eq, ok_bind]
  rfl

theorem sequence_eq {items new : List Expr} {comma more : Bool} {close : Operator} {n : Nat}
    (h : Listed (LeadsPart .conditional) ts new more) (hclose : close ∈ closingBrackets)
    (hfuel : 32 * ts.length + 1 ≤ fuel) :
    sequence fuel close items comma (ts ++ ⟨.op close, n⟩ :: rest) =
      .ok ((items.reverse ++ new, comma || more), rest) := by
  have hcomma : close ≠ .comma := by
    rintro rfl
    revert hclose
    decide
  induction h generalizing items comma fuel with
  | none =>
      obtain ⟨fuel, rfl⟩ : ∃ f, fuel = f + 1 := ⟨fuel - 1, by omega⟩
      simp [sequence]
  | @last ts item hitem =>
      obtain ⟨fuel, rfl⟩ : ∃ f, fuel = f + 1 := ⟨fuel - 1, by omega⟩
      rw [sequence_step hitem .close hclose (by omega)]
      simp [hcomma]
  | @more ts ts' item new more m hitem _ ih =>
      simp only [List.length_append, List.length_cons] at hfuel
      obtain ⟨fuel, rfl⟩ : ∃ f, fuel = f + 1 := ⟨fuel - 1, by omega⟩
      have hrest : sequence fuel close (item :: items) true (ts' ++ ⟨.op close, n⟩ :: rest) =
          .ok (((item :: items).reverse ++ new, true || more), rest) := ih (by omega)
      rw [List.append_assoc, List.cons_append, sequence_step hitem .comma hclose (by omega)]
      simp [hrest]

theorem listed_none_or {α : Type} {Item : List Token → α → Prop} {xs : List α} {comma : Bool}
    (hclose : ∀ {ts x}, Item ts x → ∀ rest, atOp .closeBrace (ts ++ rest) = false)
    (h : Listed Item ts xs comma) :
    ts = [] ∧ xs = [] ∨ xs ≠ [] ∧ ∀ rest, eatOp? .closeBrace (ts ++ rest) = none := by
  cases h with
  | none => exact .inl ⟨rfl, rfl⟩
  | last hx => exact .inr ⟨by simp, fun rest => eatOp?_eq_none.mpr (hclose hx rest)⟩
  | more hx =>
      refine .inr ⟨by simp, fun rest => ?_⟩
      rw [List.append_assoc]
      exact eatOp?_eq_none.mpr (hclose hx _)

/-- Items of one kind are gathered in a display of that kind, which is undecided
before the first. -/
theorem braces_eq {α : Type} {Item : List Token → α → Prop}
    {gathered? : Display → Option (List α)} {display : Display} {wrap : List α → Display} {found new : List α} {comma : Bool} {n : Nat}
    (hwrap : ∀ found, gathered? (wrap found) = some found)
    (hclose : ∀ {ts x}, Item ts x → ∀ rest, atOp .closeBrace (ts ++ rest) = false)
    (hitem : ∀ {ts x rest fuel display found}, Item ts x → Delimited .closeBrace rest →
      gathered? display = some found → 32 * ts.length ≤ fuel + 2 →
      braceItem fuel display (ts ++ rest) = .ok (wrap (x :: found), rest))
    (h : Listed Item ts new comma) (hnew : new ≠ []) (hdisplay : gathered? display = some found)
    (hfuel : 32 * ts.length + 1 ≤ fuel) :
    braces fuel display (ts ++ ⟨.op .closeBrace, n⟩ :: rest) =
      .ok (wrap (new.reverse ++ found), rest) := by
  induction h generalizing display found fuel with
  | none => exact absurd rfl hnew
  | @last ts x hx =>
      obtain ⟨fuel, rfl⟩ : ∃ f, fuel = f + 1 := ⟨fuel - 1, by omega⟩
      have hread : braceItem fuel display (ts ++ ⟨.op .closeBrace, n⟩ :: rest) = _ :=
        hitem hx .close hdisplay (by omega)
      simp [braces, hread]
  | @more ts ts' x new comma m hx hmore ih =>
      simp only [List.length_append, List.length_cons] at hfuel
      obtain ⟨fuel, rfl⟩ : ∃ f, fuel = f + 1 := ⟨fuel - 1, by omega⟩
      have hread : braceItem fuel display
          (ts ++ ⟨.op .comma, m⟩ :: (ts' ++ ⟨.op .closeBrace, n⟩ :: rest)) = _ :=
        hitem hx .comma hdisplay (by omega)
      obtain ⟨rfl, rfl⟩ | ⟨hne, hopen⟩ := listed_none_or hclose hmore
      · simp only [List.nil_append] at hread
        simp [braces, hread]
      · have hrest : braces fuel (wrap (x :: found)) (ts' ++ ⟨.op .closeBrace, n⟩ :: rest) = _ :=
          ih hne (hwrap _) (by omega)
        simp [braces, hread, hopen, hrest]

theorem braceItem_element {item : Expr} {display : Display} {found : List Expr}
    (h : LeadsPart .conditional ts item) (hrest : Delimited .closeBrace rest)
    (hdisplay : display.elements? = some found) (hfuel : 32 * ts.length ≤ fuel + 2) :
    braceItem fuel display (ts ++ rest) = .ok (.elements (item :: found), rest) := by
  have hlength := h.opening.length_pos
  obtain ⟨fuel, rfl⟩ : ∃ f, fuel = f + 1 := ⟨fuel - 1, by omega⟩
  have hopen := h.opening.eatOp?_eq_none (o := .power) (by decide) rest
  have hexpr : expr fuel (ts ++ rest) = .ok (item, rest) :=
    h.expr_eq (hrest.stops (by decide)) (by omega)
  have hcolon := eatOp?_eq_none.mpr (hrest.atOp_eq_false (o := .colon) (by decide) (by decide))
  cases display with
  | pairs items => cases hdisplay
  | undecided | elements =>
      cases hdisplay
      simp [braceItem, hopen, hexpr, hrest.rejectComprehension_eq, hcolon]

theorem entry_atOp {item : DictItem} (h : EntryForm LeadsPart ts item) (rest : List Token) :
    atOp .closeBrace (ts ++ rest) = false := by
  cases h with
  | unpack => rfl
  | pair hkey =>
      rw [List.append_assoc]
      exact hkey.opening.atOp_eq_false (by decide) _

theorem braceItem_entry {item : DictItem} {display : Display} {found : List DictItem}
    (h : EntryForm LeadsPart ts item) (hrest : Delimited .closeBrace rest)
    (hdisplay : display.entries? = some found) (hfuel : 32 * ts.length ≤ fuel + 2) :
    braceItem fuel display (ts ++ rest) = .ok (.pairs (item :: found), rest) := by
  have hstops := hrest.stops (by decide)
  cases h with
  | @unpack ts mapping n h =>
      simp only [List.length_cons] at hfuel
      obtain ⟨fuel, rfl⟩ : ∃ f, fuel = f + 1 := ⟨fuel - 1, by omega⟩
      have hmapping : binary fuel .bitOr (ts ++ rest) = .ok (mapping, rest) :=
        h.bitOr_eq (hstops.of_height_lt (by decide)) (by omega)
      cases display with
      | elements items => cases hdisplay
      | undecided | pairs =>
          cases hdisplay
          simp [braceItem, hmapping]
  | @pair ks vs key value n hkey hvalue =>
      simp only [List.length_append, List.length_cons] at hfuel
      obtain ⟨fuel, rfl⟩ : ∃ f, fuel = f + 1 := ⟨fuel - 1, by omega⟩
      have hopen := hkey.opening.eatOp?_eq_none (o := .power) (by decide)
        (⟨.op .colon, n⟩ :: (vs ++ rest))
      have hkey' : expr fuel (ks ++ ⟨.op .colon, n⟩ :: (vs ++ rest)) =
          .ok (key, ⟨.op .colon, n⟩ :: (vs ++ rest)) :=
        hkey.expr_eq (.of_atListEnd rfl) (by omega)
      have hvalue' : expr fuel (vs ++ rest) = .ok (value, rest) :=
        hvalue.expr_eq hstops (by omega)
      have hcolon : rejectComprehension (⟨.op .colon, n⟩ :: (vs ++ rest)) = .ok () := rfl
      cases display with
      | elements items => cases hdisplay
      | undecided | pairs =>
          cases hdisplay
          simp [braceItem, hopen, hkey', hcolon, hvalue', hrest.rejectComprehension_eq]

/-! ## Atoms -/

theorem adjacentStrings_append {s : String} (h : Adjacent ts s)
    (hrest : adjacentStrings rest = ("", rest)) : adjacentStrings (ts ++ rest) = (s, rest) := by
  induction h with
  | one => simp [adjacentStrings, hrest]
  | more _ ih => simp [adjacentStrings, ih]

theorem reads_str {s : String} (h : Adjacent ts s) : Reads .atom ts (.str s) := by
  have hlength : 0 < ts.length := by cases h <;> simp
  refine .of_succ hlength fun rest fuel hstops _ => ?_
  cases h with
  | one => simp [parse, atom, hstops.adjacentStrings_eq]
  | more h => simp [parse, atom, adjacentStrings_append h hstops.adjacentStrings_eq]

theorem reads_name {w : String} {n : Nat} (h : Nameable w) :
    Reads .atom [⟨.name w, n⟩] (.name w) := by
  refine .of_succ (by simp) fun rest fuel _ _ => ?_
  simp only [Nameable, List.mem_cons, not_or] at h
  simp [parse, atom, nameAtom, h]

theorem reads_group {n m : Nat} (h : LeadsPart .conditional ts e) :
    Reads .atom (⟨.op .openParen, n⟩ :: (ts ++ [⟨.op .closeParen, m⟩])) e := by
  refine .of_succ (by simp) fun rest fuel _ hfuel => ?_
  simp only [List.length_append, List.length_cons, List.length_nil, Level.height] at hfuel
  have hitems : sequence fuel .closeParen [] false (ts ++ ⟨.op .closeParen, m⟩ :: rest) =
      .ok (([e], false), rest) := sequence_eq (.last h) (by decide) (by omega)
  simp [parse, atom, hitems]

theorem reads_tuple {items : List Expr} {comma : Bool} {n m : Nat}
    (h : Listed (LeadsPart .conditional) ts items comma) (hcomma : comma = true ∨ items = []) :
    Reads .atom (⟨.op .openParen, n⟩ :: (ts ++ [⟨.op .closeParen, m⟩])) (.tuple items) := by
  refine .of_succ (by simp) fun rest fuel _ hfuel => ?_
  simp only [List.length_append, List.length_cons, List.length_nil, Level.height] at hfuel
  have hitems : sequence fuel .closeParen [] false (ts ++ ⟨.op .closeParen, m⟩ :: rest) =
      .ok ((items, comma), rest) := sequence_eq h (by decide) (by omega)
  obtain rfl | rfl := hcomma
  · simp [parse, atom, hitems]
  · simp [parse, atom, hitems]

theorem reads_display_list {items : List Expr} {comma : Bool} {n m : Nat}
    (h : Listed (LeadsPart .conditional) ts items comma) :
    Reads .atom (⟨.op .openBracket, n⟩ :: (ts ++ [⟨.op .closeBracket, m⟩])) (.list items) := by
  refine .of_succ (by simp) fun rest fuel _ hfuel => ?_
  simp only [List.length_append, List.length_cons, List.length_nil, Level.height] at hfuel
  have hitems : sequence fuel .closeBracket [] false (ts ++ ⟨.op .closeBracket, m⟩ :: rest) =
      .ok ((items, comma), rest) := sequence_eq h (by decide) (by omega)
  simp [parse, atom, hitems]

theorem element_atOp {item : Expr} (h : LeadsPart .conditional ts item) (rest : List Token) :
    atOp .closeBrace (ts ++ rest) = false :=
  h.opening.atOp_eq_false (by decide) rest

theorem reads_set {first : Expr} {more : List Expr} {comma : Bool} {n m : Nat}
    (h : Listed (LeadsPart .conditional) ts (first :: more) comma) :
    Reads .atom (⟨.op .openBrace, n⟩ :: (ts ++ [⟨.op .closeBrace, m⟩]))
      (.set (first :: more)) := by
  refine .of_succ (by simp) fun rest fuel _ hfuel => ?_
  simp only [List.length_append, List.length_cons, List.length_nil, Level.height] at hfuel
  have hitems : braces fuel .undecided (ts ++ ⟨.op .closeBrace, m⟩ :: rest) =
      .ok (.elements ((first :: more).reverse ++ []), rest) :=
    braces_eq (fun _ => rfl) element_atOp braceItem_element h (by simp) rfl (by omega)
  obtain ⟨-, hnil⟩ | ⟨-, hopen⟩ := listed_none_or element_atOp h
  · cases hnil
  · simp [parse, atom, hopen, hitems, Display.toExpr]

theorem reads_dict {items : List DictItem} {comma : Bool} {n m : Nat}
    (h : Listed (EntryForm LeadsPart) ts items comma) :
    Reads .atom (⟨.op .openBrace, n⟩ :: (ts ++ [⟨.op .closeBrace, m⟩])) (.dict items) := by
  refine .of_succ (by simp) fun rest fuel _ hfuel => ?_
  simp only [List.length_append, List.length_cons, List.length_nil, Level.height] at hfuel
  obtain ⟨rfl, rfl⟩ | ⟨hne, hopen⟩ := listed_none_or entry_atOp h
  · simp [parse, atom]
  · have hitems : braces fuel .undecided (ts ++ ⟨.op .closeBrace, m⟩ :: rest) =
        .ok (.pairs (items.reverse ++ []), rest) :=
      braces_eq (fun _ => rfl) entry_atOp braceItem_entry h hne rfl (by omega)
    simp [parse, atom, hopen, hitems, Display.toExpr]

/-! ## All productions -/

theorem leads_hereditary : Hereditary Leads := by
  intro l ts e h
  cases h with
  | tighter hl h => exact leads_tighter hl (LeadsPart.reads h) (LeadsPart.opening h)
  | bare h => exact reads_bare h
  | conditional hb ht ho => exact reads_conditional hb ht ho
  | or h hs => exact reads_chain h hs
  | and h hs => exact reads_chain h hs
  | not h => exact reads_not h
  | compare h hs => exact reads_compare h hs
  | binary hop hl hr => exact leads_binary hop hl hr
  | sign hop h => exact reads_sign hop h
  | power hb he => exact reads_power hb he
  | member h => exact leads_member h
  | call h hs => exact leads_call h hs
  | subscript h hi => exact leads_subscript h hi
  | int | float | true | false | nothing | ellipsis =>
      exact Reads.of_succ (by simp) fun rest fuel _ _ => rfl
  | str h => exact reads_str h
  | name h => exact reads_name h
  | group h => exact reads_group h
  | tuple h hcomma => exact reads_tuple h hcomma
  | list h => exact reads_display_list h
  | set h => exact reads_set h
  | dict h => exact reads_dict h

/-- A level with enough fuel reads each of its renderings. -/
theorem reads_of_renders (h : Renders l ts e) : Reads l ts e :=
  Leads.reads (h.induction leads_hereditary)

end IconConstraints.Parsing
