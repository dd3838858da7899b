import IconConstraints.Proofs.Lookahead

/-!
# How renderings begin and end

With which token a rendering can begin, and which tokens after it would be taken
for more of it.  The parser decides by these tokens alone, so they are what has to
be known about the parts of a rendering to follow the parser through the whole.
-/

namespace IconConstraints.Parsing

open Source Grammar

variable {l l' : Level} {ts rest : List Token} {e : Expr} {o : Operator} {w : String}

/-! ## Beginnings -/

def opensAtom : TokenKind → Bool
  | .int _ | .float _ | .str _ => true
  | .name w => !reservedWords.contains w
  | .op .ellipsis | .op .openParen | .op .openBracket | .op .openBrace => true
  | .op _ => false

def opensSigned : TokenKind → Bool
  | .op .minus | .op .plus | .op .tilde => true
  | _ => false

def opensNegation (kind : TokenKind) : Bool :=
  kind.isName "not"

/-- Whether an expression of the level can begin with the token. -/
def opens (l : Level) (kind : TokenKind) : Bool :=
  opensAtom kind || (Level.signed.height ≤ l.height && opensSigned kind) ||
    (Level.negation.height ≤ l.height && opensNegation kind)

/-- The tokens begin as an expression of the level does; that the second is not an
equals sign tells an argument from a keyword argument. -/
def Opening (l : Level) (ts : List Token) : Prop :=
  ∃ k more, ts = k :: more ∧ opens l k.kind = true ∧ atOp .assign more = false

theorem opens_mono {kind : TokenKind} (hl : l.height ≤ l'.height) (h : opens l kind = true) :
    opens l' kind = true := by
  simp only [opens, Bool.or_eq_true, Bool.and_eq_true, decide_eq_true_eq] at h ⊢
  obtain (h | ⟨hsigned, h⟩) | ⟨hnegation, h⟩ := h
  · exact .inl (.inl h)
  · exact .inl (.inr ⟨by omega, h⟩)
  · exact .inr ⟨by omega, h⟩

def openingOperators : List Operator :=
  [.ellipsis, .openParen, .openBracket, .openBrace, .minus, .plus, .tilde]

theorem opens_op (h : opens l (.op o) = true) : o ∈ openingOperators := by
  simp only [opens, Bool.or_eq_true, Bool.and_eq_true] at h
  obtain (h | ⟨-, h⟩) | ⟨-, h⟩ := h
  · unfold opensAtom at h
    split at h <;> simp_all [openingOperators]
  · unfold opensSigned at h
    split at h <;> simp_all [openingOperators]
  · cases h

theorem opens_name (h : opens l (.name w) = true) :
    w ∉ reservedWords ∨ w = "not" ∧ Level.negation.height ≤ l.height := by
  simp only [opens, Bool.or_eq_true, Bool.and_eq_true, decide_eq_true_eq] at h
  obtain (h | ⟨-, h⟩) | ⟨hl, h⟩ := h
  · exact .inl (by simpa [opensAtom] using h)
  · cases h
  · exact .inr ⟨by simpa [opensNegation, TokenKind.isName] using h, hl⟩

namespace Opening

theorem mono (h : Opening l ts) (hl : l.height ≤ l'.height) : Opening l' ts := by
  obtain ⟨k, more, rfl, hk, hmore⟩ := h
  exact ⟨k, more, rfl, opens_mono hl hk, hmore⟩

theorem length_pos (h : Opening l ts) : 0 < ts.length := by
  obtain ⟨k, more, rfl, -⟩ := h
  simp

theorem append (h : Opening l ts) (hrest : atOp .assign rest = false) :
    Opening l (ts ++ rest) := by
  obtain ⟨k, more, rfl, hk, hmore⟩ := h
  refine ⟨k, more ++ rest, rfl, hk, ?_⟩
  cases more with
  | nil => exact hrest
  | cons k' more => exact hmore

theorem atOp_eq_false (h : Opening l ts) (ho : o ∉ openingOperators) (rest : List Token) :
    atOp o (ts ++ rest) = false := by
  obtain ⟨⟨kind, n⟩, more, rfl, hk, -⟩ := h
  cases kind with
  | op p =>
      have hne : p ≠ o := fun heq => ho (heq ▸ opens_op hk)
      simpa [atOp] using hne
  | _ => rfl

theorem eatOp?_eq_none (h : Opening l ts) (ho : o ∉ openingOperators) (rest : List Token) :
    eatOp? o (ts ++ rest) = none :=
  Parsing.eatOp?_eq_none.mpr (h.atOp_eq_false ho rest)

theorem atName_eq_false (h : Opening l ts) (hw : w ∈ reservedWords)
    (hnot : w = "not" → l.height < Level.negation.height) (rest : List Token) :
    atName w (ts ++ rest) = false := by
  obtain ⟨⟨kind, n⟩, more, rfl, hk, -⟩ := h
  cases kind with
  | name v =>
      have hne : v ≠ w := by
        rintro rfl
        obtain hfree | ⟨rfl, hl⟩ := opens_name hk
        · exact hfree hw
        · exact absurd (hnot rfl) (by omega)
      simpa [atName] using hne
  | _ => rfl

theorem atListEnd_eq_false (h : Opening l ts) (rest : List Token) :
    atListEnd (ts ++ rest) = false := by
  have hclosers : ∀ o ∈ [Operator.closeParen, .closeBracket, .closeBrace, .colon, .assign],
      atOp o (ts ++ rest) = false := by
    intro o ho
    refine h.atOp_eq_false ?_ rest
    revert o
    decide
  obtain ⟨k, more, rfl, -⟩ := h
  simpa [atListEnd, atOp] using hclosers

theorem eatSign?_eq_none (h : Opening l ts) (hl : l.height < Level.signed.height)
    (rest : List Token) : eatSign? (ts ++ rest) = none := by
  obtain ⟨⟨kind, n⟩, more, rfl, hk, -⟩ := h
  cases kind with
  | op p =>
      have hatom : opensAtom (.op p) = true := by
        simp only [opens, Bool.or_eq_true, Bool.and_eq_true, decide_eq_true_eq] at hk
        obtain (hk | ⟨hl', -⟩) | ⟨-, hk⟩ := hk
        · exact hk
        · omega
        · cases hk
      cases p <;> first | rfl | cases hatom
  | _ => rfl

theorem keyword?_eq_none (h : Opening l ts) (hrest : atOp .assign rest = false) :
    keyword? (ts ++ rest) = none := by
  obtain ⟨k, more, heq, -, hmore⟩ := h.append hrest
  rw [heq]
  cases hkeyword : keyword? (k :: more) with
  | none => rfl
  | some found =>
      obtain ⟨n, m, hshape⟩ := keyword?_eq_some.mp hkeyword
      cases hshape
      cases hmore

end Opening

theorem Opening.cons {k : Token} (hk : opens l k.kind = true) (h : Opening l' ts) :
    Opening l (k :: ts) :=
  ⟨k, ts, rfl, hk, by simpa using h.atOp_eq_false (o := .assign) (by decide) []⟩

theorem atOp_assign_comparison {op : CompareOp} {ws : List Token}
    (hws : ws.map Token.kind = comparisonWords op) : atOp .assign (ws ++ rest) = false := by
  cases op <;>
    obtain ⟨⟨kind, n⟩, more, rfl, rfl, -⟩ := List.map_eq_cons_iff.mp hws <;> rfl

theorem atOp_assign_listed {α : Type} {Item : List Token → α → Prop} {xs : List α} {comma : Bool}
    (hitem : ∀ {ts x}, Item ts x → ∀ rest, atOp .assign (ts ++ rest) = false)
    (h : Listed Item ts xs comma) (hrest : atOp .assign rest = false) :
    atOp .assign (ts ++ rest) = false := by
  cases h with
  | none => exact hrest
  | last hx => exact hitem hx rest
  | more hx =>
      rw [List.append_assoc]
      exact hitem hx _

abbrev OpeningOf (l : Level) (ts : List Token) (_ : Expr) : Prop :=
  Opening l ts

theorem atOp_assign_items {items : List Expr} {comma : Bool} {n : Nat}
    (h : Listed (RendersAnd OpeningOf .conditional) ts items comma) (ho : o ≠ .assign) :
    atOp .assign (ts ++ [⟨.op o, n⟩]) = false :=
  atOp_assign_listed (fun hx => hx.2.atOp_eq_false (by decide)) h (by simpa [atOp] using ho)

theorem atOp_assign_entry {item : DictItem} (h : EntryForm (RendersAnd OpeningOf) ts item)
    (rest : List Token) : atOp .assign (ts ++ rest) = false := by
  cases h with
  | unpack => rfl
  | pair hkey =>
      rw [List.append_assoc]
      exact hkey.2.atOp_eq_false (by decide) _

theorem opening_hereditary : Hereditary OpeningOf := by
  intro l ts e h
  cases h with
  | tighter hl h => exact h.2.mono (Nat.le_of_lt (Level.height_lt_of_tighter? hl))
  | bare h =>
      cases h with
      | more hx => exact (hx.2.mono (by decide)).append rfl
  | conditional hb => exact (hb.2.mono (by decide)).append rfl
  | or h hs =>
      cases hs with
      | more => exact (h.2.mono (by decide)).append rfl
  | and h hs =>
      cases hs with
      | more => exact (h.2.mono (by decide)).append rfl
  | not h => exact .cons rfl h.2
  | compare h hs =>
      cases hs with
      | more hws => exact (h.2.mono (by decide)).append (atOp_assign_comparison hws)
  | binary hop hl =>
      refine hl.2.append ?_
      cases ‹BinaryOp› <;> cases hop <;> rfl
  | sign hop h =>
      refine .cons ?_ h.2
      cases ‹UnaryOp› <;> cases hop <;> rfl
  | power hb => exact (hb.2.mono (by decide)).append rfl
  | member h => exact h.2.append rfl
  | call h => exact h.2.append rfl
  | subscript h => exact h.2.append rfl
  | int | float | true | false | nothing | ellipsis => exact ⟨_, [], rfl, rfl, rfl⟩
  | str h =>
      cases h with
      | one => exact ⟨_, [], rfl, rfl, rfl⟩
      | more h => exact ⟨_, _, rfl, rfl, by cases h <;> rfl⟩
  | name hw =>
      refine ⟨_, [], rfl, ?_, rfl⟩
      simp [opens, opensAtom, hw.not_reserved]
  | group h => exact .cons rfl (h.2.append rfl)
  | tuple h => exact ⟨_, _, rfl, rfl, atOp_assign_items h (by decide)⟩
  | list h => exact ⟨_, _, rfl, rfl, atOp_assign_items h (by decide)⟩
  | set h => exact ⟨_, _, rfl, rfl, atOp_assign_items h (by decide)⟩
  | dict h => exact ⟨_, _, rfl, rfl, atOp_assign_listed atOp_assign_entry h rfl⟩

theorem Opening.of_renders (h : Renders l ts e) : Opening l ts :=
  h.induction opening_hereditary

/-! ## Ends -/

def operatorLevel? : Operator → Option Level
  | .dot | .openParen | .openBracket => some .primary
  | .power => some .power
  | .times | .divide | .floorDivide | .modulo => some (.tier .product)
  | .plus | .minus => some (.tier .sum)
  | .shiftLeft | .shiftRight => some (.tier .shift)
  | .ampersand => some (.tier .bitAnd)
  | .caret => some (.tier .bitXor)
  | .bar => some (.tier .bitOr)
  | .equal | .notEqual | .less | .lessEqual | .greater | .greaterEqual => some .comparison
  | .comma => some .list
  | _ => none

/-- The level at which the tokens go on with what stands before them. -/
def continues? : List Token → Option Level
  | [] => none
  | t :: ts =>
    match t.kind with
    | .str _ => some .atom
    | .op o => operatorLevel? o
    | .name "in" | .name "is" => some .comparison
    | .name "not" => if atName "in" ts then some .comparison else none
    | .name "and" => some (.chain .and)
    | .name "or" => some (.chain .or)
    | .name "if" => some .conditional
    | _ => none

theorem continues?_binary {op : BinaryOp} {t : Tier} {n : Nat} (h : infixSign op = some (t, o)) :
    continues? (⟨.op o, n⟩ :: rest) = some (.tier t) := by
  cases op <;> cases h <;> rfl

theorem continues?_comparison {op : CompareOp} {ws : List Token}
    (hws : ws.map Token.kind = comparisonWords op) :
    continues? (ws ++ rest) = some .comparison := by
  cases op with
  | notIn =>
      obtain ⟨⟨kind, n⟩, more, rfl, rfl, hmore⟩ := List.map_eq_cons_iff.mp hws
      obtain ⟨⟨kind', m⟩, rfl, rfl⟩ := List.map_eq_singleton_iff.mp hmore
      rfl
  | _ =>
      obtain ⟨⟨kind, n⟩, more, rfl, rfl, -⟩ := List.map_eq_cons_iff.mp hws
      rfl

theorem continues?_word {op : Connective} {n : Nat} :
    continues? (⟨.name (word op), n⟩ :: rest) = some (.chain op) := by
  cases op <;> rfl

theorem continues?_ne_signed (ts : List Token) : continues? ts ≠ some .signed := by
  unfold continues?
  split
  case h_1 => nofun
  case h_2 =>
    split
    case h_2 o _ => cases o <;> nofun
    case h_5 => split <;> nofun
    all_goals nofun

/-- The tokens after an expression of the level are not taken for more of it. -/
structure Stops (l : Level) (rest : List Token) : Prop where
  looser : ∀ l', continues? rest = some l' → l.height < l'.height
  ends : l = .list → atListEnd rest = true

namespace Stops

theorem of_height_lt (h : Stops l rest) (hl : l'.height < l.height) : Stops l' rest where
  looser := by
    intro l'' hcontinues
    have := h.looser l'' hcontinues
    omega
  ends := by
    rintro rfl
    have := l.height_le
    omega

theorem of_continues (h : continues? rest = some l') (hl : l.height < l'.height) :
    Stops l rest where
  looser := by
    intro l'' hcontinues
    cases h.symm.trans hcontinues
    exact hl
  ends := by
    rintro rfl
    have := l'.height_le
    omega

theorem of_end (h : continues? rest = none) (hend : l = .list → atListEnd rest = true) :
    Stops l rest where
  looser := by
    intro l' hcontinues
    cases h.symm.trans hcontinues
  ends := hend

/-- The exponent of a power is a signed expression, and stops where the power does. -/
theorem signed (h : Stops .power rest) : Stops .signed rest where
  looser := by
    intro l' hcontinues
    have hlt := h.looser l' hcontinues
    have hne : l' ≠ .signed := fun heq => continues?_ne_signed rest (heq ▸ hcontinues)
    have hheight : l'.height ≠ Level.signed.height := fun heq => hne (Level.height_injective heq)
    simp only [Level.height] at hlt hheight ⊢
    omega
  ends h := by cases h

theorem of_atListEnd (h : atListEnd rest = true) : Stops l rest := by
  refine of_end ?_ fun _ => h
  cases rest with
  | nil => rfl
  | cons k rest =>
      obtain ⟨kind, n⟩ := k
      cases kind with
      | op o => cases o <;> first | rfl | cases h
      | _ => cases h

theorem not_continues (h : Stops l rest) : continues? rest ≠ some l := by
  intro hcontinues
  exact Nat.lt_irrefl _ (h.looser l hcontinues)

theorem adjacentStrings_eq (h : Stops .atom rest) : adjacentStrings rest = ("", rest) := by
  have hnot := h.not_continues
  cases rest with
  | nil => rfl
  | cons k rest =>
      obtain ⟨kind, n⟩ := k
      cases kind with
      | str s => exact absurd rfl hnot
      | _ => rfl

theorem trailers_eq {fuel : Nat} (h : Stops .primary rest) :
    trailers (fuel + 1) e rest = .ok (e, rest) := by
  have hnot := h.not_continues
  unfold trailers
  split
  case h_5 => rfl
  all_goals exact absurd rfl hnot

theorem eatPower_eq_none (h : Stops .power rest) : eatOp? .power rest = none := by
  cases heat : eatOp? .power rest with
  | none => rfl
  | some after =>
      obtain ⟨n, rfl⟩ := eatOp?_eq_some.mp heat
      exact absurd rfl h.not_continues

theorem eatBinaryOp?_eq_none {t : Tier} (h : Stops (.tier t) rest) :
    eatBinaryOp? t rest = none := by
  cases heat : eatBinaryOp? t rest with
  | none => rfl
  | some found =>
      obtain ⟨o, n, ho, rfl⟩ := eatBinaryOp?_eq_some.mp heat
      exact absurd (continues?_binary ho) h.not_continues

theorem eatComparison?_eq_none (h : Stops .comparison rest) : eatComparison? rest = none := by
  cases heat : eatComparison? rest with
  | none => rfl
  | some found =>
      obtain ⟨ws, rfl, hws⟩ := eatComparison?_sound heat
      exact absurd (continues?_comparison hws) h.not_continues

theorem atName_word_eq_false {op : Connective} (h : Stops (.chain op) rest) :
    atName (word op) rest = false := by
  rw [← eatName?_eq_none]
  cases heat : eatName? (word op) rest with
  | none => rfl
  | some after =>
      obtain ⟨n, rfl⟩ := eatName?_eq_some.mp heat
      exact absurd continues?_word h.not_continues

theorem eatIf_eq_none (h : Stops .conditional rest) : eatName? "if" rest = none := by
  cases heat : eatName? "if" rest with
  | none => rfl
  | some after =>
      obtain ⟨n, rfl⟩ := eatName?_eq_some.mp heat
      exact absurd rfl h.not_continues

theorem atOp_comma_eq_false (h : Stops .list rest) : atOp .comma rest = false := by
  rw [← eatOp?_eq_none]
  cases heat : eatOp? .comma rest with
  | none => rfl
  | some after =>
      obtain ⟨n, rfl⟩ := eatOp?_eq_some.mp heat
      exact absurd rfl h.not_continues

end Stops

/-- The tokens begin with a comma or with the closing bracket. -/
inductive Delimited (close : Operator) : List Token → Prop
  | comma {n : Nat} {ts : List Token} : Delimited close (⟨.op .comma, n⟩ :: ts)
  | close {n : Nat} {ts : List Token} : Delimited close (⟨.op close, n⟩ :: ts)

def closingBrackets : List Operator :=
  [.closeParen, .closeBracket, .closeBrace]

theorem not_opening_of_closing (h : o ∈ closingBrackets) : o ∉ openingOperators := by
  revert o
  decide

namespace Delimited

variable {close : Operator}

theorem stops (h : Delimited close rest) (hclose : close ∈ closingBrackets) :
    Stops .conditional rest := by
  cases h with
  | comma => exact .of_continues rfl (by decide)
  | close =>
      refine .of_atListEnd ?_
      simp only [closingBrackets, List.mem_cons, List.not_mem_nil, or_false] at hclose
      obtain rfl | rfl | rfl := hclose <;> rfl

theorem rejectComprehension_eq (h : Delimited close rest) :
    rejectComprehension rest = .ok () := by
  cases h <;> rfl

theorem atOp_eq_false (h : Delimited close rest) (ho : o ≠ .comma) (hclose : o ≠ close) :
    atOp o rest = false := by
  cases h with
  | comma => simpa using ho.symm
  | close => simpa using hclose.symm

end Delimited

end IconConstraints.Parsing
