import IconConstraints.Proofs.Grammar
import IconConstraints.Proofs.Outcomes

/-!
# Reading ahead

What it means that the parser eats an operator, a word or a keyword's name: the
tokens begin with what the grammar spells.
-/

namespace IconConstraints.Parsing

open Source Grammar

variable {α β : Type} {o : Operator} {w : String} {op : BinaryOp} {t : Tier}
  {ts rest : List Token}

theorem bind_eq_ok {x : Attempt α} {next : α → Attempt β} {b : β} :
    (x >>= next) = .ok b ↔ ∃ a, x = .ok a ∧ next a = .ok b :=
  Outcome.bind_eq_ok

@[simp] theorem ok_bind (a : α) (next : α → Attempt β) : (Except.ok a >>= next) = next a :=
  rfl

@[simp] theorem pure_eq_ok (a : α) : (pure a : Attempt α) = .ok a :=
  rfl

@[simp] theorem isOp_op {p : Operator} {n : Nat} : (Token.mk (.op p) n).isOp o = (p == o) :=
  rfl

@[simp] theorem isName_name {v : String} {n : Nat} : (Token.mk (.name v) n).isName w = (v == w) :=
  rfl

theorem isOp_iff {k : Token} : k.isOp o = true ↔ k.kind = .op o := by
  obtain ⟨kind, n⟩ := k
  cases kind <;> simp [Token.isOp, TokenKind.isOp]

theorem isName_iff {k : Token} : k.isName w = true ↔ k.kind = .name w := by
  obtain ⟨kind, n⟩ := k
  cases kind <;> simp [Token.isName, TokenKind.isName]

theorem eatOp?_eq_some : eatOp? o ts = some rest ↔ ∃ n, ts = ⟨.op o, n⟩ :: rest := by
  cases ts with
  | nil => simp [eatOp?]
  | cons k ts =>
      obtain ⟨kind, n⟩ := k
      simp only [eatOp?, Option.ite_none_right_eq_some, isOp_iff, Option.some.injEq]
      simp

theorem eatName?_eq_some : eatName? w ts = some rest ↔ ∃ n, ts = ⟨.name w, n⟩ :: rest := by
  cases ts with
  | nil => simp [eatName?]
  | cons k ts =>
      obtain ⟨kind, n⟩ := k
      simp only [eatName?, Option.ite_none_right_eq_some, isName_iff, Option.some.injEq]
      simp

@[simp] theorem eatOp?_cons {p : Operator} {n : Nat} :
    eatOp? o (⟨.op p, n⟩ :: ts) = if p = o then some ts else none := by
  simp [eatOp?]

@[simp] theorem eatName?_cons {v : String} {n : Nat} :
    eatName? w (⟨.name v, n⟩ :: ts) = if v = w then some ts else none := by
  simp [eatName?]

@[simp] theorem atOp_cons {p : Operator} {n : Nat} :
    atOp o (⟨.op p, n⟩ :: ts) = decide (p = o) := by
  simp [atOp, BEq.beq]

@[simp] theorem atName_cons {v : String} {n : Nat} :
    atName w (⟨.name v, n⟩ :: ts) = decide (v = w) := by
  simp [atName, BEq.beq]

theorem expectOp_eq_ok : expectOp o ts = .ok rest ↔ ∃ n, ts = ⟨.op o, n⟩ :: rest := by
  rw [← eatOp?_eq_some, expectOp]
  cases eatOp? o ts <;> simp

theorem eatOp?_eq_none : eatOp? o ts = none ↔ atOp o ts = false := by
  cases ts <;> simp [eatOp?, atOp]

theorem eatName?_eq_none : eatName? w ts = none ↔ atName w ts = false := by
  cases ts <;> simp [eatName?, atName]

@[simp] theorem expectOp_cons {n : Nat} : expectOp o (⟨.op o, n⟩ :: ts) = .ok ts := by
  simp [expectOp]

theorem keyword?_eq_some :
    keyword? ts = some (w, rest) ↔ ∃ n m, ts = ⟨.name w, n⟩ :: ⟨.op .assign, m⟩ :: rest := by
  constructor
  · intro h
    unfold keyword? at h
    split at h
    case h_2 => cases h
    case h_1 k eq after =>
      obtain ⟨kind, n⟩ := k
      obtain ⟨assign, m⟩ := eq
      split at h
      case h_2 => cases h
      case h_1 v hkind =>
        obtain rfl : kind = .name v := hkind
        split at h
        case isFalse => cases h
        case isTrue heq =>
          obtain rfl : assign = .op .assign := isOp_iff.mp heq
          cases h
          exact ⟨n, m, rfl⟩
  · rintro ⟨n, m, rfl⟩
    rfl

/-! ## Operators -/

theorem operator?_eq_some : t.operator? o = some op ↔ infixSign op = some (t, o) := by
  constructor
  · intro h
    unfold Tier.operator? at h
    split at h <;> cases h <;> rfl
  · intro h
    cases op <;> cases h <;> rfl

theorem signOf?_eq_some {op : UnaryOp} : signOf? o = some op ↔ prefixSign op = some o := by
  constructor
  · intro h
    unfold signOf? at h
    split at h <;> cases h <;> rfl
  · intro h
    cases op <;> cases h <;> rfl

theorem eatBinaryOp?_eq_some :
    eatBinaryOp? t ts = some (op, rest) ↔
      ∃ o n, infixSign op = some (t, o) ∧ ts = ⟨.op o, n⟩ :: rest := by
  cases ts with
  | nil => simp [eatBinaryOp?]
  | cons k ts =>
      obtain ⟨kind, n⟩ := k
      cases kind with
      | op p =>
          simp only [eatBinaryOp?, Option.map_eq_some_iff, Prod.mk.injEq, operator?_eq_some]
          constructor
          · rintro ⟨found, hfound, rfl, rfl⟩
            exact ⟨p, n, hfound, rfl⟩
          · rintro ⟨o, m, ho, heq⟩
            cases heq
            exact ⟨op, ho, rfl, rfl⟩
      | _ => simp [eatBinaryOp?]

theorem eatSign?_eq_some {op : UnaryOp} :
    eatSign? ts = some (op, rest) ↔ ∃ o n, prefixSign op = some o ∧ ts = ⟨.op o, n⟩ :: rest := by
  cases ts with
  | nil => simp [eatSign?]
  | cons k ts =>
      obtain ⟨kind, n⟩ := k
      cases kind with
      | op p =>
          simp only [eatSign?, Option.map_eq_some_iff, Prod.mk.injEq, signOf?_eq_some]
          constructor
          · rintro ⟨found, hfound, rfl, rfl⟩
            exact ⟨p, n, hfound, rfl⟩
          · rintro ⟨o, m, ho, heq⟩
            cases heq
            exact ⟨op, ho, rfl, rfl⟩
      | _ => simp [eatSign?]

theorem symbolicComparison?_eq_some {op : CompareOp} :
    symbolicComparison? o = some op ↔ comparisonWords op = [.op o] := by
  constructor
  · intro h
    unfold symbolicComparison? at h
    split at h <;> cases h <;> rfl
  · intro h
    cases op <;> cases h <;> rfl

theorem eatComparison?_sound {op : CompareOp} (h : eatComparison? ts = some (op, rest)) :
    ∃ ws, ts = ws ++ rest ∧ ws.map Token.kind = comparisonWords op := by
  unfold eatComparison? at h
  split at h
  case h_2 => cases h
  case h_1 k after =>
    obtain ⟨kind, n⟩ := k
    split at h
    case h_1 o hkind =>
      obtain rfl : kind = .op o := hkind
      obtain ⟨found, hfound, heq⟩ := Option.map_eq_some_iff.mp h
      cases heq
      exact ⟨[⟨.op o, n⟩], rfl, (symbolicComparison?_eq_some.mp hfound).symm⟩
    case h_2 hkind =>
      obtain rfl : kind = .name "in" := hkind
      cases h
      exact ⟨[⟨.name "in", n⟩], rfl, rfl⟩
    case h_3 hkind =>
      obtain rfl : kind = .name "not" := hkind
      obtain ⟨after', hafter, heq⟩ := Option.map_eq_some_iff.mp h
      cases heq
      obtain ⟨m, rfl⟩ := eatName?_eq_some.mp hafter
      exact ⟨[⟨.name "not", n⟩, ⟨.name "in", m⟩], rfl, rfl⟩
    case h_4 hkind =>
      obtain rfl : kind = .name "is" := hkind
      split at h
      case h_1 after' hafter =>
        cases h
        obtain ⟨m, rfl⟩ := eatName?_eq_some.mp hafter
        exact ⟨[⟨.name "is", n⟩, ⟨.name "not", m⟩], rfl, rfl⟩
      case h_2 =>
        cases h
        exact ⟨[⟨.name "is", n⟩], rfl, rfl⟩
    case h_5 => cases h

/-- A comparison operator is read as it is spelled, unless a `not` makes another of it. -/
theorem eatComparison?_complete {op : CompareOp} {ws : List Token}
    (hws : ws.map Token.kind = comparisonWords op) (hnot : atName "not" rest = false) :
    eatComparison? (ws ++ rest) = some (op, rest) := by
  cases op with
  | notIn | isNot =>
      obtain ⟨⟨kind, n⟩, more, rfl, rfl, hmore⟩ := List.map_eq_cons_iff.mp hws
      obtain ⟨⟨kind', m⟩, rfl, rfl⟩ := List.map_eq_singleton_iff.mp hmore
      rfl
  | is =>
      obtain ⟨⟨kind, n⟩, rfl, rfl⟩ := List.map_eq_singleton_iff.mp hws
      simp [eatComparison?, eatName?_eq_none.mpr hnot]
  | _ =>
      obtain ⟨⟨kind, n⟩, rfl, rfl⟩ := List.map_eq_singleton_iff.mp hws
      rfl

/-! ## Strings -/

theorem adjacentStrings_spec (ts : List Token) (s : String) (n : Nat) :
    ∃ before, ts = before ++ (adjacentStrings ts).2 ∧
      Adjacent (⟨.str s, n⟩ :: before) (s ++ (adjacentStrings ts).1) := by
  induction ts generalizing s n with
  | nil => exact ⟨[], rfl, by simpa [adjacentStrings] using Adjacent.one⟩
  | cons k ts ih =>
      obtain ⟨kind, m⟩ := k
      cases kind with
      | str s' =>
          obtain ⟨before, heq, hread⟩ := ih s' m
          refine ⟨⟨.str s', m⟩ :: before, ?_, ?_⟩
          · simpa [adjacentStrings] using heq
          · simpa [adjacentStrings] using Adjacent.more hread
      | _ => exact ⟨[], rfl, by simpa [adjacentStrings] using Adjacent.one⟩

end IconConstraints.Parsing
