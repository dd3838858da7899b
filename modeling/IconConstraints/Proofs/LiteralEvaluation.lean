import IconConstraints.PatchSet.Reading
import IconConstraints.Proofs.Outcomes

/-!
# Literals and evaluation

Literals are read by a recursion of their own, which covers a part of what the closed
evaluator covers.  On that part both give the same values, so trying the first before the
second changes nothing.
-/

namespace IconConstraints

open Outcome

variable {switches : Switches}

theorem Value.unary_of_signedLiteral {op : UnaryOp} {v w : Value} (hop : op = .neg ∨ op = .pos)
    (h : signedLiteral op v = .ok w) : Value.unary op v = .ok w := by
  rcases hop with rfl | rfl <;> cases v <;> simp_all [signedLiteral, Value.unary, Value.toInt64?]

-- One theorem for each function of the two recursions, by the same recursion.
mutual

theorem Expr.eval_of_literal : (e : Expr) → {v : Value} →
    e.literal = .ok v → e.eval switches = .ok v
  | .int _, _, h | .float _, _, h | .str _, _, h | .bool _, _, h | .nothing, _, h => h
  | .list items, v, h => by
      obtain ⟨vs, hvs, rfl⟩ := map_eq_ok.mp h
      simp [Expr.eval, evalItems_of_literal items hvs, Except.map]
  | .tuple items, v, h => by
      obtain ⟨vs, hvs, rfl⟩ := map_eq_ok.mp h
      simp [Expr.eval, evalItems_of_literal items hvs, Except.map]
  | .set items, v, h => by
      obtain ⟨vs, hvs, rfl⟩ := map_eq_ok.mp h
      simp [Expr.eval, evalItems_of_literal items hvs, Except.map]
  | .dict items, v, h => by
      obtain ⟨pairs, hpairs, rfl⟩ := map_eq_ok.mp h
      simp [Expr.eval, evalPairs_of_literal items hpairs, Except.map]
  | .unary op operand, v, h => by
      cases op with
      | neg =>
          obtain ⟨n, hn, hv⟩ := bind_eq_ok.mp h
          have heval := Value.unary_of_signedLiteral (.inl rfl) hv
          exact bind_eq_ok.mpr ⟨n, Expr.eval_of_literal operand hn, heval⟩
      | pos =>
          obtain ⟨n, hn, hv⟩ := bind_eq_ok.mp h
          have heval := Value.unary_of_signedLiteral (.inr rfl) hv
          exact bind_eq_ok.mpr ⟨n, Expr.eval_of_literal operand hn, heval⟩
      | not => cases h
      | invert => cases h
  | .name _, _, h | .ellipsis, _, h | .binary .., _, h | .chain .., _, h | .compare .., _, h
  | .conditional .., _, h | .attribute .., _, h | .call .., _, h | .subscript .., _, h => by cases h

theorem evalItems_of_literal : (items : List Expr) → {vs : List Value} →
    literalItems items = .ok vs → evalItems switches items = .ok vs
  | [], _, h => h
  | item :: rest, vs, h => by
      obtain ⟨v, hv, h⟩ := bind_eq_ok.mp h
      obtain ⟨later, hlater, h⟩ := bind_eq_ok.mp h
      exact bind_eq_ok.mpr ⟨v, Expr.eval_of_literal item hv,
        bind_eq_ok.mpr ⟨later, evalItems_of_literal rest hlater, h⟩⟩

theorem evalPair_of_literal : (item : DictItem) → {pair : Value × Value} →
    literalPair item = .ok pair → evalPair switches item = .ok [pair]
  | .pair key value, pair, h => by
      obtain ⟨k, hk, h⟩ := bind_eq_ok.mp h
      obtain ⟨v, hv, h⟩ := bind_eq_ok.mp h
      cases h
      exact bind_eq_ok.mpr ⟨k, Expr.eval_of_literal key hk,
        bind_eq_ok.mpr ⟨v, Expr.eval_of_literal value hv, rfl⟩⟩
  | .unpack _, _, h => by cases h

theorem evalPairs_of_literal : (items : List DictItem) → {pairs : List (Value × Value)} →
    literalPairs items = .ok pairs → evalPairs switches items = .ok pairs
  | [], _, h => h
  | item :: rest, pairs, h => by
      obtain ⟨pair, hpair, h⟩ := bind_eq_ok.mp h
      obtain ⟨later, hlater, h⟩ := bind_eq_ok.mp h
      cases h
      exact bind_eq_ok.mpr ⟨[pair], evalPair_of_literal item hpair,
        bind_eq_ok.mpr ⟨later, evalPairs_of_literal rest hlater, rfl⟩⟩

end

/-- Whether an expression is tried as a literal first cannot be seen from its value or its error. -/
theorem PatchSet.evaluate_eq_eval (switches : Switches) (e : Expr) :
    evaluate switches e = e.eval switches ∧ ∀ v, e.literal = .ok v → e.eval switches = .ok v := by
  refine ⟨?_, fun v => e.eval_of_literal⟩
  unfold evaluate
  cases h : e.literal with
  | ok v => exact (e.eval_of_literal h).symm
  | error fault => rfl

/-- A set of literals with one of them twice. -/
theorem PatchSet.evaluate_repeated_literal :
    (Expr.set [.int 2, .unary .neg (.int 1), .int 2]).literal = .ok (.set [.int 2, .int (-1)]) ∧
      (Expr.set [.int 2, .unary .neg (.int 1), .int 2]).eval .standard =
        .ok (.set [.int 2, .int (-1)]) := by
  have hliteral : (Expr.set [.int 2, .unary .neg (.int 1), .int 2]).literal =
      .ok (.set [.int 2, .int (-1)]) := rfl
  exact ⟨hliteral, (PatchSet.evaluate_eq_eval .standard _).2 _ hliteral⟩

end IconConstraints
