import Mathlib.Data.Int.Bitwise
import Mathlib.Data.Rat.Floor
import IconConstraints.Proofs.MachineIntegers

/-!
# Integers of 64 bits and integers without bound

Every operator on integers has an exact result, which is defined here without regard to
words: quotients are those of rational numbers and are rounded down, remainders are what
the rounded quotient leaves, and bits are those of a two's complement that goes on without
end.  An integer that a script computes is always the exact one, and what has no exact
result, or none in 64 bits, is reported.  The converse has three exceptions, where an
overflow is reported although nothing overflows.
-/

namespace IconConstraints

variable {op : BinaryOp} {a b : Int64} {x y n : Int}

/-- What an operation on integers without bound results in. -/
inductive ExactResult where
  | whole (n : Int)
  /-- A value that is not an integer. -/
  | other
  | zeroDivisor
  | negativeShift
  deriving DecidableEq

/-- Division, and a power with a negative exponent, result in floats. -/
def exactBinary (op : BinaryOp) (x y : Int) : ExactResult :=
  match op with
  | .add => .whole (x + y)
  | .sub => .whole (x - y)
  | .mul => .whole (x * y)
  | .div => if y = 0 then .zeroDivisor else .other
  | .floorDiv => if y = 0 then .zeroDivisor else .whole ⌊(x : ℚ) / y⌋
  | .mod => if y = 0 then .zeroDivisor else .whole (x - y * ⌊(x : ℚ) / y⌋)
  | .pow => if y < 0 then .other else .whole (x ^ y.toNat)
  | .bitOr => .whole (Int.lor x y)
  | .bitXor => .whole (Int.xor x y)
  | .bitAnd => .whole (Int.land x y)
  | .shl => if y < 0 then .negativeShift else .whole (x * 2 ^ y.toNat)
  | .shr => if y < 0 then .negativeShift else .whole ⌊(x : ℚ) / 2 ^ y.toNat⌋

def exactUnary (op : UnaryOp) (x : Int) : ExactResult :=
  match op with
  | .neg => .whole (-x)
  | .pos => .whole x
  | .not => .other
  | .invert => .whole (Int.lnot x)

def Fits64 (n : Int) : Prop :=
  -Machine.half64 ≤ n ∧ n < Machine.half64

instance (n : Int) : Decidable (Fits64 n) :=
  inferInstanceAs (Decidable (_ ∧ _))

theorem Fits64.toInt (a : Int64) : Fits64 a.toInt :=
  Machine.toInt_bounds a

theorem Fits64.toInt_ofInt (h : Fits64 n) : (Int64.ofInt n).toInt = n :=
  Int64.toInt_ofInt_of_le h.1 h.2

theorem exactly_toInt (a : Int64) : Value.exactly a.toInt = .ok (.int a) := by
  rw [Machine.exactly_of_bounds (Fits64.toInt a), Int64.ofInt_toInt]

/-! ## Rounding down -/

theorem floor_div_eq_fdiv (x y : Int) : ⌊(x : ℚ) / y⌋ = x.fdiv y := by
  have hnat : ∀ (x : Int) (d : Nat), ⌊(x : ℚ) / d⌋ = x.fdiv d := fun x d => by
    rw [Rat.floor_intCast_div_natCast, Int.fdiv_eq_ediv_of_nonneg x (Int.natCast_nonneg d)]
  obtain ⟨d, rfl | rfl⟩ := Int.eq_nat_or_neg y
  · exact hnat x d
  · have hneg := hnat (-x) d
    rw [← Int.neg_fdiv_neg, neg_neg, ← hneg]
    push_cast
    rw [div_neg, neg_div]

theorem floor_div_two_pow (x : Int) (n : Nat) : ⌊(x : ℚ) / 2 ^ n⌋ = x.fdiv (2 ^ n) := by
  rw [← floor_div_eq_fdiv]
  push_cast
  rfl

/-- Nothing but the sign is left of a word that is shifted by all its bits. -/
theorem fdiv_two_pow_of_ge (hx : Fits64 x) {n : Nat} (hn : 63 ≤ n) :
    x.fdiv (2 ^ n) = if x < 0 then -1 else 0 := by
  have hpow : (2 : Int) ^ 63 ≤ 2 ^ n := pow_le_pow_right₀ (by decide) hn
  obtain ⟨hlow, hhigh⟩ := hx
  unfold Machine.half64 at hlow hhigh
  rw [Int.fdiv_eq_ediv_of_nonneg x (by positivity), Int.ediv_eq_iff_of_pos (by positivity)]
  split <;> omega

theorem fdiv_two_pow_min (hx : Fits64 x) (y : Int) :
    x.fdiv (2 ^ (min y 63).toNat) = x.fdiv (2 ^ y.toNat) := by
  rcases le_total y 63 with hsmall | hlarge
  · rw [min_eq_left hsmall]
  · rw [min_eq_right hlarge, fdiv_two_pow_of_ge hx (by decide), fdiv_two_pow_of_ge hx (by omega)]

/-! ## Powers -/

/-- Powers of numbers beyond one in size leave the word with the 64th at the latest. -/
theorem not_fits64_pow (hx : 2 ≤ x.natAbs) {n : Nat} (hn : 64 ≤ n) : ¬ Fits64 (x ^ n) := by
  have hsize : 2 ^ 64 ≤ (x ^ n).natAbs := by
    rw [Int.natAbs_pow]
    calc 2 ^ 64 ≤ 2 ^ n := Nat.pow_le_pow_right (by decide) hn
      _ ≤ x.natAbs ^ n := Nat.pow_le_pow_left hx n
  unfold Fits64 Machine.half64
  omega

theorem small_pow (hx : x.natAbs ≤ 1) (n : Nat) :
    x ^ n = if n = 0 then 1 else if n % 2 = 0 then x * x else x := by
  have hcases : x = -1 ∨ x = 0 ∨ x = 1 := by omega
  rcases hcases with rfl | rfl | rfl
  · rw [neg_one_pow_eq_ite]
    simp only [Nat.even_iff]
    split
    case isTrue => split <;> rfl
    case isFalse hodd =>
      rw [if_neg fun h => hodd (by rw [h])]
  · split
    case isTrue h => rw [h, pow_zero]
    case isFalse h => rw [zero_pow h, mul_zero, ite_self]
  · simp

theorem power_eq (x : Int) (n : Nat) : Value.power x n = Value.exactly (x ^ n) := by
  unfold Value.power
  split
  case isTrue hsmall => rw [small_pow hsmall]
  case isFalse hlarge =>
    split
    case isTrue => rfl
    case isFalse hn =>
      exact (Machine.exactly_of_not_bounds
        (not_fits64_pow (Nat.lt_of_not_le hlarge) (Nat.le_of_not_lt hn))).symm

/-! ## Bits -/

theorem eq_of_testBit_eq (h : ∀ i, x.testBit i = y.testBit i) : x = y := by
  -- Far enough up, a bit tells the sign.
  have hfar : ∀ m n : Nat, m.testBit (m + n) = false := fun m n =>
    Nat.testBit_lt_two_pow (lt_of_le_of_lt (Nat.le_add_right m n) Nat.lt_two_pow_self)
  cases x with
  | ofNat m =>
      cases y with
      | ofNat n => exact congrArg Int.ofNat (Nat.eq_of_testBit_eq h)
      | negSucc n =>
          have hbit : m.testBit (m + n) = !n.testBit (m + n) := h (m + n)
          rw [hfar, Nat.add_comm, hfar] at hbit
          cases hbit
  | negSucc m =>
      cases y with
      | ofNat n =>
          have hbit : (!m.testBit (m + n)) = n.testBit (m + n) := h (m + n)
          rw [hfar, Nat.add_comm, hfar] at hbit
          cases hbit
      | negSucc n =>
          exact congrArg Int.negSucc (Nat.eq_of_testBit_eq fun i => Bool.not_inj (h i))

/-- The bits of a word, with those above it that repeat its sign. -/
theorem testBit_toInt (a : Int64) (i : Nat) :
    a.toInt.testBit i = if i < 64 then a.toBitVec.getLsbD i else a.toBitVec.msb := by
  have hlt := a.toBitVec.isLt
  rw [← Int64.toInt_toBitVec, BitVec.toInt_eq_msb_cond]
  cases hsign : a.toBitVec.msb with
  | false =>
      have hbit : ((a.toBitVec.toNat : Int)).testBit i = a.toBitVec.getLsbD i :=
        BitVec.testBit_toNat a.toBitVec
      rw [if_neg Bool.false_ne_true, hbit]
      split
      case isTrue => rfl
      case isFalse hi => exact BitVec.getLsbD_of_ge _ _ (Nat.le_of_not_lt hi)
  | true =>
      have hneg : ((a.toBitVec.toNat : Int) - (2 ^ 64 : Nat)) =
          Int.negSucc (2 ^ 64 - (a.toBitVec.toNat + 1)) := by omega
      have hbit : (Int.negSucc (2 ^ 64 - (a.toBitVec.toNat + 1))).testBit i =
          !(2 ^ 64 - (a.toBitVec.toNat + 1)).testBit i := rfl
      rw [if_pos rfl, hneg, hbit, Nat.testBit_two_pow_sub_succ hlt, BitVec.testBit_toNat]
      split
      case isTrue hi => simp [hi]
      case isFalse hi => simp [hi]

theorem toInt_or (a b : Int64) : (a ||| b).toInt = Int.lor a.toInt b.toInt := by
  refine eq_of_testBit_eq fun i => ?_
  rw [Int.testBit_lor, testBit_toInt, testBit_toInt, testBit_toInt]
  split <;> simp

theorem toInt_xor (a b : Int64) : (a ^^^ b).toInt = Int.xor a.toInt b.toInt := by
  refine eq_of_testBit_eq fun i => ?_
  rw [Int.testBit_lxor, testBit_toInt, testBit_toInt, testBit_toInt]
  split <;> simp

theorem toInt_and (a b : Int64) : (a &&& b).toInt = Int.land a.toInt b.toInt := by
  refine eq_of_testBit_eq fun i => ?_
  rw [Int.testBit_land, testBit_toInt, testBit_toInt, testBit_toInt]
  split <;> simp

theorem toInt_not (a : Int64) : (~~~a).toInt = Int.lnot a.toInt := by
  refine eq_of_testBit_eq fun i => ?_
  rw [Int.testBit_lnot, testBit_toInt, testBit_toInt]
  split <;> simp [*]

/-! ## Answers -/

/-- Operands whose result is refused, whether it fits or not. -/
def Refused (op : BinaryOp) (x y : Int) : Prop :=
  match op with
  | .mod => x = -Machine.half64 ∧ y = -1
  | .pow => Value.greatestExponent < y
  | .shl => 64 ≤ y
  | _ => False

/-- What is answered where the exact result is known. -/
inductive Answers (refused : Prop) : ExactResult → Except EvalFault Value → Prop where
  | whole (n : Int) (h : ¬ refused) : Answers refused (.whole n) (Value.exactly n)
  | refused (n : Int) (h : refused) : Answers refused (.whole n) (.error .integerOverflow)
  | other (x : Float) : Answers refused .other (.ok (.float x))
  | zeroDivisor : Answers refused .zeroDivisor (.error .divisionByZero)
  | negativeShift (fault : EvalFault) : Answers refused .negativeShift (.error fault)

theorem Answers.word {refused : Prop} (r : Int64) (h : ¬ refused) :
    Answers refused (.whole r.toInt) (.ok (.int r)) :=
  exactly_toInt r ▸ .whole r.toInt h

theorem intBinary_answers (op : BinaryOp) (a b : Int64) :
    Answers (Refused op a.toInt b.toInt) (exactBinary op a.toInt b.toInt)
      (Value.intBinary op a b) := by
  have ha := Fits64.toInt a
  cases op with
  | add => exact .whole _ id
  | sub => exact .whole _ id
  | mul => exact .whole _ id
  | div =>
      by_cases hdivisor : b.toInt = 0
      · simp only [exactBinary, Value.intBinary, if_pos hdivisor]
        exact .zeroDivisor
      · simp only [exactBinary, Value.intBinary, if_neg hdivisor]
        exact .other _
  | floorDiv =>
      by_cases hdivisor : b.toInt = 0
      · simp only [exactBinary, Value.intBinary, if_pos hdivisor]
        exact .zeroDivisor
      · simp only [exactBinary, Value.intBinary, if_neg hdivisor, floor_div_eq_fdiv]
        exact .whole _ id
  | mod =>
      by_cases hdivisor : b.toInt = 0
      · simp only [exactBinary, Value.intBinary, if_pos hdivisor]
        exact .zeroDivisor
      · -- The quotient, which is looked at first, fails to fit only where the result is refused.
        simp only [exactBinary, Value.intBinary, if_neg hdivisor, floor_div_eq_fdiv,
          ← Int.fmod_def, Machine.exactly_fdiv ha hdivisor]
        split
        case isTrue hleast => exact .refused _ hleast
        case isFalse hleast => exact .whole _ hleast
  | pow =>
      by_cases hneg : b.toInt < 0
      · simp only [exactBinary, Value.intBinary, if_pos hneg]
        exact .other _
      · simp only [exactBinary, Value.intBinary, if_neg hneg, power_eq]
        split
        case isTrue hlarge => exact .refused _ hlarge
        case isFalse hlarge => exact .whole _ hlarge
  | bitOr =>
      simp only [exactBinary, Value.intBinary, ← toInt_or]
      exact .word _ id
  | bitXor =>
      simp only [exactBinary, Value.intBinary, ← toInt_xor]
      exact .word _ id
  | bitAnd =>
      simp only [exactBinary, Value.intBinary, ← toInt_and]
      exact .word _ id
  | shl =>
      by_cases hneg : b.toInt < 0
      · have hamount : ¬ (0 ≤ b.toInt ∧ b.toInt < 64) := by omega
        simp only [exactBinary, Value.intBinary, if_pos hneg, if_neg hamount]
        exact .negativeShift _
      · simp only [exactBinary, Value.intBinary, if_neg hneg]
        split
        case isTrue hamount => exact .whole _ (Int.not_le.mpr hamount.2)
        case isFalse hamount => exact .refused _ (by unfold Refused; omega)
  | shr =>
      by_cases hneg : b.toInt < 0
      · simp only [exactBinary, Value.intBinary, if_pos hneg]
        exact .negativeShift _
      · simp only [exactBinary, Value.intBinary, if_neg hneg, floor_div_two_pow,
          ← fdiv_two_pow_min ha b.toInt]
        exact .whole _ id

theorem unary_answers (op : UnaryOp) (n : Int64) :
    op = .not ∨ Answers False (exactUnary op n.toInt) (Value.unary op (.int n)) := by
  cases op with
  | neg => exact .inr (.whole _ id)
  | pos => exact .inr (.word n id)
  | not => exact .inl rfl
  | invert =>
      have hword : Answers False (.whole (~~~n).toInt) (.ok (.int (~~~n))) := .word _ id
      rw [toInt_not] at hword
      exact .inr hword

/-! ## No wrong numbers -/

/-- What is computed may be taken for the exact result: no number but the right one, and an
error wherever there is none or none in 64 bits. -/
structure Faithful (exact : ExactResult) (computed : Except EvalFault Value) : Prop where
  right : ∀ r, computed = .ok (.int r) → exact = .whole r.toInt
  zeroDivisor : exact = .zeroDivisor → computed = .error .divisionByZero
  negativeShift : exact = .negativeShift → ∃ fault, computed = .error fault
  tooLarge : ∀ n, exact = .whole n → ¬ Fits64 n → computed = .error .integerOverflow

theorem Answers.faithful {refused : Prop} {exact : ExactResult} {computed : Except EvalFault Value}
    (h : Answers refused exact computed) : Faithful exact computed := by
  cases h with
  | whole n =>
      by_cases hfits : Fits64 n
      · rw [Machine.exactly_of_bounds hfits]
        refine ⟨?_, nofun, nofun, ?_⟩
        · rintro r ⟨⟩
          rw [hfits.toInt_ofInt]
        · rintro _ ⟨⟩ hlarge
          exact absurd hfits hlarge
      · rw [Machine.exactly_of_not_bounds hfits]
        exact ⟨nofun, nofun, nofun, fun _ _ _ => rfl⟩
  | refused n => exact ⟨nofun, nofun, nofun, fun _ _ _ => rfl⟩
  | other x => exact ⟨nofun, nofun, nofun, nofun⟩
  | zeroDivisor => exact ⟨nofun, fun _ => rfl, nofun, nofun⟩
  | negativeShift fault => exact ⟨nofun, nofun, fun _ => ⟨fault, rfl⟩, nofun⟩

theorem unary_faithful (op : UnaryOp) (n : Int64) :
    Faithful (exactUnary op n.toInt) (Value.unary op (.int n)) := by
  rcases unary_answers op n with rfl | h
  · exact ⟨nofun, nofun, nofun, nofun⟩
  · exact h.faithful

/-- Integers are computed without a wrong result and without a step that leaves its word. -/
theorem integers_never_wrong :
    (∀ op a b, Machine.intBinary op a b = .ok (Value.intBinary op a b) ∧
      Faithful (exactBinary op a.toInt b.toInt) (Value.intBinary op a b)) ∧
    ∀ op n, Faithful (exactUnary op n.toInt) (Value.unary op (.int n)) :=
  ⟨fun op a b => ⟨Machine.intBinary_eq op a b, (intBinary_answers op a b).faithful⟩,
    unary_faithful⟩

/-! ## Missing numbers -/

theorem Answers.complete {refused : Prop} {exact : ExactResult} {computed : Except EvalFault Value}
    (h : Answers refused exact computed) (hexact : exact = .whole n) (hn : Fits64 n) :
    (computed = .ok (.int (Int64.ofInt n)) ↔ ¬ refused) ∧
      (refused → computed = .error .integerOverflow) := by
  cases h with
  | whole m hrefused =>
      cases hexact
      rw [Machine.exactly_of_bounds hn]
      exact ⟨iff_of_true rfl hrefused, fun h => absurd h hrefused⟩
  | refused m hrefused =>
      cases hexact
      exact ⟨iff_of_false nofun (not_not_intro hrefused), fun _ => rfl⟩
  | _ => cases hexact

/-- A result that fits is found unless it is refused for its operands. -/
theorem intBinary_complete (h : exactBinary op a.toInt b.toInt = .whole n) (hn : Fits64 n) :
    (Value.intBinary op a b = .ok (.int (Int64.ofInt n)) ↔ ¬ Refused op a.toInt b.toInt) ∧
      (Refused op a.toInt b.toInt → Value.intBinary op a b = .error .integerOverflow) :=
  (intBinary_answers op a b).complete h hn

theorem intBinary_complete_near_least :
    exactBinary .floorDiv (-0x7fffffffffffffff) (-1) = .whole 0x7fffffffffffffff ∧
    Fits64 0x7fffffffffffffff ∧
    Value.intBinary .floorDiv (-0x7fffffffffffffff) (-1) = .ok (.int 0x7fffffffffffffff) := by
  have hexact : exactBinary .floorDiv (-0x7fffffffffffffff : Int64).toInt (-1 : Int64).toInt =
      .whole 0x7fffffffffffffff := by decide +kernel
  have hfits : Fits64 0x7fffffffffffffff := by decide
  exact ⟨hexact, hfits, (intBinary_complete hexact hfits).1.mpr id⟩

/-- The least number leaves nothing when it is divided by minus one, no bit of zero is lost
when it is shifted, and one remains one, yet each of them is refused. -/
theorem small_results_refused :
    (exactBinary .mod (Int64.minValue).toInt (-1 : Int64).toInt = .whole 0 ∧
      Value.intBinary .mod Int64.minValue (-1) = .error .integerOverflow) ∧
    (exactBinary .shl (0 : Int64).toInt (64 : Int64).toInt = .whole 0 ∧
      Value.intBinary .shl 0 64 = .error .integerOverflow) ∧
    (exactBinary .pow (1 : Int64).toInt (0x100000000 : Int64).toInt = .whole 1 ∧
      Value.intBinary .pow 1 0x100000000 = .error .integerOverflow) ∧
    Fits64 0 ∧ Fits64 1 := by
  refine ⟨⟨by decide +kernel, by rfl⟩, ⟨by rfl, by rfl⟩,
    ⟨congrArg ExactResult.whole (one_pow _), by rfl⟩, by decide, by decide⟩

end IconConstraints
