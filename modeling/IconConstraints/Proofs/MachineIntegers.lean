import Mathlib.Tactic.LinearCombination
import IconConstraints.Evaluation
import IconConstraints.Source.StringLiteral

/-!
# Arithmetic in machine words

Numbers of a script have 64 bits with sign, and the bounds of ranges are computed in 128.
Here the same computations are made step by step, and each step that leaves its word,
divides by zero or reads outside of a list is a trap.  No trap is ever met: in every case
the steps come to what the exact computations come to, a value or a reported fault.
-/

namespace IconConstraints.Machine

/-- What stops a machine. -/
inductive Trap where
  | overflow
  | zeroDivisor
  | outOfBounds

/-! ## Words -/

/-- One more than the greatest number of 64 bits with sign. -/
def half64 : Int := 0x8000000000000000

/-- One more than the greatest number of 128 bits with sign. -/
def half128 : Int := 0x80000000000000000000000000000000

/-- A result in a word with sign. -/
def fit (half n : Int) : Except Trap Int :=
  if -half ≤ n ∧ n < half then .ok n else .error .overflow

/-- A result in a word of the given number of bits, without sign. -/
def fitUnsigned (bits n : Nat) : Except Trap Nat :=
  if n < 2 ^ bits then .ok n else .error .overflow

def quotient (half x y : Int) : Except Trap Int :=
  if y = 0 then .error .zeroDivisor else fit half (x.tdiv y)

def remainder (half x y : Int) : Except Trap Int :=
  if y = 0 then .error .zeroDivisor
  else do
    let _ ← fit half (x.tdiv y)
    return x.tmod y

/-- The low 64 bits of a number, with the sign that they have. -/
def wrapped (n : Int) : Int :=
  n.bmod (2 * half64).toNat

/-- A shift to the right is by less than the bits of the word. -/
def shiftRight (x amount : Int) : Except Trap Int :=
  if 0 ≤ amount ∧ amount < 64 then .ok (x.fdiv (2 ^ amount.toNat)) else .error .overflow

theorem fit_of_bounds {half n : Int} (hlow : -half ≤ n) (hhigh : n < half) :
    fit half n = .ok n :=
  if_pos ⟨hlow, hhigh⟩

theorem toInt_bounds (a : Int64) : -half64 ≤ a.toInt ∧ a.toInt < half64 := by
  have hlow := a.le_toInt
  have hhigh := a.toInt_lt
  unfold half64
  omega

/-! ## Operators on integers -/

/-- The quotient with a remainder that is not negative, unless there is none in 64 bits. -/
def euclideanQuotient? (x y : Int) : Option Int :=
  if y = 0 ∨ x = -half64 ∧ y = -1 then none else some (x / y)

def euclideanRemainder? (x y : Int) : Option Int :=
  if y = 0 ∨ x = -half64 ∧ y = -1 then none else some (x % y)

/-- The result of an operation that reports an overflow. -/
def checked : Option Int → Except EvalFault Value
  | some n => .ok (.int (Int64.ofInt n))
  | none => .error .integerOverflow

/-- Rounding toward minus infinity, from a division that does so for positive divisors. -/
def floorQuotient (x y : Int) : Except Trap (Option Int) :=
  match euclideanQuotient? x y, euclideanRemainder? x y with
  | some q, some r => do return some (← if y < 0 ∧ r ≠ 0 then fit half64 (q - 1) else .ok q)
  | _, _ => .ok none

def floorRemainder (x y : Int) : Except Trap (Option Int) :=
  match euclideanRemainder? x y with
  | some r => do return some (← if y < 0 ∧ r ≠ 0 then fit half64 (r + y) else .ok r)
  | none => .ok none

/-- A shift to the left whose bits come back when it is undone. -/
def shiftLeft (x y : Int) : Except Trap (Option Int) :=
  if 0 ≤ y ∧ y < 64 then do
    let shifted := wrapped (x * 2 ^ y.toNat)
    let back ← shiftRight shifted (min y 63)
    return if back = x then some shifted else none
  else .ok none

/-- Operators whose every step reports an overflow itself are left as they are. -/
def intBinary (op : BinaryOp) (a b : Int64) : Except Trap (Except EvalFault Value) :=
  let x := a.toInt
  let y := b.toInt
  match op with
  | .floorDiv =>
    if y = 0 then .ok (.error .divisionByZero) else return checked (← floorQuotient x y)
  | .mod => if y = 0 then .ok (.error .divisionByZero) else return checked (← floorRemainder x y)
  | .shl => return checked (← shiftLeft x y)
  | .shr =>
    if y < 0 then .ok (.error .negativeShift)
    else return .ok (.int (Int64.ofInt (← shiftRight x (min y 63))))
  | op => .ok (Value.intBinary op a b)

/-! ### What the steps come to -/

section Integers

variable {x y : Int}

theorem exactly_of_bounds {n : Int} (h : -half64 ≤ n ∧ n < half64) :
    Value.exactly n = .ok (.int (Int64.ofInt n)) :=
  if_pos h

theorem exactly_of_not_bounds {n : Int} (h : ¬ (-half64 ≤ n ∧ n < half64)) :
    Value.exactly n = .error .integerOverflow :=
  if_neg h

/-- The only quotient that 64 bits cannot hold is that of the least number by minus one. -/
theorem fdiv_bounds (hx : -half64 ≤ x ∧ x < half64) (hy : y ≠ 0)
    (hleast : ¬ (x = -half64 ∧ y = -1)) : -half64 ≤ x.fdiv y ∧ x.fdiv y < half64 := by
  have habs := Int.natAbs_fdiv_le_natAbs x y
  have hdivision := Int.mul_fdiv_add_fmod x y
  have hlow := Int.emod_nonneg x hy
  have hhigh := Int.emod_lt x hy
  have hfmod := Int.fmod_eq_emod (a := x) (b := y)
  unfold half64 at *
  by_cases hsmall : x.fdiv y < 0x8000000000000000
  · omega
  · have hquotient : x.fdiv y = 0x8000000000000000 := by omega
    rw [hquotient] at hdivision
    split at hfmod <;> omega

theorem fmod_bounds (hy : y ≠ 0) (hword : -half64 ≤ y ∧ y < half64) :
    -half64 ≤ x.fmod y ∧ x.fmod y < half64 := by
  have hlow := Int.emod_nonneg x hy
  have hhigh := Int.emod_lt x hy
  have hfmod := Int.fmod_eq_emod (a := x) (b := y)
  unfold half64 at *
  split at hfmod <;> omega

theorem nonneg_or_dvd_iff : 0 ≤ y ∨ y ∣ x ↔ ¬ (y < 0 ∧ x % y ≠ 0) := by
  rw [Int.dvd_iff_emod_eq_zero]
  omega

/-- Only a negative divisor with a remainder makes a difference to the rounding. -/
theorem fdiv_eq_rounded (x y : Int) :
    x.fdiv y = if y < 0 ∧ x % y ≠ 0 then x / y - 1 else x / y := by
  rw [Int.fdiv_eq_ediv, if_congr nonneg_or_dvd_iff rfl rfl, ite_not]
  split
  · rfl
  · exact Int.sub_zero _

theorem fmod_eq_rounded (x y : Int) :
    x.fmod y = if y < 0 ∧ x % y ≠ 0 then x % y + y else x % y := by
  rw [Int.fmod_eq_emod, if_congr nonneg_or_dvd_iff rfl rfl, ite_not]
  split
  · rfl
  · exact Int.add_zero _

theorem floorQuotient_eq (hx : -half64 ≤ x ∧ x < half64) (hy : y ≠ 0) :
    floorQuotient x y =
      .ok (if x = -half64 ∧ y = -1 then none else some (x.fdiv y)) := by
  unfold floorQuotient euclideanQuotient? euclideanRemainder?
  by_cases hleast : x = -half64 ∧ y = -1
  · rw [if_pos (.inr hleast), if_pos hleast]
  · have hbounds := fdiv_bounds hx hy hleast
    rw [if_neg (not_or.mpr ⟨hy, hleast⟩), if_neg (not_or.mpr ⟨hy, hleast⟩), if_neg hleast]
    rw [fdiv_eq_rounded] at hbounds ⊢
    dsimp only
    split
    case isTrue hround =>
      rw [if_pos hround] at hbounds
      rw [fit_of_bounds hbounds.1 hbounds.2]
      rfl
    case isFalse => rfl

theorem floorRemainder_eq (hy : y ≠ 0) (hword : -half64 ≤ y ∧ y < half64) :
    floorRemainder x y =
      .ok (if x = -half64 ∧ y = -1 then none else some (x.fmod y)) := by
  unfold floorRemainder euclideanRemainder?
  by_cases hleast : x = -half64 ∧ y = -1
  · rw [if_pos (.inr hleast), if_pos hleast]
  · have hbounds := fmod_bounds (x := x) hy hword
    rw [if_neg (not_or.mpr ⟨hy, hleast⟩), if_neg hleast]
    rw [fmod_eq_rounded] at hbounds ⊢
    dsimp only
    split
    case isTrue hround =>
      rw [if_pos hround] at hbounds
      rw [fit_of_bounds hbounds.1 hbounds.2]
      rfl
    case isFalse => rfl

theorem exactly_fdiv (hx : -half64 ≤ x ∧ x < half64) (hy : y ≠ 0) :
    Value.exactly (x.fdiv y) =
      checked (if x = -half64 ∧ y = -1 then none else some (x.fdiv y)) := by
  by_cases hleast : x = -half64 ∧ y = -1
  · have hover : x.fdiv y = half64 := by
      rw [hleast.1, hleast.2]
      rfl
    rw [if_pos hleast, hover]
    rfl
  · rw [if_neg hleast]
    exact exactly_of_bounds (fdiv_bounds hx hy hleast)

theorem wrapped_bounds (n : Int) : -half64 ≤ wrapped n ∧ wrapped n < half64 := by
  have hpos : 0 < (2 * half64).toNat := by decide
  have hlow := Int.le_bmod (x := n) hpos
  have hhigh := Int.bmod_lt (x := n) hpos
  have hsize : ((2 * half64).toNat : Int) = 0x10000000000000000 := rfl
  unfold wrapped half64 at *
  omega

theorem wrapped_of_bounds {n : Int} (h : -half64 ≤ n ∧ n < half64) : wrapped n = n := by
  have hsize : ((2 * half64).toNat : Int) = 0x10000000000000000 := rfl
  unfold half64 at h
  apply Int.bmod_eq_of_le <;> omega

theorem shiftRight_eq {n : Nat} (hn : n < 64) : shiftRight x n = .ok (x.fdiv (2 ^ n)) :=
  if_pos ⟨by omega, by omega⟩

/-- A shifted number that 64 bits cannot hold does not come back. -/
theorem wrapped_fdiv_eq_iff {n : Nat} (hn : n < 64) :
    (wrapped (x * 2 ^ n)).fdiv (2 ^ n) = x ↔ -half64 ≤ x * 2 ^ n ∧ x * 2 ^ n < half64 := by
  have hpow : (2 : Int) ^ n ≠ 0 := pow_ne_zero n (by decide)
  constructor
  case mpr =>
    intro hfits
    rw [wrapped_of_bounds hfits, Int.mul_fdiv_cancel x hpow]
  case mp =>
    intro hback
    obtain ⟨k, hk⟩ : ((2 * half64).toNat : Int) ∣ wrapped (x * 2 ^ n) - x * 2 ^ n :=
      Int.dvd_bmod_sub_self
    have hsplit : ((2 * half64).toNat : Int) = 2 ^ (64 - n) * 2 ^ n := by
      rw [← pow_add, Nat.sub_add_cancel hn.le]
      rfl
    have hwrapped : wrapped (x * 2 ^ n) = (x + 2 ^ (64 - n) * k) * 2 ^ n := by
      rw [hsplit] at hk
      linear_combination hk
    rw [hwrapped, Int.mul_fdiv_cancel _ hpow] at hback
    have hk0 : k = 0 := by
      have hzero : (2 : Int) ^ (64 - n) * k = 0 := by linear_combination hback
      exact (mul_eq_zero.mp hzero).resolve_left (pow_ne_zero _ (by decide))
    have hsame : wrapped (x * 2 ^ n) = x * 2 ^ n := by
      rw [hwrapped, hk0, mul_zero, add_zero]
    exact hsame ▸ wrapped_bounds (x * 2 ^ n)

theorem shiftLeft_eq {n : Nat} (hn : n < 64) :
    shiftLeft x n = .ok (if -half64 ≤ x * 2 ^ n ∧ x * 2 ^ n < half64 then
      some (x * 2 ^ n) else none) := by
  have hmin : min (n : Int) 63 = n := by omega
  unfold shiftLeft
  rw [if_pos ⟨by omega, by omega⟩, hmin, Int.toNat_natCast]
  change (do
    let back ← shiftRight (wrapped (x * 2 ^ n)) n
    return if back = x then some (wrapped (x * 2 ^ n)) else none) = _
  rw [shiftRight_eq hn]
  by_cases hfits : -half64 ≤ x * 2 ^ n ∧ x * 2 ^ n < half64
  · simp [hfits, wrapped_of_bounds hfits]
  · have hback := mt (wrapped_fdiv_eq_iff hn).mp hfits
    simp [hback, hfits]

end Integers

/-- No operator on integers meets a trap. -/
theorem intBinary_eq (op : BinaryOp) (a b : Int64) :
    intBinary op a b = .ok (Value.intBinary op a b) := by
  have ha := toInt_bounds a
  have hb := toInt_bounds b
  cases op with
  | floorDiv =>
      unfold intBinary Value.intBinary
      dsimp only
      split
      case isTrue => rfl
      case isFalse hzero =>
        rw [floorQuotient_eq ha hzero, exactly_fdiv ha hzero]
        rfl
  | mod =>
      unfold intBinary Value.intBinary
      dsimp only
      split
      case isTrue => rfl
      case isFalse hzero =>
        -- The exact computation looks at the quotient first, which may not fit.
        rw [floorRemainder_eq hzero hb, exactly_fdiv ha hzero,
          exactly_of_bounds (fmod_bounds hzero hb)]
        split <;> rfl
  | shl =>
      unfold intBinary Value.intBinary
      dsimp only
      split
      case isTrue hamount =>
        obtain ⟨n, hn⟩ : ∃ n : Nat, b.toInt = n := ⟨b.toInt.toNat, by omega⟩
        rw [hn, shiftLeft_eq (by omega), Int.toNat_natCast]
        change _ = Except.ok (Value.exactly (a.toInt * 2 ^ n))
        by_cases hfits : -half64 ≤ a.toInt * 2 ^ n ∧ a.toInt * 2 ^ n < half64
        · rw [if_pos hfits, exactly_of_bounds hfits]
          rfl
        · rw [if_neg hfits, exactly_of_not_bounds hfits]
          rfl
      case isFalse hamount =>
        unfold shiftLeft
        rw [if_neg hamount]
        rfl
  | shr =>
      unfold intBinary Value.intBinary
      dsimp only
      split
      case isTrue => rfl
      case isFalse hamount =>
        obtain ⟨n, hn⟩ : ∃ n : Nat, min b.toInt 63 = n := ⟨(min b.toInt 63).toNat, by omega⟩
        have hpow : (2 : Int) ^ n ≠ -1 := by
          have hpos : (0 : Int) < 2 ^ n := Int.pow_pos (by decide)
          omega
        have hbounds : -half64 ≤ a.toInt.fdiv (2 ^ n) ∧ a.toInt.fdiv (2 ^ n) < half64 :=
          fdiv_bounds ha (pow_ne_zero n (by decide)) fun h => hpow h.2
        rw [hn, shiftRight_eq (by omega), Int.toNat_natCast]
        change _ = Except.ok (Value.exactly (a.toInt.fdiv (2 ^ n)))
        rw [exactly_of_bounds hbounds]
        rfl
  | _ => rfl

end IconConstraints.Machine
