import Mathlib.Algebra.Order.Field.Rat
import Mathlib.Algebra.Order.Ring.Cast
import Mathlib.Algebra.Order.Ring.Rat
import Mathlib.Order.WithBot
import Mathlib.Tactic.NormNum
import IconConstraints.Evaluation
import IconConstraints.Proofs.IntegerFloats
import IconConstraints.Proofs.NumericEquality

/-!
# Comparison of numbers

Bools, integers and floats stand for rational numbers or infinities.  They are compared as
floats, so that an integer is rounded to 53 bits first.  Rounding keeps the order: a number
never comes out as less than a smaller one, but numbers that round to one float come out as
equal.  These are the only comparisons that go wrong, and none does between integers of at
most 53 bits, bools and floats.
-/

namespace IconConstraints

open Float.Model (Format UnpackedFloat)
open Float.Model.UnpackedFloat

/-! ## Numbers with infinities -/

/-- A rational number or one of the infinities. -/
abbrev Extended :=
  WithBot (WithTop ℚ)

namespace Extended

variable {p q p' q' : Extended}

def ofRat (r : ℚ) : Extended :=
  ((r : WithTop ℚ) : WithBot (WithTop ℚ))

@[simp] theorem ofRat_inj {r s : ℚ} : ofRat r = ofRat s ↔ r = s := by
  unfold ofRat
  rw [WithBot.coe_inj, WithTop.coe_inj]

@[simp] theorem ofRat_lt_ofRat {r s : ℚ} : ofRat r < ofRat s ↔ r < s := by
  unfold ofRat
  rw [WithBot.coe_lt_coe, WithTop.coe_lt_coe]

/-- A whole number of units. -/
def ofUnits (u : Int) : Extended :=
  ofRat (u / unitsOfOne)

@[simp] theorem ofUnits_lt_ofUnits {u v : Int} : ofUnits u < ofUnits v ↔ u < v := by
  have hpos : (0 : ℚ) < unitsOfOne := Nat.cast_pos.mpr unitsOfOne_pos
  unfold ofUnits
  rw [ofRat_lt_ofRat, div_lt_div_iff_of_pos_right hpos, Int.cast_lt]

theorem bot_lt_ofUnits (u : Int) : ⊥ < ofUnits u :=
  WithBot.bot_lt_coe _

theorem ofUnits_lt_top (u : Int) : ofUnits u < ⊤ :=
  WithBot.coe_lt_coe.mpr (WithTop.coe_lt_top _)

@[simp] theorem ofUnits_le_ofUnits {u v : Int} : ofUnits u ≤ ofUnits v ↔ u ≤ v := by
  rw [← not_lt, ofUnits_lt_ofUnits, not_lt]

theorem compare_ofUnits (u v : Int) : compare (ofUnits u) (ofUnits v) = compare u v := by
  rcases lt_trichotomy u v with hlt | rfl | hgt
  · rw [compare_lt_iff_lt.mpr hlt, compare_lt_iff_lt.mpr (ofUnits_lt_ofUnits.mpr hlt)]
  · rw [compare_eq_iff_eq.mpr rfl, compare_eq_iff_eq.mpr rfl]
  · rw [compare_gt_iff_gt.mpr hgt, compare_gt_iff_gt.mpr (ofUnits_lt_ofUnits.mpr hgt)]

theorem ofUnits_ones (n : Int) : ofUnits (n * unitsOfOne) = ofRat n := by
  have hne : (unitsOfOne : ℚ) ≠ 0 := Nat.cast_ne_zero.mpr unitsOfOne_pos.ne'
  unfold ofUnits
  push_cast
  rw [mul_div_cancel_right₀ _ hne]

/-- The second number is the first one rounded to 53 bits. -/
inductive Rounds : Extended → Extended → Prop
  | bot : Rounds ⊥ ⊥
  | top : Rounds ⊤ ⊤
  | units (u : Int) : Rounds (ofUnits u) (ofUnits (nearestInt u))

theorem Rounds.mono (hp : Rounds p p') (hq : Rounds q q') (h : p ≤ q) : p' ≤ q' := by
  cases hp with
  | bot => exact bot_le
  | top =>
      obtain rfl := top_le_iff.mp h
      cases hq with
      | top => exact le_rfl
  | units u =>
      cases hq with
      | bot => exact absurd h (not_le.mpr (bot_lt_ofUnits _))
      | top => exact le_top
      | units v => exact ofUnits_le_ofUnits.mpr (nearestInt_mono (ofUnits_le_ofUnits.mp h))

/-- Rounding makes numbers equal at most, and never turns them around. -/
theorem Rounds.compare_eq_iff (hp : Rounds p p') (hq : Rounds q q') :
    compare p q = compare p' q' ↔ (p' = q' → p = q) := by
  rcases lt_trichotomy p q with hlt | rfl | hgt
  · rw [compare_lt_iff_lt.mpr hlt, eq_comm, compare_lt_iff_lt]
    refine ⟨fun h heq => absurd heq h.ne, fun h => ?_⟩
    exact lt_of_le_of_ne (hp.mono hq hlt.le) fun heq => hlt.ne (h heq)
  · have heq : p' = q' := le_antisymm (hp.mono hq le_rfl) (hq.mono hp le_rfl)
    rw [compare_eq_iff_eq.mpr rfl, compare_eq_iff_eq.mpr heq]
    simp
  · rw [compare_gt_iff_gt.mpr hgt, eq_comm, compare_gt_iff_gt]
    refine ⟨fun h heq => absurd heq h.ne', fun h => ?_⟩
    exact lt_of_le_of_ne (hq.mono hp hgt.le) fun heq => hgt.ne' (h heq.symm)

end Extended

/-! ## Floats -/

/-- The number that a float stands for; no number stands for none. -/
def floatNumber? (x : Float) : Option Extended :=
  match x.toModel.unpack with
  | .notANumber => none
  | .infinity .negative => some ⊥
  | .infinity .positive => some ⊤
  | _ => some (.ofUnits (units x))

/-- A float, taken apart, and the number that it stands for. -/
inductive StandsFor : UnpackedFloat → Extended → Prop
  | bot : StandsFor (.infinity .negative) ⊥
  | top : StandsFor (.infinity .positive) ⊤
  | units {u : UnpackedFloat} (h : Proper u) : StandsFor u (.ofUnits (unpackedUnits u))

theorem floatNumber?_of_isFinite {x : Float} (h : x.isFinite = true) :
    floatNumber? x = some (.ofUnits (units x)) := by
  rw [proper_iff] at h
  unfold floatNumber?
  cases hx : x.toModel.unpack with
  | notANumber => rw [hx] at h; exact h.elim
  | infinity => rw [hx] at h; exact h.elim
  | zero => rfl
  | finite => rfl

theorem standsFor_of_floatNumber? {x : Float} {p : Extended} (h : floatNumber? x = some p) :
    StandsFor x.toModel.unpack p := by
  by_cases hfinite : x.isFinite = true
  · rw [floatNumber?_of_isFinite hfinite] at h
    cases h
    exact .units ((proper_iff x).mp hfinite)
  · rw [proper_iff] at hfinite
    unfold floatNumber? at h
    cases hx : x.toModel.unpack with
    | notANumber => rw [hx] at h; cases h
    | infinity s =>
        rw [hx] at h
        cases s with
        | negative => cases h; exact .bot
        | positive => cases h; exact .top
    | zero => rw [hx] at hfinite; exact absurd trivial hfinite
    | finite => exact absurd (hx ▸ canonical_of_unpack hx) hfinite

theorem compare_of_standsFor {u v : UnpackedFloat} {p q : Extended} (hu : StandsFor u p)
    (hv : StandsFor v q) : u.compare v = some (compare p q) := by
  cases hu with
  | bot =>
      cases hv with
      | bot => rw [compare_eq_iff_eq.mpr rfl]; rfl
      | top => rfl
      | units h =>
          rw [compare_lt_iff_lt.mpr (Extended.bot_lt_ofUnits _)]
          cases v <;> first | rfl | exact h.elim
  | top =>
      cases hv with
      | bot => rfl
      | top => rw [compare_eq_iff_eq.mpr rfl]; rfl
      | units h =>
          rw [compare_gt_iff_gt.mpr (Extended.ofUnits_lt_top _)]
          cases v <;> first | rfl | exact h.elim
  | units h =>
      cases hv with
      | bot =>
          rw [compare_gt_iff_gt.mpr (Extended.bot_lt_ofUnits _)]
          cases u <;> first | rfl | exact h.elim
      | top =>
          rw [compare_lt_iff_lt.mpr (Extended.ofUnits_lt_top _)]
          cases u <;> first | rfl | exact h.elim
      | units h' => rw [compare_unpacked h h', Extended.compare_ofUnits]

section Floats

variable {x y : Float} {p q : Extended}

theorem beq_eq_compare (hx : floatNumber? x = some p) (hy : floatNumber? y = some q) :
    (x == y) = (compare p q == .eq) := by
  change (x.toModel.unpack.compare y.toModel.unpack == some .eq) = _
  rw [compare_of_standsFor (standsFor_of_floatNumber? hx) (standsFor_of_floatNumber? hy)]
  rfl

theorem lt_iff_exact (hx : floatNumber? x = some p) (hy : floatNumber? y = some q) :
    x < y ↔ p < q := by
  rw [lt_iff_compare,
    compare_of_standsFor (standsFor_of_floatNumber? hx) (standsFor_of_floatNumber? hy),
    beq_iff_eq, Option.some_inj, compare_lt_iff_lt]

theorem compareFloats_eq (hx : floatNumber? x = some p) (hy : floatNumber? y = some q) :
    Value.compareFloats x y = .ok (compare p q) := by
  unfold Value.compareFloats
  rw [beq_eq_compare hx hy]
  simp only [lt_iff_exact hx hy, lt_iff_exact hy hx]
  rcases lt_trichotomy p q with hlt | rfl | hgt
  · rw [if_pos hlt, compare_lt_iff_lt.mpr hlt]
  · rw [if_neg (lt_irrefl p), compare_eq_iff_eq.mpr rfl]
    rfl
  · rw [if_neg hgt.not_gt, compare_gt_iff_gt.mpr hgt, if_pos hgt]
    rfl

theorem unpack_of_floatNumber?_eq_none (h : floatNumber? x = none) :
    x.toModel.unpack = .notANumber := by
  unfold floatNumber? at h
  cases hx : x.toModel.unpack with
  | notANumber => rfl
  | infinity s => rw [hx] at h; cases s <;> cases h
  | zero => rw [hx] at h; cases h
  | finite => rw [hx] at h; cases h

theorem compare_notANumber (u : UnpackedFloat) :
    u.compare .notANumber = none ∧ UnpackedFloat.compare .notANumber u = none := by
  cases u <;> exact ⟨rfl, rfl⟩

theorem beq_of_nan (h : floatNumber? x = none ∨ floatNumber? y = none) : (x == y) = false := by
  change (x.toModel.unpack.compare y.toModel.unpack == some .eq) = false
  obtain h | h := h
  · rw [unpack_of_floatNumber?_eq_none h, (compare_notANumber _).2]
    rfl
  · rw [unpack_of_floatNumber?_eq_none h, (compare_notANumber _).1]
    rfl

theorem beq_iff_floatNumber? :
    (x == y) = true ↔ ∃ p, floatNumber? x = some p ∧ floatNumber? y = some p := by
  cases hx : floatNumber? x with
  | none => simp [beq_of_nan (.inl hx)]
  | some p =>
      cases hy : floatNumber? y with
      | none => simp [beq_of_nan (.inr hy)]
      | some q =>
          rw [beq_eq_compare hx hy, beq_iff_eq, compare_eq_iff_eq]
          simp [eq_comm]

theorem beq_self_iff_not_nan : (x == x) = true ↔ ¬ x.isNaN = true := by
  rw [beq_iff_floatNumber?, Bool.not_eq_true, not_isNaN_iff]
  constructor
  · rintro ⟨p, hp, -⟩ hnan
    simp [floatNumber?, hnan] at hp
  · intro hnumber
    cases hx : floatNumber? x with
    | none => exact absurd (unpack_of_floatNumber?_eq_none hx) hnumber
    | some p => exact ⟨p, rfl, rfl⟩

theorem nearestInt_unpackedUnits {u : UnpackedFloat} (h : Proper u) :
    nearestInt (unpackedUnits u) = unpackedUnits u := by
  cases h using Proper.cases with
  | zero => exact nearestInt_of_natAbs_le (n := 0) (by decide)
  | finite s m e hm h =>
      have hnearest : nearestInt (unitsOf m e) = unitsOf m e := by
        rw [nearestInt_ofNat, unitsOf, nearest_mul, nearest_of_lt h.fits]
      cases s with
      | positive => exact hnearest
      | negative => exact (nearestInt_neg _).trans (congrArg _ hnearest)

theorem rounds_of_floatNumber? (h : floatNumber? x = some p) : Extended.Rounds p p := by
  have hstands := standsFor_of_floatNumber? h
  generalize x.toModel.unpack = u at hstands
  cases hstands with
  | bot => exact .bot
  | top => exact .top
  | units hproper =>
      have hrounds := Extended.Rounds.units (unpackedUnits u)
      rw [nearestInt_unpackedUnits hproper] at hrounds
      exact hrounds

end Floats

/-! ## Values -/

namespace Value

variable {a b v : Value} {p q : Extended}

/-- The number that a value stands for, a bool for zero or one. -/
def number? : Value → Option Extended
  | .bool b => some (.ofRat (if b then 1 else 0))
  | .int n => some (.ofRat n.toInt)
  | .float x => floatNumber? x
  | _ => none

/-- The number that a value is compared as: an integer is rounded. -/
def rounded? : Value → Option Extended
  | .int n => some (.ofRat (nearestInt n.toInt))
  | v => v.number?

theorem floatNumber?_ofInt {n : Int} (hn : n.natAbs < 2 ^ 64) :
    floatNumber? (Float.ofInt n) = some (.ofRat (nearestInt n)) := by
  obtain ⟨hfinite, hunits⟩ := ofInt_rounded hn
  rw [floatNumber?_of_isFinite hfinite, hunits, Extended.ofUnits_ones]

theorem natAbs_toInt_lt (n : Int64) : n.toInt.natAbs < 2 ^ 64 := by
  have hlow := n.le_toInt
  have hhigh := n.toInt_lt
  omega

theorem one_eq_ofInt : (1.0 : Float) = Float.ofInt 1 := by
  decide +kernel

theorem zero_eq_ofInt : (0.0 : Float) = Float.ofInt 0 := by
  decide +kernel

theorem rounded?_eq (v : Value) : v.rounded? = v.toFloat?.bind floatNumber? := by
  cases v with
  | bool b =>
      cases b with
      | false =>
          change _ = floatNumber? 0.0
          rw [zero_eq_ofInt, floatNumber?_ofInt (by decide), nearestInt_of_natAbs_le (by decide)]
          simp [rounded?, number?]
      | true =>
          change _ = floatNumber? 1.0
          rw [one_eq_ofInt, floatNumber?_ofInt (by decide), nearestInt_of_natAbs_le (by decide)]
          simp [rounded?, number?]
  | int n => exact (floatNumber?_ofInt (natAbs_toInt_lt n)).symm
  | _ => rfl

theorem eqv_of_toFloat? {x y : Float} (ha : a.toFloat? = some x) (hb : b.toFloat? = some y) :
    eqv a b = (x == y) := by
  have hnumeric : eqv a b = numericEq a b := by
    cases a <;> cases ha <;> cases b <;> cases hb <;> rfl
  rw [hnumeric, numericEq, ha, hb]

theorem order_of_toFloat? {x y : Float} (ha : a.toFloat? = some x) (hb : b.toFloat? = some y) :
    order a b = compareFloats x y := by
  have hnumeric : order a b = numericOrder a b := by
    cases a <;> cases ha <;> cases b <;> cases hb <;> rfl
  rw [hnumeric, numericOrder, ha, hb]

theorem compared_rounded (ha : a.rounded? = some p) (hb : b.rounded? = some q) :
    eqv a b = (compare p q == .eq) ∧ order a b = .ok (compare p q) := by
  rw [rounded?_eq, Option.bind_eq_some_iff] at ha hb
  obtain ⟨x, hx, hp⟩ := ha
  obtain ⟨y, hy, hq⟩ := hb
  rw [eqv_of_toFloat? hx hy, order_of_toFloat? hx hy]
  exact ⟨beq_eq_compare hp hq, compareFloats_eq hp hq⟩

theorem numericEq_iff : numericEq a b = true ↔ ∃ p, a.rounded? = some p ∧ b.rounded? = some p := by
  simp only [rounded?_eq, Option.bind_eq_some_iff]
  unfold numericEq
  cases a.toFloat? with
  | none => simp
  | some x =>
      cases b.toFloat? with
      | none => simp
      | some y => simp [beq_iff_floatNumber?]

theorem eqv_iff_of_toFloat? {x : Float} (ha : a.toFloat? = some x) :
    eqv a b = true ↔ ∃ p, a.rounded? = some p ∧ b.rounded? = some p := by
  have hnumeric : eqv a b = numericEq a b := by
    cases a <;> cases ha <;> cases b <;> rfl
  rw [hnumeric, numericEq_iff]

theorem eqv_iff_of_rounded? (ha : a.rounded? = some p) :
    eqv a b = true ↔ b.rounded? = some p := by
  obtain ⟨x, hx, -⟩ := Option.bind_eq_some_iff.mp (rounded?_eq a ▸ ha)
  rw [eqv_iff_of_toFloat? hx, ha]
  simp only [Option.some.injEq, exists_eq_left']

theorem exists_rounded (h : v.number? = some p) :
    ∃ p', v.rounded? = some p' ∧ Extended.Rounds p p' := by
  have hones : ∀ n : Int, Extended.Rounds (.ofRat n) (.ofRat (nearestInt n)) := fun n => by
    have hrounds := Extended.Rounds.units (n * unitsOfOne)
    rw [nearestInt_ones, Extended.ofUnits_ones, Extended.ofUnits_ones] at hrounds
    exact hrounds
  cases v with
  | bool b =>
      cases h
      have hkept : nearestInt (if b then 1 else 0) = if b then 1 else 0 :=
        nearestInt_of_natAbs_le (by cases b <;> decide)
      have hrounds := hones (if b then 1 else 0)
      rw [hkept] at hrounds
      refine ⟨_, rfl, ?_⟩
      cases b <;> exact_mod_cast hrounds
  | int n => cases h; exact ⟨_, rfl, hones n.toInt⟩
  | float x => exact ⟨p, h, rounds_of_floatNumber? h⟩
  | _ => cases h

theorem rounded?_of_small (h : ∀ n, v = .int n → n.toInt.natAbs ≤ 2 ^ 53) :
    v.rounded? = v.number? := by
  cases v with
  | int n => rw [rounded?, number?, nearestInt_of_natAbs_le (h n rfl)]
  | _ => rfl

/-! ## Comparisons -/

/-- The answers of all comparisons of two values are those for the numbers. -/
structure ComparedAs (a b : Value) (p q : Extended) : Prop where
  eq : eqv a b = true ↔ p = q
  lt : compareBy .lt a b = .ok (decide (p < q))
  ltE : compareBy .ltE a b = .ok (decide (p ≤ q))
  gt : compareBy .gt a b = .ok (decide (q < p))
  gtE : compareBy .gtE a b = .ok (decide (q ≤ p))

/-- The answers tell which of the two numbers is the smaller one. -/
theorem comparedAs_iff {o : Ordering} (heq : eqv a b = (o == .eq)) (horder : order a b = .ok o) :
    ComparedAs a b p q ↔ compare p q = o := by
  have hlt : compareBy .lt a b = .ok (o == .lt) := by simp [compareBy, horder, Except.map]
  have hltE : compareBy .ltE a b = .ok (o != .gt) := by simp [compareBy, horder, Except.map]
  have hgt : compareBy .gt a b = .ok (o == .gt) := by simp [compareBy, horder, Except.map]
  have hgtE : compareBy .gtE a b = .ok (o != .lt) := by simp [compareBy, horder, Except.map]
  constructor
  · rintro ⟨hequal, hless, -, hgreater, -⟩
    rw [heq, beq_iff_eq] at hequal
    rw [hlt, Except.ok.injEq] at hless
    rw [hgt, Except.ok.injEq] at hgreater
    rcases lt_trichotomy p q with h | h | h
    · rw [decide_eq_true h, beq_iff_eq] at hless
      rw [hless, compare_lt_iff_lt.mpr h]
    · rw [hequal.mpr h, compare_eq_iff_eq.mpr h]
    · rw [decide_eq_true h, beq_iff_eq] at hgreater
      rw [hgreater, compare_gt_iff_gt.mpr h]
  · rintro rfl
    refine ⟨?_, ?_, ?_, ?_, ?_⟩
    · rw [heq, beq_iff_eq, compare_eq_iff_eq]
    · rw [hlt, Except.ok.injEq, Bool.eq_iff_iff, beq_iff_eq, decide_eq_true_iff, compare_lt_iff_lt]
    · rw [hltE, Except.ok.injEq, Bool.eq_iff_iff, bne_iff_ne, decide_eq_true_iff,
        compare_le_iff_le]
    · rw [hgt, Except.ok.injEq, Bool.eq_iff_iff, beq_iff_eq, decide_eq_true_iff, compare_gt_iff_gt]
    · rw [hgtE, Except.ok.injEq, Bool.eq_iff_iff, bne_iff_ne, decide_eq_true_iff,
        compare_ge_iff_ge]

/-- Numbers are compared exactly unless they are different and are rounded to one float;
integers of at most 53 bits are not changed by rounding. -/
theorem compared_exactly_iff (ha : a.number? = some p) (hb : b.number? = some q) :
    (ComparedAs a b p q ↔ (a.rounded? = b.rounded? → p = q)) ∧
    (∃ p' q', a.rounded? = some p' ∧ b.rounded? = some q' ∧ ComparedAs a b p' q') ∧
    ((∀ n, a = .int n ∨ b = .int n → n.toInt.natAbs ≤ 2 ^ 53) → ComparedAs a b p q) := by
  obtain ⟨p', hp', hp⟩ := exists_rounded ha
  obtain ⟨q', hq', hq⟩ := exists_rounded hb
  obtain ⟨heq, horder⟩ := compared_rounded hp' hq'
  have hexact : ComparedAs a b p q ↔ (a.rounded? = b.rounded? → p = q) := by
    rw [comparedAs_iff heq horder, hp.compare_eq_iff hq, hp', hq', Option.some_inj]
  refine ⟨hexact, ⟨p', q', hp', hq', (comparedAs_iff heq horder).mpr rfl⟩, fun hsmall => ?_⟩
  rw [hexact, rounded?_of_small fun n h => hsmall n (.inl h),
    rounded?_of_small fun n h => hsmall n (.inr h), ha, hb, Option.some_inj]
  exact id

/-- An integer that rounding makes smaller, against the float behind it. -/
theorem compared_exactly_between_floats :
    (int 0x20000000000001).number? = some (.ofRat 0x20000000000001) ∧
    (float 9007199254740994).number? = some (.ofRat 0x20000000000002) ∧
    ComparedAs (.int 0x20000000000001) (.float 9007199254740994)
      (.ofRat 0x20000000000001) (.ofRat 0x20000000000002) := by
  have hint : (int 0x20000000000001).number? = some (.ofRat 0x20000000000001) := rfl
  have hfloat : (float 9007199254740994).number? = some (.ofRat 0x20000000000002) := by
    have hof : (9007199254740994 : Float) = Float.ofInt 0x20000000000002 := by decide +kernel
    have hkept : nearestInt 0x20000000000002 = 0x20000000000002 := by decide +kernel
    rw [number?, hof, floatNumber?_ofInt (by decide), hkept]
    rfl
  refine ⟨hint, hfloat, (compared_exactly_iff hint hfloat).1.mpr fun heq => ?_⟩
  have hrounded : nearestInt (0x20000000000001 : Int64).toInt = 0x20000000000000 := by
    decide +kernel
  have hless : Extended.ofRat (0x20000000000000 : Int) < .ofRat 0x20000000000002 := by
    rw [Extended.ofRat_lt_ofRat]
    norm_num
  simp only [rounded?, hrounded, hfloat, Option.some_inj] at heq
  exact absurd heq hless.ne

/-- Neighbours of 54 bits come out as equal, so that neither is less. -/
theorem neighbours_compared_equal :
    (int 0x20000000000000).number? = some (.ofRat 0x20000000000000) ∧
    (int 0x20000000000001).number? = some (.ofRat 0x20000000000001) ∧
    Extended.ofRat 0x20000000000000 < .ofRat 0x20000000000001 ∧
    eqv (.int 0x20000000000000) (.int 0x20000000000001) = true ∧
    compareBy .lt (.int 0x20000000000000) (.int 0x20000000000001) = .ok false := by
  refine ⟨rfl, rfl, ?_, ?_, ?_⟩
  · rw [Extended.ofRat_lt_ofRat]
    norm_num
  · decide +kernel
  · rfl

end Value

end IconConstraints
