import Mathlib.Tactic.IntervalCases
import IconConstraints.Proofs.GroupExtents
import IconConstraints.Proofs.ZigSwitch

/-!
# Finite constraints

All numbers of a constraint are finite exactly if the numbers of its entry are that it is
made from.  Then each of them is written with digits.
-/

namespace IconConstraints

open Float.Model (Format UnpackedFloat)
open Float.Model.UnpackedFloat

/-! ## Halves and signs -/

section Floats

variable {x : Float}

theorem units_log2_le (hx : x.isFinite = true) : (units x).natAbs.log2 ≤ 2097 := by
  rw [proper_iff] at hx
  unfold units
  cases hu : x.toModel.unpack with
  | notANumber => exact Nat.zero_le _
  | infinity => exact Nat.zero_le _
  | zero => exact Nat.zero_le _
  | finite s m e hpos =>
      rw [hu] at hx
      have hlog := log2_unitsOf hpos hx.least
      have hmantissa : m.log2 < 53 := (Nat.log2_lt hpos.ne').mpr hx.fits
      have hgreatest := hx.greatest
      have hunits : (unpackedUnits (.finite s m e hpos)).natAbs = unitsOf m e := natAbs_apply s _
      rw [hunits]
      omega

theorem isFinite_half : (x / 2.0).isFinite = x.isFinite := by
  have htwo : (2.0 : Float).isFinite = true := by decide +kernel
  have hlog : (units 2.0).natAbs.log2 = 1075 := by decide +kernel
  have hzero : units 2.0 ≠ 0 := by decide +kernel
  cases hx : x.isFinite with
  | true =>
      have hsize := units_log2_le hx
      exact div_isFinite hx htwo hzero (by omega)
  | false =>
      rw [proper_iff] at htwo
      change x.toModel.unpack.isFinite = false at hx
      change (Float.Model.pack
        (UnpackedFloat.div Format.binary64 x.toModel.unpack (2.0 : Float).toModel.unpack)).isFinite =
          false
      cases hu : x.toModel.unpack with
      | notANumber => rfl
      | infinity s =>
          cases hv : (2.0 : Float).toModel.unpack with
          | notANumber => rw [hv] at htwo; exact htwo.elim
          | infinity => rw [hv] at htwo; exact htwo.elim
          | zero t | finite t m e hpos =>
              change (Float.Model.pack (.infinity (s / t))).isFinite = false
              cases s / t <;> rfl
      | zero => rw [hu] at hx; cases hx
      | finite => rw [hu] at hx; cases hx

theorem isFinite_neg : (-x).isFinite = x.isFinite := by
  change (Float.Model.pack x.toModel.unpack.neg).isFinite = x.toModel.unpack.isFinite
  cases hu : x.toModel.unpack with
  | notANumber => rfl
  | infinity s => cases s <;> rfl
  | zero s => cases s <;> rfl
  | finite s m e hpos =>
      exact isFinite_pack (canonical_of_unpack hu).greatest (-s) hpos

theorem isFinite_of_beq_zero (h : (x == 0.0) = true) : x.isFinite = true := by
  change (x.toModel.unpack.compare (.zero .positive) == some .eq) = true at h
  change x.toModel.unpack.isFinite = true
  cases hu : x.toModel.unpack with
  | notANumber => rw [hu] at h; cases h
  | infinity s => rw [hu] at h; cases s <;> cases h
  | zero => rfl
  | finite => rfl

theorem isFinite_smaller {y : Float} (hx : x.isFinite = true) (hy : y.isFinite = true) :
    (smaller x y).isFinite = true := by
  rw [smaller_eq hx hy]
  split
  case isTrue => exact hy
  case isFalse => exact hx

end Floats

namespace Scalar

/-- The exponent that a word stores. -/
def exponent (bits : BitVec Format.binary64.numBits) : BitVec 11 :=
  unpackExponent bits

theorem isFinite_iff_exponent (s : Scalar) :
    s.toFloat.isFinite = true ↔ exponent s.bits.toBitVec ≠ -1#11 := by
  have hkept : s.toFloat.isFinite = (unpack Format.binary64 s.bits.toBitVec).isFinite := by
    change (Float.Model.pack (unpack Format.binary64 s.bits.toBitVec)).unpack.isFinite = _
    cases hunpack : unpack Format.binary64 s.bits.toBitVec with
    | notANumber => rfl
    | infinity t => cases t <;> rfl
    | zero t => cases t <;> rfl
    | finite t m e hpos => rw [unpack_pack (canonical_of_unpack hunpack)]
  have hstored := unpack_stored s.bits.toBitVec
  rw [hkept]
  generalize unpack Format.binary64 s.bits.toBitVec = u at hstored ⊢
  cases hstored with
  | infinity hspecial | notANumber hspecial =>
      exact iff_of_false Bool.noConfusion (not_not.mpr hspecial)
  | zero hzero | subnormal _ hzero =>
      refine iff_of_true rfl ?_
      rw [exponent, hzero]
      decide
  | normal _ hbound =>
      refine iff_of_true rfl fun hspecial => ?_
      rw [exponent] at hspecial
      rw [hspecial] at hbound
      exact absurd hbound (by decide)

theorem exponent_congr {b c : BitVec 64}
    (h : ∀ i, i < 11 → b.getLsbD (52 + i) = c.getLsbD (52 + i)) : exponent b = exponent c := by
  apply BitVec.eq_of_getLsbD_eq
  intro i hi
  simpa [exponent, unpackExponent, hi] using h i hi

theorem isFinite_negated (s : Scalar) : s.negated.toFloat.isFinite = s.toFloat.isFinite := by
  unfold negated
  split
  case isTrue =>
    rw [Bool.eq_iff_iff, isFinite_iff_exponent, isFinite_iff_exponent]
    have hexponent : exponent (s.bits ^^^ signBit).toBitVec = exponent s.bits.toBitVec := by
      -- The sign is stored above the exponent.
      apply exponent_congr
      intro i hi
      have hclear : signBit.toBitVec.getLsbD (52 + i) = false := by interval_cases i <;> rfl
      simp [hclear]
    rw [hexponent]
  case isFalse => rw [toFloat_ofFloat, isFinite_neg]

theorem isFinite_halved (s : Scalar) : s.halved.toFloat.isFinite = s.toFloat.isFinite := by
  unfold halved
  split
  case isTrue =>
    rw [Bool.eq_iff_iff, isFinite_iff_exponent, isFinite_iff_exponent]
    have hexponent : exponent (s.bits ||| quietBit).toBitVec = exponent s.bits.toBitVec := by
      -- The quiet bit is stored below the exponent.
      apply exponent_congr
      intro i hi
      have hclear : quietBit.toBitVec.getLsbD (52 + i) = false := by interval_cases i <;> rfl
      simp [hclear]
    rw [hexponent]
  case isFalse => rw [toFloat_ofFloat, isFinite_half]

end Scalar

/-! ## Constraints -/

/-- A field that is unset or has a finite number. -/
def FieldFinite (field : Option Scalar) : Prop :=
  ∀ x, field = some x → x.toFloat.isFinite = true

@[simp] theorem fieldFinite_none : FieldFinite none :=
  fun _ h => nomatch h

@[simp] theorem fieldFinite_some {x : Scalar} :
    FieldFinite (some x) ↔ x.toFloat.isFinite = true :=
  ⟨fun h => h x rfl, fun h _ heq => Option.some.inj heq ▸ h⟩

/-- The numbers that become the paddings and the ratio of a constraint are finite. -/
structure AttributeEntry.NumbersFinite (entry : AttributeEntry) : Prop where
  overlap : entry.overlap.toFloat.isFinite = true
  /-- The vertical padding counts where nothing overlaps. -/
  padding : (entry.overlap.toFloat == 0.0) = true → entry.yPadding.toFloat.isFinite = true
  ratio : entry.xyRatio.toFloat > 0.0 → entry.xyRatio.toFloat.isFinite = true

namespace Constraint

/-- The fields with numbers. -/
def numbers (c : Constraint) : List (Option Scalar) :=
  [c.relativeWidth, c.relativeHeight, c.relativeX, c.relativeY, c.padLeft, c.padRight, c.padTop,
    c.padBottom, c.maxRatio]

def IsFinite (c : Constraint) : Prop :=
  ∀ field ∈ c.numbers, FieldFinite field

variable {entry : AttributeEntry}

theorem changed_finite {neutral : Float} {x : Scalar} (hx : x.toFloat.isFinite = true) :
    FieldFinite (changed neutral x) := by
  unfold changed
  split
  · exact fieldFinite_some.mpr hx
  · exact fieldFinite_none

theorem horizontalPad_finite_iff (entry : AttributeEntry) :
    FieldFinite (horizontalPad entry) ↔ entry.overlap.toFloat.isFinite = true := by
  unfold horizontalPad
  split
  case isTrue => rw [fieldFinite_some, Scalar.isFinite_halved, Scalar.isFinite_negated]
  case isFalse hzero =>
    exact iff_of_true fieldFinite_none (isFinite_of_beq_zero (by simpa [bne] using hzero))

theorem verticalPad_finite_iff (hoverlap : entry.overlap.toFloat.isFinite = true) :
    FieldFinite (verticalPad entry) ↔
      ((entry.overlap.toFloat == 0.0) = true → entry.yPadding.toFloat.isFinite = true) := by
  have hlimit : verticalOverlapLimit.isFinite = true := by decide +kernel
  unfold verticalPad
  cases hzero : entry.overlap.toFloat == 0.0 with
  | false =>
      simp [bne, hzero, isFinite_half, isFinite_neg, isFinite_smaller hoverlap hlimit]
  | true =>
      cases hpadding : entry.yPadding.toFloat == 0.0 with
      | false => simp [bne, hzero, hpadding, Scalar.isFinite_halved]
      | true => simp [bne, hzero, hpadding, isFinite_of_beq_zero hpadding]

theorem maxRatio_finite_iff (entry : AttributeEntry) :
    FieldFinite (if entry.xyRatio.toFloat > 0.0 then some entry.xyRatio else none) ↔
      (entry.xyRatio.toFloat > 0.0 → entry.xyRatio.toFloat.isFinite = true) := by
  split
  case isTrue hpositive => simp [hpositive]
  case isFalse hnot => simp [hnot]

theorem ofEntry_isFinite_iff (h : entry.RelativeFinite) :
    (ofEntry entry).IsFinite ↔ entry.NumbersFinite := by
  have hrelative : FieldFinite (changed 1.0 entry.relativeWidth) ∧
      FieldFinite (changed 1.0 entry.relativeHeight) ∧
      FieldFinite (changed 0.0 entry.relativeX) ∧ FieldFinite (changed 0.0 entry.relativeY) :=
    ⟨changed_finite h.width, changed_finite h.height, changed_finite h.x, changed_finite h.y⟩
  unfold IsFinite numbers ofEntry
  simp only [List.forall_mem_cons, hrelative, horizontalPad_finite_iff, maxRatio_finite_iff,
    List.not_mem_nil, false_imp_iff, implies_true, and_true, true_and]
  constructor
  · rintro ⟨hoverlap, -, hvertical, -, hratio⟩
    exact ⟨hoverlap, (verticalPad_finite_iff hoverlap).mp hvertical, hratio⟩
  · rintro ⟨hoverlap, hpadding, hratio⟩
    have hvertical := (verticalPad_finite_iff hoverlap).mpr hpadding
    exact ⟨hoverlap, hoverlap, hvertical, hvertical, hratio⟩

end Constraint

/-! ## Written numbers -/

/-- The texts of what is no number or infinite. -/
def nonNumbers : List String :=
  ["inf", "-inf", "NaN"]

theorem ofFloat_finite {x : Float} (hx : x.isFinite = true) : ∃ negative significand exponent,
    Decimal.Binary64.ofFloat x = .finite negative significand exponent := by
  have hexponent := (Scalar.isFinite_iff_exponent (.ofFloat x)).mp (by simpa using hx)
  have hbiased : x.toBits.toNat >>> Decimal.Binary64.fractionBits % 2048 =
      (Scalar.exponent x.toBits.toBitVec).toNat := by
    simp [Scalar.exponent, unpackExponent, Decimal.Binary64.fractionBits]
  unfold Decimal.Binary64.ofFloat
  dsimp only
  rw [if_neg]
  · split
    · exact ⟨_, _, _, rfl⟩
    · exact ⟨_, _, _, rfl⟩
  · rw [hbiased]
    exact fun h => hexponent (BitVec.eq_of_toNat_eq h)

namespace Zig

open RuleTable

variable {w : List Char}

theorem IsNumber.signed_not_mem (hw : IsNumber w) (negative : Bool) :
    Decimal.signed negative w ∉ nonNumbers := by
  obtain ⟨c, rest, rfl, hdigit⟩ := hw.begins
  have hbegins : c ≠ 'i' ∧ c ≠ '-' ∧ c ≠ 'N' := by
    refine ⟨?_, ?_, ?_⟩ <;> rintro rfl <;> cases hdigit
  unfold nonNumbers Decimal.signed
  simp only [List.mem_cons, List.not_mem_nil, or_false, ← String.toList_inj]
  cases negative <;> simp [hbegins]

theorem write_not_mem {magnitude : Nat → Int → List Char}
    (hmagnitude : ∀ significand exponent, IsNumber (magnitude significand exponent)) {x : Float}
    (hx : x.isFinite = true) : (Decimal.Binary64.ofFloat x).write magnitude ∉ nonNumbers := by
  obtain ⟨negative, significand, exponent, hvalue⟩ := ofFloat_finite hx
  rw [hvalue]
  exact (hmagnitude significand exponent).signed_not_mem negative

theorem point_not_mem (text : String) : "." ++ text ∉ nonNumbers := by
  simp [nonNumbers, ← String.toList_inj]

theorem zigFields_not_mem {c : Constraint} (hc : c.IsFinite) {name text : String}
    (h : (name, text) ∈ zigFields c) : text ∉ nonNumbers := by
  have hfixed {x : Float} (hx : x.isFinite = true) : Decimal.fixed 16 x ∉ nonNumbers :=
    write_not_mem (fun _ _ => isNumber_pointed (by decide) (.decimal _)) hx
  have hfull {x : Float} (hx : x.isFinite = true) : Decimal.full x ∉ nonNumbers :=
    write_not_mem (fun _ _ => isNumber_magnitude rfl _) hx
  obtain ⟨field, hfield, hvalue⟩ := List.mem_filterMap.mp h
  simp only [List.mem_cons, List.not_mem_nil, or_false] at hfield
  rcases hfield with
    rfl | rfl | rfl | rfl | rfl | rfl | rfl | rfl | rfl | rfl | rfl | rfl | rfl | rfl
  all_goals
    simp only [Option.map_map, Option.map_eq_some_iff, Function.comp_apply, Prod.mk.injEq] at hvalue
    obtain ⟨x, hx, -, rfl⟩ := hvalue
  · exact point_not_mem _
  · exact point_not_mem _
  · exact (Digits.decimal x.toNat).isNumber.signed_not_mem false
  · exact point_not_mem _
  · exact point_not_mem _
  · exact hfixed (hc c.relativeWidth (by simp [Constraint.numbers]) x hx)
  · exact hfixed (hc c.relativeHeight (by simp [Constraint.numbers]) x hx)
  · exact hfixed (hc c.relativeX (by simp [Constraint.numbers]) x hx)
  · exact hfixed (hc c.relativeY (by simp [Constraint.numbers]) x hx)
  · exact hfull (hc c.padLeft (by simp [Constraint.numbers]) x hx)
  · exact hfull (hc c.padRight (by simp [Constraint.numbers]) x hx)
  · exact hfull (hc c.padTop (by simp [Constraint.numbers]) x hx)
  · exact hfull (hc c.padBottom (by simp [Constraint.numbers]) x hx)
  · exact hfull (hc c.maxRatio (by simp [Constraint.numbers]) x hx)

end Zig

end IconConstraints
