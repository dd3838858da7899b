import Mathlib.Data.Int.Order.Basic
import Mathlib.Data.Nat.Basic
import Mathlib.Order.Basic
import IconConstraints.Proofs.Scalar

/-!
# Finite floats as whole numbers

Every finite float is a whole number of units, of which the least positive float is one.
Comparing finite floats is comparing these numbers, so that facts about their order are
facts about integers.
-/

namespace IconConstraints

open Float.Model (Format UnpackedFloat)
open Float.Model.UnpackedFloat

/-! ## Mantissas as they are stored -/

/-- A mantissa and an exponent of a finite float. -/
structure Canonical (m : Nat) (e : Int) : Prop where
  fits : m < 2 ^ 53
  least : -1074 ≤ e
  greatest : e ≤ 971
  normal : e = -1074 ∨ 2 ^ 52 ≤ m

/-- A float that is neither infinite nor no number, with its mantissa as it is stored. -/
def Proper : UnpackedFloat → Prop
  | .notANumber => False
  | .infinity _ => False
  | .zero _ => True
  | .finite _ m e _ => Canonical m e

/-- To be used as the cases of a finite float. -/
@[elab_as_elim]
theorem Proper.cases {motive : (u : UnpackedFloat) → Proper u → Prop}
    (zero : ∀ s, motive (.zero s) trivial)
    (finite : ∀ s m e hpos, ∀ h : Canonical m e, motive (.finite s m e hpos) h)
    {u : UnpackedFloat} (h : Proper u) : motive u h := by
  cases u with
  | notANumber => exact h.elim
  | infinity => exact h.elim
  | zero s => exact zero s
  | finite s m e hpos => exact finite s m e hpos h

theorem unpackSign_packComponents {format : Format} (s : Sign)
    (e : BitVec format.exponentBits) (m : BitVec format.mantissaBitsWithoutImplicit) :
    unpackSign (packComponents format s e m) = s.toBitVec := by
  apply BitVec.eq_of_getLsbD_eq
  intro i hi
  obtain rfl : i = 0 := by omega
  unfold unpackSign packComponents
  simp [BitVec.getLsbD_append, BitVec.getElem_append]

theorem ofBitVec_toBitVec (s : Sign) : Sign.ofBitVec s.toBitVec = s := by
  cases s <;> rfl

theorem unpack_subnormal {m : BitVec 52} (s : Sign) (hpos : 0 < m.toNat) :
    unpack Format.binary64 (packComponents Format.binary64 s 0 m) =
      .finite s m.toNat (-1074) hpos := by
  have hmantissa : unpackMantissa (packComponents Format.binary64 s 0 m) = m :=
    unpackMantissa_packComponents
  have hexponent : unpackExponent (packComponents Format.binary64 s 0 m) = 0#11 :=
    unpackExponent_packComponents
  have hsign : Sign.ofBitVec (unpackSign (packComponents Format.binary64 s 0 m)) = s := by
    rw [unpackSign_packComponents, ofBitVec_toBitVec]
  have hspecial : unpackExponent (packComponents Format.binary64 s 0 m) ≠ -1#11 := by
    rw [hexponent]
    decide
  have hnotZero : unpackMantissa (packComponents Format.binary64 s 0 m) ≠ 0#52 := by
    rw [hmantissa]
    exact fun h => hpos.ne' (congrArg BitVec.toNat h)
  refine (if_neg hspecial).trans ((if_pos hexponent).trans ((dif_neg hnotZero).trans ?_))
  refine (UnpackedFloat.finite.injEq ..).mpr ⟨hsign, congrArg BitVec.toNat hmantissa, ?_⟩
  rw [hexponent]
  rfl

theorem unpack_normal {e : BitVec 11} (m : BitVec 52) (s : Sign) (hpos : 0 < (1#1 ++ m).toNat)
    (hzero : e.toNat ≠ 0) (hspecial : e.toNat ≠ 2047) :
    unpack Format.binary64 (packComponents Format.binary64 s e m) =
      .finite s (1#1 ++ m).toNat ((e.toNat : Int) - 1075) hpos := by
  have hmantissa : unpackMantissa (packComponents Format.binary64 s e m) = m :=
    unpackMantissa_packComponents
  have hexponent : unpackExponent (packComponents Format.binary64 s e m) = e :=
    unpackExponent_packComponents
  have hsign : Sign.ofBitVec (unpackSign (packComponents Format.binary64 s e m)) = s := by
    rw [unpackSign_packComponents, ofBitVec_toBitVec]
  have hnotZero : unpackExponent (packComponents Format.binary64 s e m) ≠ 0#11 := by
    rw [hexponent]
    exact fun h => hzero (congrArg BitVec.toNat h)
  have hnotSpecial : unpackExponent (packComponents Format.binary64 s e m) ≠ -1#11 := by
    rw [hexponent]
    exact fun h => hspecial (congrArg BitVec.toNat h)
  refine (if_neg hnotSpecial).trans ((if_neg hnotZero).trans ?_)
  exact (UnpackedFloat.finite.injEq ..).mpr
    ⟨hsign, congrArg (fun m => (1#1 ++ m).toNat) hmantissa,
      congrArg (fun e : BitVec 11 => (e.toNat : Int) - 1075) hexponent⟩

theorem unpack_pack {m : Nat} {e : Int} (h : Canonical m e) (s : Sign) (hpos : 0 < m) :
    (Float.Model.pack (.finite s m e hpos)).unpack = .finite s m e hpos := by
  change unpack Format.binary64 (pack Format.binary64 (.finite s m e hpos)) = _
  by_cases hsmall : m < 2 ^ 52
  case pos =>
    obtain rfl : e = -1074 := h.normal.resolve_right (Nat.not_le.mpr hsmall)
    obtain ⟨b, rfl⟩ : ∃ b : BitVec 52, m = b.toNat :=
      ⟨BitVec.ofNat 52 m, (BitVec.toNat_ofNat _ _ ▸ Nat.mod_eq_of_lt hsmall).symm⟩
    rw [Scalar.pack_subnormal s b _ hpos rfl, unpack_subnormal s hpos]
  case neg =>
    have hleast := h.least
    have hgreatest := h.greatest
    have hfits := h.fits
    obtain ⟨b, rfl⟩ : ∃ b : BitVec 52, m = (1#1 ++ b).toNat := by
      refine ⟨BitVec.ofNat 52 (m - 2 ^ 52), ?_⟩
      rw [Scalar.implicit_bit_append, BitVec.toNat_ofNat]
      omega
    have hstored : (BitVec.ofNat 11 (e + 1075).toNat).toNat = (e + 1075).toNat := by
      rw [BitVec.toNat_ofNat]
      omega
    have he : e = ((BitVec.ofNat 11 (e + 1075).toNat).toNat : Int) - 1075 := by
      rw [hstored]
      omega
    rw [Scalar.pack_normal s (BitVec.ofNat 11 (e + 1075).toNat) b e hpos he (by omega),
      unpack_normal b s hpos (by omega) (by omega)]
    congr 1
    exact he.symm

theorem canonical_of_unpack {b : BitVec Format.binary64.numBits} {s : Sign} {m : Nat} {e : Int}
    {hpos : 0 < m} (h : unpack Format.binary64 b = .finite s m e hpos) : Canonical m e := by
  have hmantissa : (unpackMantissa b : BitVec 52).toNat < 2 ^ 52 := (unpackMantissa b).isLt
  have hstored := Scalar.unpack_stored b
  rw [h] at hstored
  cases hstored with
  | subnormal => exact ⟨by omega, by decide, by decide, .inl (by decide)⟩
  | normal _ hspecial hzero =>
      rw [Scalar.implicit_bit_append]
      exact ⟨by omega, by omega, by omega, .inr (by omega)⟩

theorem proper_iff (x : Float) : x.isFinite = true ↔ Proper x.toModel.unpack := by
  change x.toModel.unpack.isFinite = true ↔ _
  cases hx : x.toModel.unpack with
  | notANumber | infinity => exact iff_of_false Bool.noConfusion False.elim
  | zero => exact iff_of_true rfl trivial
  | finite => exact iff_of_true rfl (canonical_of_unpack hx)

/-- The units of a mantissa with an exponent. -/
def unitsOf (m : Nat) (e : Int) : Nat :=
  m * 2 ^ (e + 1074).toNat

def unpackedUnits : UnpackedFloat → Int
  | .finite s m e _ => s.apply (unitsOf m e)
  | _ => 0

def units (x : Float) : Int :=
  unpackedUnits x.toModel.unpack

theorem unitsOf_pos {m : Nat} (hpos : 0 < m) (e : Int) : 0 < unitsOf m e :=
  Nat.mul_pos hpos (Nat.two_pow_pos _)

theorem log2_le_log2 {m n : Nat} (h : m ≤ n) : m.log2 ≤ n.log2 := by
  rcases Nat.eq_zero_or_pos m with rfl | hpos
  · rw [Nat.log2_zero]
    exact Nat.zero_le _
  · exact (Nat.le_log2 (by omega)).mpr ((Nat.log2_self_le hpos.ne').trans h)

theorem log2_mul_two_pow {m : Nat} (hm : m ≠ 0) (n : Nat) : (m * 2 ^ n).log2 = m.log2 + n := by
  rw [Nat.log2_eq_iff (Nat.mul_ne_zero hm (Nat.two_pow_pos n).ne'), Nat.pow_succ]
  have hlower := Nat.mul_le_mul_right (2 ^ n) (Nat.log2_self_le hm)
  have hupper := Nat.mul_lt_mul_of_pos_right (Nat.lt_log2_self (n := m)) (Nat.two_pow_pos n)
  rw [← Nat.pow_add] at hlower hupper
  refine ⟨hlower, hupper.trans_eq ?_⟩
  rw [← Nat.pow_succ]
  congr 1
  omega

theorem log2_unitsOf {m : Nat} {e : Int} (hpos : 0 < m) (he : -1074 ≤ e) :
    ((unitsOf m e).log2 : Int) = m.log2 + e + 1074 := by
  rw [unitsOf, log2_mul_two_pow hpos.ne']
  omega

/-! ## Order -/

theorem Canonical.unitsOf_lt {m n : Nat} {e f : Int} (h₁ : Canonical m e) (h₂ : Canonical n f)
    (hlt : e < f) : unitsOf m e < unitsOf n f := by
  have hleast := h₁.least
  have hnormal : 2 ^ 52 ≤ n := h₂.normal.resolve_left (by omega)
  have hexponents : (e + 1074).toNat + 1 ≤ (f + 1074).toNat := by omega
  calc
    m * 2 ^ (e + 1074).toNat < 2 ^ 53 * 2 ^ (e + 1074).toNat :=
      Nat.mul_lt_mul_of_pos_right h₁.fits (Nat.two_pow_pos _)
    _ = 2 ^ 52 * 2 ^ ((e + 1074).toNat + 1) := by rw [Nat.pow_succ _ (e + 1074).toNat]; omega
    _ ≤ 2 ^ 52 * 2 ^ (f + 1074).toNat :=
      Nat.mul_le_mul_left _ (Nat.pow_le_pow_right (by decide) hexponents)
    _ ≤ n * 2 ^ (f + 1074).toNat := Nat.mul_le_mul_right _ hnormal

theorem Canonical.compare_eq {m n : Nat} {e f : Int} (h₁ : Canonical m e) (h₂ : Canonical n f) :
    (compare e f).then (compare m n) = compare (unitsOf m e) (unitsOf n f) := by
  rcases lt_trichotomy e f with hlt | rfl | hgt
  · rw [compare_lt_iff_lt.mpr hlt, compare_lt_iff_lt.mpr (h₁.unitsOf_lt h₂ hlt)]
    rfl
  · rw [compare_eq_iff_eq.mpr rfl, Ordering.eq_then]
    unfold unitsOf
    rcases lt_trichotomy m n with hlt | rfl | hgt
    · rw [compare_lt_iff_lt.mpr hlt, compare_lt_iff_lt.mpr
        (Nat.mul_lt_mul_of_pos_right hlt (Nat.two_pow_pos _))]
    · simp
    · rw [compare_gt_iff_gt.mpr hgt, compare_gt_iff_gt.mpr
        (Nat.mul_lt_mul_of_pos_right hgt (Nat.two_pow_pos _))]
  · rw [compare_gt_iff_gt.mpr hgt, compare_gt_iff_gt.mpr (h₂.unitsOf_lt h₁ hgt)]
    rfl

theorem compare_natCast (a b : Nat) : compare (a : Int) (b : Int) = compare a b := by
  rcases lt_trichotomy a b with hlt | rfl | hgt
  · rw [compare_lt_iff_lt.mpr hlt, compare_lt_iff_lt.mpr (Int.ofNat_lt.mpr hlt)]
  · simp
  · rw [compare_gt_iff_gt.mpr hgt, compare_gt_iff_gt.mpr (Int.ofNat_lt.mpr hgt)]

theorem compare_neg_natCast (a b : Nat) :
    compare (-(a : Int)) (-(b : Int)) = (compare a b).swap := by
  rcases lt_trichotomy a b with hlt | rfl | hgt
  · rw [compare_lt_iff_lt.mpr hlt]
    exact compare_gt_iff_gt.mpr (by omega)
  · simp
  · rw [compare_gt_iff_gt.mpr hgt]
    exact compare_lt_iff_lt.mpr (by omega)

theorem compare_unpacked {u v : UnpackedFloat} (hu : Proper u) (hv : Proper v) :
    u.compare v = some (compare (unpackedUnits u) (unpackedUnits v)) := by
  cases hu using Proper.cases with
  | zero s =>
      cases hv using Proper.cases with
      | zero => rfl
      | finite t n f hpos hv =>
          have hunits := unitsOf_pos hpos f
          cases t with
          | positive => exact congrArg some (compare_lt_iff_lt.mpr (Int.ofNat_lt.mpr hunits)).symm
          | negative =>
              exact congrArg some (compare_gt_iff_gt.mpr
                (Int.neg_neg_of_pos (Int.ofNat_lt.mpr hunits))).symm
  | finite s m e hpos hu =>
      have hunits := unitsOf_pos hpos e
      -- Only numbers with the same sign are compared by their mantissas.
      cases hv using Proper.cases with
      | zero =>
          cases s with
          | positive => exact congrArg some (compare_gt_iff_gt.mpr (Int.ofNat_lt.mpr hunits)).symm
          | negative =>
              exact congrArg some (compare_lt_iff_lt.mpr
                (Int.neg_neg_of_pos (Int.ofNat_lt.mpr hunits))).symm
      | finite t n f hpos' hv =>
          have hunits' := unitsOf_pos hpos' f
          have hcompare := Canonical.compare_eq hu hv
          cases s <;> cases t
          · change some ((compare e f).then (compare m n)).swap = some (compare (-_) (-_))
            rw [hcompare, compare_neg_natCast]
          · exact congrArg some (compare_lt_iff_lt.mpr (by
              change -(unitsOf m e : Int) < unitsOf n f
              omega)).symm
          · exact congrArg some (compare_gt_iff_gt.mpr (by
              change -(unitsOf n f : Int) < unitsOf m e
              omega)).symm
          · change some ((compare e f).then (compare m n)) =
              some (compare (unitsOf m e : Int) (unitsOf n f : Int))
            rw [hcompare, compare_natCast]

section Floats

variable {x y : Float}

theorem not_isNaN_of_isFinite (h : x.isFinite = true) : x.isNaN = false := by
  change x.toModel.unpack.isFinite = true at h
  change x.toModel.unpack.isNaN = false
  cases hx : x.toModel.unpack with
  | notANumber =>
      rw [hx] at h
      cases h
  | _ => rfl

theorem compare_units (hx : x.isFinite = true) (hy : y.isFinite = true) :
    x.toModel.unpack.compare y.toModel.unpack = some (compare (units x) (units y)) :=
  compare_unpacked ((proper_iff x).mp hx) ((proper_iff y).mp hy)

theorem le_iff_compare : x ≤ y ↔
    (x.toModel.unpack.compare y.toModel.unpack).any (·.isLE) = true := by
  change (decide (x.toModel ≤ y.toModel)) = true ↔ _
  rw [decide_eq_true_iff]
  rfl

theorem le_iff_units (hx : x.isFinite = true) (hy : y.isFinite = true) :
    x ≤ y ↔ units x ≤ units y := by
  rw [le_iff_compare, compare_units hx hy, Option.any_some, Ordering.isLE_iff_ne_gt]
  exact compare_le_iff_le

theorem lt_iff_compare : x < y ↔
    (x.toModel.unpack.compare y.toModel.unpack == some .lt) = true := by
  change (decide (x.toModel < y.toModel)) = true ↔ _
  rw [decide_eq_true_iff]
  rfl

theorem lt_iff_units (hx : x.isFinite = true) (hy : y.isFinite = true) :
    x < y ↔ units x < units y := by
  rw [lt_iff_compare, compare_units hx hy, beq_iff_eq, Option.some_inj]
  exact compare_lt_iff_lt

theorem isFinite_of_between {least greatest : Float} (hleast : least.isFinite = true)
    (hgreatest : greatest.isFinite = true) (hlower : least ≤ x) (hupper : x ≤ greatest) :
    x.isFinite = true := by
  rw [proper_iff] at hleast hgreatest
  rw [le_iff_compare] at hlower hupper
  change x.toModel.unpack.isFinite = true
  cases hx : x.toModel.unpack with
  | notANumber =>
      rw [hx] at hupper
      cases hupper
  | infinity s =>
      rw [hx] at hlower hupper
      cases s with
      | negative =>
          cases hl : least.toModel.unpack with
          | notANumber | infinity =>
              rw [hl] at hleast
              exact False.elim hleast
          | zero | finite =>
              rw [hl] at hlower
              cases hlower
      | positive =>
          cases hg : greatest.toModel.unpack with
          | notANumber | infinity =>
              rw [hg] at hgreatest
              exact False.elim hgreatest
          | zero | finite =>
              rw [hg] at hupper
              cases hupper
  | zero => rfl
  | finite => rfl

end Floats

end IconConstraints
