import Mathlib.Algebra.Order.Ring.Int
import IconConstraints.Proofs.NearestEven

/-!
# Sizes of rounded results

A mantissa without further bits is rounded to nearest, or to even.  Whatever is rounded
moves to at most the next power of two.  A difference of finite floats is therefore finite
and about as large as the exact difference, and a quotient is finite unless it is as large
as the greatest floats.
-/

namespace IconConstraints

open Float.Model (Format UnpackedFloat totalExponent)
open Float.Model.UnpackedFloat

/-! ## Shifts -/

/-- By how many bits a mantissa has to be shortened. -/
def shiftOf (m : Nat) (e : Int) : Nat :=
  (max ((m.log2 : Int) + e - 52) (-1074) - e).toNat

theorem targetExponent_eq (m : Nat) (e : Int) :
    Format.binary64.targetExponent (totalExponent m e) = max ((m.log2 : Int) + e - 52) (-1074) := by
  change max ((m.log2 : Int) + 1 + e - (53 : Nat)) (3 - 2 ^ 10 - (53 : Nat)) = _
  omega

theorem mantissa_shiftRight (em : ExtendedMantissa) (k : Nat) :
    (em >>> k).mantissa = em.mantissa / 2 ^ k := by
  induction k with
  | zero => exact (Nat.div_one _).symm
  | succ k ih =>
      change (em >>> k).mantissa / 2 = _
      rw [ih, Nat.div_div_eq_div_mul, Nat.pow_succ]

/-- The last bits of a mantissa, as far as they are looked at when it is rounded. -/
theorem shiftRight_exact (m k : Nat) :
    ExtendedMantissa.ofMantissaAndAccuracy m .exact >>> (k + 1) =
      ⟨m / 2 ^ (k + 1), m / 2 ^ k % 2 != 0, m % 2 ^ k != 0⟩ := by
  induction k with
  | zero =>
      change ExtendedMantissa.mk (m / 2) (m % 2 != 0) (false || false) = _
      simp [Nat.mod_one]
  | succ k ih =>
      change ExtendedMantissa.shiftRightOne
        (ExtendedMantissa.ofMantissaAndAccuracy m .exact >>> (k + 1)) = _
      have hrest : (m / 2 ^ k % 2 != 0 || m % 2 ^ k != 0) = (m % 2 ^ (k + 1) != 0) := by
        have hpos : 0 < 2 ^ k := Nat.two_pow_pos k
        rw [Nat.mod_pow_succ, Bool.eq_iff_iff]
        simp only [Bool.or_eq_true, bne_iff_ne, ne_eq, Nat.add_eq_zero_iff, Nat.mul_eq_zero,
          hpos.ne', false_or, not_and_or]
        exact or_comm
      rw [ih]
      unfold ExtendedMantissa.shiftRightOne
      rw [hrest, Nat.div_div_eq_div_mul, ← Nat.pow_succ]

/-- A mantissa without further bits is rounded to nearest or to even. -/
theorem roundedMantissa_shiftRight (m k : Nat) :
    (ExtendedMantissa.ofMantissaAndAccuracy m .exact >>> k).roundedMantissa = shortened m k := by
  cases k with
  | zero => exact (shortened_zero m).symm
  | succ k =>
      have hlow : m % 2 ^ k < 2 ^ k := Nat.mod_lt _ (Nat.two_pow_pos k)
      rw [shiftRight_exact]
      unfold shortened
      rw [Nat.mod_pow_succ, Nat.pow_succ]
      generalize m / (2 ^ k * 2) = kept
      generalize m % 2 ^ k = low at *
      rcases Nat.mod_two_eq_zero_or_one (m / 2 ^ k) with hround | hround
      · -- Less than half is cut off.
        rw [hround, if_pos (by omega)]
        rcases Nat.eq_zero_or_pos low with rfl | hpos
        · rfl
        · rw [bne_iff_ne.mpr hpos.ne']
          rfl
      · rw [hround]
        rcases Nat.eq_zero_or_pos low with rfl | hpos
        · -- Exactly half is cut off.
          change kept + kept % 2 = _
          rcases Nat.mod_two_eq_zero_or_one kept with heven | hodd
          · rw [if_pos (by omega), heven, Nat.add_zero]
          · rw [if_neg (by omega), hodd]
        · rw [if_neg (by omega), bne_iff_ne.mpr hpos.ne']
          rfl

theorem roundedMantissa_bounds (em : ExtendedMantissa) :
    em.mantissa ≤ em.roundedMantissa ∧ em.roundedMantissa ≤ em.mantissa + 1 := by
  obtain ⟨m, r, t⟩ := em
  cases r <;> cases t <;> simp [ExtendedMantissa.roundedMantissa, ExtendedMantissa.accuracy,
    Accuracy.roundToNearestEven]
  omega

theorem mantissa_ofMantissaAndAccuracy (m : Nat) (a : Accuracy) :
    (ExtendedMantissa.ofMantissaAndAccuracy m a).mantissa = m := by
  rcases a with _ | (_ | _ | _) <;> rfl

theorem shiftToTargetExponent_eq (m : Nat) (e : Int) (a : Accuracy) :
    shiftToTargetExponent Format.binary64 m e a =
      (ExtendedMantissa.ofMantissaAndAccuracy m a >>> shiftOf m e, e + shiftOf m e) := by
  unfold shiftToTargetExponent shiftToExponent
  rw [targetExponent_eq]
  rfl

/-- A mantissa is shortened and rounded, and then shortened again if rounding made it too long. -/
theorem roundWithAccuracy_eq (s : Sign) (m : Nat) (e : Int) (a : Accuracy) :
    ∃ r, m / 2 ^ shiftOf m e ≤ r ∧ r ≤ m / 2 ^ shiftOf m e + 1 ∧
      (a = .exact → r = shortened m (shiftOf m e)) ∧
      roundWithAccuracy Format.binary64 s m e a =
        if h : r / 2 ^ shiftOf r (e + shiftOf m e) = 0 then .zero s
        else .finite s (r / 2 ^ shiftOf r (e + shiftOf m e))
          (e + shiftOf m e + shiftOf r (e + shiftOf m e)) (Nat.pos_of_ne_zero h) := by
  refine ⟨(ExtendedMantissa.ofMantissaAndAccuracy m a >>> shiftOf m e).roundedMantissa, ?_⟩
  have hbounds :=
    roundedMantissa_bounds (ExtendedMantissa.ofMantissaAndAccuracy m a >>> shiftOf m e)
  rw [mantissa_shiftRight, mantissa_ofMantissaAndAccuracy] at hbounds
  refine ⟨hbounds.1, hbounds.2, ?_, ?_⟩
  · rintro rfl
    exact roundedMantissa_shiftRight m _
  · unfold roundWithAccuracy
    dsimp only
    rw [shiftToTargetExponent_eq]
    dsimp only
    rw [shiftToTargetExponent_eq]
    dsimp only
    rw [mantissa_shiftRight, mantissa_ofMantissaAndAccuracy]

/-! ## Finite results -/

theorem isFinite_packComponents {e : BitVec 11} (he : e ≠ -1#11) (s : Sign) (m : BitVec 52) :
    (unpack Format.binary64 (packComponents Format.binary64 s e m)).isFinite = true := by
  have hexponent : (unpackExponent (packComponents Format.binary64 s e m) : BitVec 11) = e :=
    unpackExponent_packComponents
  have hstored := Scalar.unpack_stored (packComponents Format.binary64 s e m)
  generalize unpack Format.binary64 (packComponents Format.binary64 s e m) = u at hstored ⊢
  cases hstored with
  | infinity hspecial | notANumber hspecial => exact absurd (hexponent.symm.trans hspecial) he
  | zero | subnormal | normal => rfl

theorem isFinite_pack {m : Nat} {e : Int} (he : e ≤ 971) (s : Sign) (hpos : 0 < m) :
    (Float.Model.pack (.finite s m e hpos)).isFinite = true := by
  have hfits : ¬ 2 ^ Format.binary64.exponentBits ≤ (e + Format.binary64.exponentBias +
      Format.binary64.mantissaBitsWithoutImplicit).toNat + 1 := by
    change ¬ 2048 ≤ (e + (1023 : Nat) + (52 : Nat)).toNat + 1
    omega
  change (unpack Format.binary64 (pack Format.binary64 (.finite s m e hpos))).isFinite = true
  unfold pack
  rw [if_neg hfits]
  split
  · refine isFinite_packComponents (fun h => ?_) s _
    have hbits := congrArg BitVec.toNat h
    rw [BitVec.toNat_ofNat] at hbits
    change (e + (1023 : Nat) + (52 : Nat)).toNat % 2048 = 2047 at hbits
    change ¬ 2048 ≤ (e + (1023 : Nat) + (52 : Nat)).toNat + 1 at hfits
    omega
  · exact isFinite_packComponents (by decide) s _

theorem log2_rounded_le {m k r : Nat} (hr : r ≤ m / 2 ^ k + 1) : r.log2 ≤ m.log2 + 1 - k := by
  rcases Nat.eq_zero_or_pos r with rfl | hpos
  · simp
  · have hm : m < 2 ^ (m.log2 + 1) := Nat.lt_log2_self
    have hquotient : m / 2 ^ k < 2 ^ (m.log2 + 1 - k) := by
      rw [Nat.div_lt_iff_lt_mul (Nat.two_pow_pos k), ← Nat.pow_add]
      exact hm.trans_le (Nat.pow_le_pow_right (by decide) (by omega))
    have hle : r ≤ 2 ^ (m.log2 + 1 - k) := by omega
    calc
      r.log2 ≤ (2 ^ (m.log2 + 1 - k)).log2 := log2_le_log2 hle
      _ = m.log2 + 1 - k := Nat.log2_two_pow

theorem isFinite_roundWithAccuracy {m : Nat} {e : Int} (hsize : (m.log2 : Int) + e ≤ 1022)
    (he : e ≤ 971) (s : Sign) (a : Accuracy) :
    (Float.Model.pack (roundWithAccuracy Format.binary64 s m e a)).isFinite = true := by
  obtain ⟨r, -, hr, -, hround⟩ := roundWithAccuracy_eq s m e a
  have hlog := log2_rounded_le hr
  rw [hround]
  by_cases hzero : r / 2 ^ shiftOf r (e + shiftOf m e) = 0
  · rw [dif_pos hzero]
    cases s <;> rfl
  · rw [dif_neg hzero]
    refine isFinite_pack ?_ s _
    unfold shiftOf at *
    omega

/-! ## Sizes of rounded numbers -/

theorem shiftOf_eq_zero {m : Nat} {e : Int} (hfits : m < 2 ^ 53) (he : -1074 ≤ e) :
    shiftOf m e = 0 := by
  have hlog := log2_le_of_lt hfits
  unfold shiftOf
  omega

theorem round_eq (s : Sign) (m : Nat) (e : Int) :
    round Format.binary64 s m e =
      roundWithAccuracy Format.binary64 s
        (m * 2 ^ (e - max ((m.log2 : Int) + e - 52) (-1074)).toNat)
        (e - (e - max ((m.log2 : Int) + e - 52) (-1074)).toNat) .exact := by
  unfold UnpackedFloat.round decreaseExponent
  rw [targetExponent_eq]
  dsimp only
  rw [Nat.shiftLeft_eq]

/-- A mantissa that is as long as it is stored, or longer, is rounded in units. -/
theorem unitsOf_shortened {m k : Nat} {e f : Int} (he : -1074 ≤ e) (hk : k = m.log2 - 52)
    (hf : f = e + k) : unitsOf (shortened m k) f = nearest (unitsOf m e) := by
  have hexponent : (f + 1074).toNat = k + (e + 1074).toNat := by omega
  unfold unitsOf
  rw [nearest_mul, hexponent, Nat.pow_add, ← Nat.mul_assoc, hk]
  rfl

theorem unitsOf_lengthened (m : Nat) {a : Nat} {e : Int} (ha : -1074 ≤ e - a) :
    unitsOf (m * 2 ^ a) (e - a) = unitsOf m e := by
  have hexponent : (e + 1074).toNat = a + (e - a + 1074).toNat := by omega
  unfold unitsOf
  rw [hexponent, Nat.pow_add, Nat.mul_assoc]

theorem unitsOf_halved {m : Nat} {e : Int} (hm : m % 2 = 0) (he : -1074 ≤ e) :
    unitsOf (m / 2) (e + 1) = unitsOf m e := by
  have hexponent : (e + 1 + 1074).toNat = (e + 1074).toNat + 1 := by omega
  unfold unitsOf
  rw [hexponent, Nat.pow_succ, ← Nat.mul_assoc, Nat.mul_right_comm, Nat.div_mul_cancel
    (Nat.dvd_of_mod_eq_zero hm)]

theorem finite_of_pos (s : Sign) {m n : Nat} {e f : Int} (hm : m = n) (he : e = f) (hpos : 0 < n) :
    (if h : m = 0 then .zero s else .finite s m e (Nat.pos_of_ne_zero h)) =
      UnpackedFloat.finite s n f hpos := by
  subst hm he
  exact dif_neg hpos.ne'

theorem round_canonical {m : Nat} {e : Int} (hpos : 0 < m) (he : -1074 ≤ e)
    (hsize : (m.log2 : Int) + e ≤ 1022) (s : Sign) :
    ∃ n f, ∃ hn : 0 < n, round Format.binary64 s m e = .finite s n f hn ∧ Canonical n f ∧
      unitsOf n f = nearest (unitsOf m e) ∧
      (m.log2 : Int) + e ≤ n.log2 + f ∧ (n.log2 : Int) + f ≤ m.log2 + e + 1 := by
  rw [round_eq]
  generalize ha : (e - max ((m.log2 : Int) + e - 52) (-1074)).toNat = a
  have hlog : (m * 2 ^ a).log2 = m.log2 + a := log2_mul_two_pow hpos.ne' a
  have hlong : 0 < m * 2 ^ a := Nat.mul_pos hpos (Nat.two_pow_pos a)
  obtain ⟨r, hlower, hupper, hexact, hround⟩ :=
    roundWithAccuracy_eq s (m * 2 ^ a) (e - a) .exact
  rw [hround]
  generalize hk : shiftOf (m * 2 ^ a) (e - a) = k at *
  have hshift := hk
  unfold shiftOf at hshift
  rw [hlog] at hshift
  have hunits : unitsOf r (e - a + k) = nearest (unitsOf m e) := by
    rw [hexact rfl, unitsOf_shortened (by omega) (by omega) rfl, unitsOf_lengthened m (by omega)]
  rcases Nat.eq_zero_or_pos k with hzero | hpositive
  · -- Nothing is cut off, so the mantissa is kept.
    obtain rfl : r = m * 2 ^ a := by rw [hexact rfl, hzero, shortened_zero]
    have hfits : m * 2 ^ a < 2 ^ 53 := (Nat.log2_lt hlong.ne').mp (by omega)
    have hkept : shiftOf (m * 2 ^ a) (e - a + k) = 0 := shiftOf_eq_zero hfits (by omega)
    refine ⟨m * 2 ^ a, e - a + k, hlong, ?_, ⟨hfits, by omega, by omega, ?_⟩,
      hunits, by omega, by omega⟩
    · rw [hkept]
      exact finite_of_pos s (by rw [Nat.pow_zero, Nat.div_one]) (Int.add_zero _) hlong
    · by_cases hleast : e - a + k = -1074
      · exact .inl hleast
      · exact .inr ((Nat.le_log2 hlong.ne').mp (by omega))
  · -- Exactly 53 bits are left, to which rounding may add one.
    have hquotient : 2 ^ 52 ≤ m * 2 ^ a / 2 ^ k := by
      rw [Nat.le_div_iff_mul_le (Nat.two_pow_pos k), ← Nat.pow_add]
      exact (Nat.le_log2 hlong.ne').mp (by omega)
    have hshort : m * 2 ^ a / 2 ^ k < 2 ^ 53 := by
      rw [Nat.div_lt_iff_lt_mul (Nat.two_pow_pos k), ← Nat.pow_add]
      exact (Nat.log2_lt hlong.ne').mp (by omega)
    rcases Nat.lt_or_ge r (2 ^ 53) with hfits | hcarry
    · have hkept : shiftOf r (e - a + k) = 0 := shiftOf_eq_zero hfits (by omega)
      have hr : r.log2 = 52 := (Nat.log2_eq_iff (by omega)).mpr ⟨by omega, hfits⟩
      refine ⟨r, e - a + k, by omega, ?_, ⟨hfits, by omega, by omega, .inr (by omega)⟩,
        hunits, by omega, by omega⟩
      rw [hkept]
      exact finite_of_pos s (by rw [Nat.pow_zero, Nat.div_one]) (Int.add_zero _) _
    · have hr : r.log2 = 53 := (Nat.log2_eq_iff (by omega)).mpr ⟨by omega, by omega⟩
      have hhalf : (r / 2).log2 = 52 := (Nat.log2_eq_iff (by omega)).mpr ⟨by omega, by omega⟩
      have hcut : shiftOf r (e - a + k) = 1 := by
        unfold shiftOf
        omega
      refine ⟨r / 2, e - a + k + 1, by omega, ?_,
        ⟨by omega, by omega, by omega, .inr (by omega)⟩,
        (unitsOf_halved (by omega) (by omega)).trans hunits, by omega, by omega⟩
      rw [hcut]
      exact finite_of_pos s (by rw [Nat.pow_one]) rfl _

/-! ## Differences -/

/-- A float with about as many units as an exact result: a power of two at most is passed. -/
structure Near (d : Int) (u : UnpackedFloat) : Prop where
  proper : Proper u
  lower : d.natAbs.log2 ≤ (unpackedUnits u).natAbs.log2
  upper : (unpackedUnits u).natAbs.log2 ≤ d.natAbs.log2 + 1

theorem Near.exact {u : UnpackedFloat} (h : Proper u) : Near (unpackedUnits u) u :=
  ⟨h, Nat.le_refl _, Nat.le_succ _⟩

theorem natAbs_apply (s : Sign) (n : Nat) : (s.apply n).natAbs = n := by
  cases s with
  | negative => exact (Int.natAbs_neg n).trans (Int.natAbs_natCast n)
  | positive => exact Int.natAbs_natCast n

theorem apply_mul (s : Sign) (m n : Nat) : s.apply (m * n : Nat) = s.apply m * n := by
  cases s with
  | negative =>
      change -((m * n : Nat) : Int) = -m * n
      rw [Nat.cast_mul, neg_mul]
  | positive => exact Nat.cast_mul m n

theorem round_near {m : Nat} {e d : Int} (hpos : 0 < m) (he : -1074 ≤ e)
    (hd : d.natAbs = unitsOf m e) (hsize : d.natAbs.log2 ≤ 2096) (s : Sign) :
    Near d (UnpackedFloat.round Format.binary64 s m e) := by
  have hlog := log2_unitsOf hpos he
  rw [← hd] at hlog
  obtain ⟨n, f, hn, hround, hcanonical, -, hlower, hupper⟩ :=
    round_canonical hpos he (by omega) s
  have hrounded := log2_unitsOf hn hcanonical.least
  rw [hround]
  have hunits : (unpackedUnits (.finite s n f hn)).natAbs = unitsOf n f := natAbs_apply s _
  rw [← hunits] at hrounded
  exact ⟨hcanonical, by omega, by omega⟩

theorem normalize_near {m e : Int} (he : -1074 ≤ e)
    (hsize : (m * 2 ^ (e + 1074).toNat).natAbs.log2 ≤ 2096) (zeroSign : Sign) :
    Near (m * 2 ^ (e + 1074).toNat) (UnpackedFloat.normalize Format.binary64 m e zeroSign) := by
  have hunits : (m * 2 ^ (e + 1074).toNat).natAbs = unitsOf m.natAbs e := by
    rw [unitsOf, Int.natAbs_mul, Int.natAbs_pow]
    rfl
  unfold UnpackedFloat.normalize
  rcases lt_trichotomy m 0 with hneg | rfl | hpos
  · rw [compare_lt_iff_lt.mpr hneg]
    have habs : (-m).toNat = m.natAbs := by omega
    exact round_near (by omega) he (by rw [hunits, habs]) hsize .negative
  · rw [compare_eq_iff_eq.mpr rfl, zero_mul]
    exact ⟨trivial, Nat.le_refl _, Nat.zero_le _⟩
  · rw [compare_gt_iff_gt.mpr hpos]
    have habs : m.toNat = m.natAbs := by omega
    exact round_near (by omega) he (by rw [hunits, habs]) hsize .positive

theorem units_decreased (s : Sign) {m : Nat} {e f : Int} (hf : -1074 ≤ f) (hle : f ≤ e) :
    s.apply (unitsOf m e) = s.apply (m <<< (e - f).toNat : Nat) * 2 ^ (f + 1074).toNat := by
  have hexponent : (e + 1074).toNat = (e - f).toNat + (f + 1074).toNat := by omega
  have hpow : ((2 ^ (f + 1074).toNat : Nat) : Int) = 2 ^ (f + 1074).toNat := Nat.cast_pow 2 _
  rw [unitsOf, Nat.shiftLeft_eq, hexponent, Nat.pow_add, ← Nat.mul_assoc, apply_mul, hpow]

theorem unpackedUnits_neg (s : Sign) {m : Nat} {e : Int} (hpos : 0 < m) :
    unpackedUnits (.finite (-s) m e hpos) = -unpackedUnits (.finite s m e hpos) := by
  cases s with
  | negative => exact (Int.neg_neg _).symm
  | positive => rfl

theorem sub_near {u v : UnpackedFloat} (hu : Proper u) (hv : Proper v)
    (hsize : (unpackedUnits u - unpackedUnits v).natAbs.log2 ≤ 2096) :
    Near (unpackedUnits u - unpackedUnits v) (UnpackedFloat.sub Format.binary64 u v) := by
  cases hu using Proper.cases with
  | zero s =>
      cases hv using Proper.cases with
      | zero t => cases s <;> cases t <;> exact .exact (u := .zero _) trivial
      | finite t n f hpos hv =>
          have hneg := unpackedUnits_neg t (e := f) hpos
          have hexact : Near (unpackedUnits (.finite (-t) n f hpos)) (.finite (-t) n f hpos) :=
            .exact hv
          rw [hneg, ← zero_sub] at hexact
          exact hexact
  | finite s m e hm hu =>
      cases hv using Proper.cases with
      | zero t =>
          have hexact : Near (unpackedUnits (.finite s m e hm)) (.finite s m e hm) := .exact hu
          rw [← sub_zero (unpackedUnits _)] at hexact
          exact hexact
      | finite t n f hn hv =>
          have hleast : -1074 ≤ min e f := le_min hu.least hv.least
          have hdifference : unpackedUnits (.finite s m e hm) - unpackedUnits (.finite t n f hn) =
              (s.apply (m <<< (e - min e f).toNat : Nat) -
                t.apply (n <<< (f - min e f).toNat : Nat)) * 2 ^ (min e f + 1074).toNat := by
            rw [sub_mul, ← units_decreased s hleast (min_le_left e f),
              ← units_decreased t hleast (min_le_right e f)]
            rfl
          rw [hdifference] at hsize ⊢
          exact normalize_near hleast hsize .positive

theorem unpack_pack_of_proper {u : UnpackedFloat} (h : Proper u) :
    (Float.Model.pack u).unpack = u := by
  cases h using Proper.cases with
  | zero s => cases s <;> rfl
  | finite s m e hpos h => exact unpack_pack h s hpos

/-! ## Quotients -/

theorem log2_div_le {m n : Nat} (hpos : 0 < m / n) : (m / n).log2 + n.log2 ≤ m.log2 := by
  have hn : n ≠ 0 := by
    rintro rfl
    simp at hpos
  have hm : m ≠ 0 := by
    rintro rfl
    simp at hpos
  rw [Nat.le_log2 hm, Nat.pow_add]
  exact (Nat.mul_le_mul (Nat.log2_self_le hpos.ne') (Nat.log2_self_le hn)).trans
    (Nat.div_mul_le_self m n)

theorem div_proper {u v : UnpackedFloat} (hu : Proper u) (hv : Proper v)
    (hzero : unpackedUnits v ≠ 0)
    (hsize : (unpackedUnits u).natAbs.log2 ≤ (unpackedUnits v).natAbs.log2 + 1022) :
    (Float.Model.pack (UnpackedFloat.div Format.binary64 u v)).isFinite = true := by
  cases hv using Proper.cases with
  | zero => exact absurd rfl hzero
  | finite t n f hn hv =>
      cases hu using Proper.cases with
      | zero s =>
          have hdiv : UnpackedFloat.div Format.binary64 (.zero s) (.finite t n f hn) =
              .zero (s / t) := rfl
          rw [hdiv]
          cases s / t <;> rfl
      | finite s m e hm hu =>
          have hdividend := log2_unitsOf hm hu.least
          have hdivisor := log2_unitsOf hn hv.least
          change (s.apply (unitsOf m e)).natAbs.log2 ≤ (t.apply (unitsOf n f)).natAbs.log2 + 1022
            at hsize
          rw [natAbs_apply, natAbs_apply] at hsize
          have htarget : Format.binary64.targetExponent (totalExponent m e - totalExponent n f) =
              max ((m.log2 : Int) + e - n.log2 - f - 53) (-1074) := by
            change max ((m.log2 : Int) + 1 + e - (n.log2 + 1 + f) - (53 : Nat))
              (3 - 2 ^ 10 - (53 : Nat)) = _
            omega
          unfold UnpackedFloat.div divCore
          dsimp only
          rw [htarget]
          generalize hg : min (e - f) (max ((m.log2 : Int) + e - n.log2 - f - 53) (-1074)) = g
          refine isFinite_roundWithAccuracy ?_ (by omega) _ _
          rw [Nat.shiftLeft_eq]
          rcases Nat.eq_zero_or_pos (m * 2 ^ (e - f - g).toNat / n) with hquotient | hquotient
          · rw [hquotient, Nat.log2_zero]
            omega
          · have hlog := log2_div_le hquotient
            rw [log2_mul_two_pow hm.ne'] at hlog
            omega

section Floats

variable {x y : Float}

/-- A difference is finite, and about as large as the exact one. -/
theorem sub_units (hx : x.isFinite = true) (hy : y.isFinite = true)
    (hsize : (units x - units y).natAbs.log2 ≤ 2096) :
    (x - y).isFinite = true ∧
      (units x - units y).natAbs.log2 ≤ (units (x - y)).natAbs.log2 ∧
      (units (x - y)).natAbs.log2 ≤ (units x - units y).natAbs.log2 + 1 := by
  have hnear := sub_near ((proper_iff x).mp hx) ((proper_iff y).mp hy) hsize
  have hunpack : (x - y).toModel.unpack =
      UnpackedFloat.sub Format.binary64 x.toModel.unpack y.toModel.unpack :=
    unpack_pack_of_proper hnear.proper
  refine ⟨(proper_iff _).mpr (hunpack ▸ hnear.proper), ?_⟩
  unfold units
  rw [hunpack]
  exact ⟨hnear.lower, hnear.upper⟩

/-- A quotient is finite unless it is larger than all floats. -/
theorem div_isFinite (hx : x.isFinite = true) (hy : y.isFinite = true) (hzero : units y ≠ 0)
    (hsize : (units x).natAbs.log2 ≤ (units y).natAbs.log2 + 1022) : (x / y).isFinite = true :=
  div_proper ((proper_iff x).mp hx) ((proper_iff y).mp hy) hzero hsize

end Floats

end IconConstraints
