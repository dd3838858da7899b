import IconConstraints.Proofs.FloatRounding

/-!
# Integers as floats

An integer that is taken for a float becomes the nearest one, and of two equally near ones
the even one.  Up to 53 bits it stays what it was; beyond that several integers become one
float.
-/

namespace IconConstraints

open Float.Model (Format UnpackedFloat)
open Float.Model.UnpackedFloat

/-- The nearest integer whose size has 53 bits before its trailing zeros. -/
def nearestInt (n : Int) : Int :=
  n.sign * nearest n.natAbs

theorem nearestInt_ofNat (n : Nat) : nearestInt n = nearest n := by
  rcases Nat.eq_zero_or_pos n with rfl | hpos
  · simp [nearestInt, nearest_of_lt]
  · rw [nearestInt, Int.sign_natCast_of_ne_zero hpos.ne', Int.natAbs_natCast, Int.one_mul]

theorem nearestInt_neg (n : Int) : nearestInt (-n) = -nearestInt n := by
  rw [nearestInt, Int.sign_neg, Int.natAbs_neg, Int.neg_mul]
  rfl

theorem nearestInt_of_natAbs_le {n : Int} (h : n.natAbs ≤ 2 ^ 53) : nearestInt n = n := by
  have hnearest : nearest n.natAbs = n.natAbs := by
    rcases Nat.lt_or_eq_of_le h with hlt | heq
    · exact nearest_of_lt hlt
    · rw [heq]
      decide +kernel
  rw [nearestInt, hnearest, Int.sign_mul_natAbs]

theorem nearestInt_mono {m n : Int} (h : m ≤ n) : nearestInt m ≤ nearestInt n := by
  obtain ⟨a, rfl | rfl⟩ := Int.eq_nat_or_neg m <;> obtain ⟨b, rfl | rfl⟩ := Int.eq_nat_or_neg n <;>
    simp only [nearestInt_neg, nearestInt_ofNat]
  · exact Int.ofNat_le.mpr (nearest_mono (Int.ofNat_le.mp h))
  · obtain rfl : a = 0 := by omega
    obtain rfl : b = 0 := by omega
    simp [nearest_of_lt]
  · omega
  · exact Int.neg_le_neg (Int.ofNat_le.mpr (nearest_mono (by omega)))

/-- Only one integer is rounded to a number of less than 53 bits. -/
theorem eq_of_nearestInt_eq {m n : Int} (hn : n.natAbs < 2 ^ 53)
    (h : nearestInt m = nearestInt n) : m = n := by
  have hkept := nearestInt_of_natAbs_le (n := n) (by omega)
  have habove := nearestInt_of_natAbs_le (n := n + 1) (by omega)
  have hbelow := nearestInt_of_natAbs_le (n := n - 1) (by omega)
  rcases lt_trichotomy m n with hlt | heq | hgt
  · have hmono := nearestInt_mono (show m ≤ n - 1 by omega)
    omega
  · exact heq
  · have hmono := nearestInt_mono (show n + 1 ≤ m by omega)
    omega

/-! ## Conversion -/

/-- The units of the number one. -/
@[irreducible] def unitsOfOne : Nat :=
  unitsOf 1 0

theorem unitsOf_natural (n : Nat) : unitsOf n 0 = n * unitsOfOne := by
  unfold unitsOfOne unitsOf
  rw [Nat.one_mul]

theorem unitsOfOne_pos : 0 < unitsOfOne := by
  rw [← Nat.one_mul unitsOfOne, ← unitsOf_natural]
  exact unitsOf_pos Nat.one_pos 0

theorem nearest_mul_unitsOfOne (n : Nat) : nearest (n * unitsOfOne) = nearest n * unitsOfOne := by
  rw [← unitsOf_natural, ← unitsOf_natural]
  exact nearest_mul n _

theorem nearestInt_ones (n : Int) : nearestInt (n * unitsOfOne) = nearestInt n * unitsOfOne := by
  have hnat : ∀ a : Nat, nearestInt ((a : Int) * unitsOfOne) = nearestInt a * unitsOfOne :=
    fun a => by
      rw [← Nat.cast_mul, nearestInt_ofNat, nearestInt_ofNat, nearest_mul_unitsOfOne, Nat.cast_mul]
  obtain ⟨a, rfl | rfl⟩ := Int.eq_nat_or_neg n
  · exact hnat a
  · rw [Int.neg_mul, nearestInt_neg, nearestInt_neg, hnat, Int.neg_mul]

theorem roundWithAccuracy_of_long {m : Nat} (e : Int) (hlong : 52 ≤ m.log2) (s : Sign) :
    roundWithAccuracy Format.binary64 s m e .exact = round Format.binary64 s m e := by
  have hkept : (e - max ((m.log2 : Int) + e - 52) (-1074)).toNat = 0 := by omega
  rw [round_eq, hkept, Nat.pow_zero, Nat.mul_one, Int.natCast_zero, Int.sub_zero]

theorem one_unpack :
    (1.0 : Float).toModel.unpack = .finite .positive (2 ^ 52) (-52) (by decide) :=
  rfl

/-- What a natural number has become as a float. -/
structure IsRounded (n : Nat) (u : UnpackedFloat) : Prop where
  proper : Proper u
  units : unpackedUnits u = (nearest n * unitsOfOne : Nat)

theorem isRounded_round {n m : Nat} {e : Int} (hpos : 0 < m) (he : -1074 ≤ e)
    (hsize : (m.log2 : Int) + e ≤ 1022) (hunits : unitsOf m e = n * unitsOfOne) :
    ∃ r f, ∃ hr : 0 < r, (Float.Model.pack (round Format.binary64 .positive m e)).unpack =
      .finite .positive r f hr ∧ IsRounded n (.finite .positive r f hr) := by
  obtain ⟨r, f, hr, hround, hcanonical, hrounded, -, -⟩ := round_canonical hpos he hsize .positive
  rw [hunits, nearest_mul_unitsOfOne] at hrounded
  rw [hround, unpack_pack hcanonical]
  exact ⟨r, f, hr, rfl, hcanonical, congrArg Int.ofNat hrounded⟩

/-- Up to 53 bits the number is converted first and then multiplied by one. -/
theorem ofNat_of_lt {n : Nat} (h : n < 2 ^ 53) :
    Float.ofNat n = Float.ofModel (Float.Model.ofUInt64 n.toUInt64) * 1.0 := by
  change Float.ofScientific n false 0 = _
  unfold Float.ofScientific
  rw [dif_pos ⟨h, by decide⟩]
  rfl

/-- A longer number is rounded at once. -/
theorem ofNat_of_ge {n : Nat} (h : 2 ^ 53 ≤ n) :
    Float.ofNat n = Float.ofModel (Float.Model.pack
      (roundWithAccuracy Format.binary64 .positive (n * 2 ^ 53) (-53) .exact)) := by
  have hsize : ¬ (0 : Int) < -(2 ^ Format.binary64.exponentBits + (n.log2 : Int)) := by
    change ¬ (0 : Int) < -(2 ^ 11 + (n.log2 : Int))
    omega
  change Float.ofScientific n false 0 = _
  unfold Float.ofScientific
  rw [dif_neg fun hfast => Nat.not_lt.mpr h hfast.1]
  change Float.ofModel (Float.Model.pack (UnpackedFloat.ofScientific Format.binary64 n 0)) = _
  unfold UnpackedFloat.ofScientific
  rw [dif_neg (by omega), if_neg (by decide), if_neg hsize, if_pos (by decide)]
  change Float.ofModel (Float.Model.pack
    (roundWithAccuracy Format.binary64 .positive ((n <<< 53) * 1) (-53) .exact)) = _
  rw [Nat.mul_one, Nat.shiftLeft_eq]

theorem ofNat_zero_unpack : (Float.ofNat 0).toModel.unpack = .zero .positive :=
  rfl

theorem log2_add_of_ones {m n : Nat} {e : Int} (hm : 0 < m) (he : -1074 ≤ e) (hn : 0 < n)
    (h : unitsOf m e = n * unitsOfOne) : (m.log2 : Int) + e = n.log2 := by
  have hleft := log2_unitsOf hm he
  have hright := log2_unitsOf hn (e := 0) (by decide)
  rw [h, ← unitsOf_natural] at hleft
  omega

theorem isRounded_ofNat_of_lt {n : Nat} (hpos : 0 < n) (hn : n < 2 ^ 53) :
    IsRounded n (Float.ofNat n).toModel.unpack := by
  have hword : n.toUInt64.toNat = n := Nat.mod_eq_of_lt (by omega)
  have hlog := log2_le_of_lt hn
  have hconverted : UnpackedFloat.ofUInt64 Format.binary64 n.toUInt64 =
      round Format.binary64 .positive n 0 := by
    change UnpackedFloat.normalize Format.binary64 (n.toUInt64.toNat : Int) 0 .positive = _
    unfold UnpackedFloat.normalize
    rw [hword, compare_gt_iff_gt.mpr (Int.natCast_pos.mpr hpos)]
    rfl
  obtain ⟨r, f, hr, hpacked, hcanonical, hunits⟩ := isRounded_round (n := n) hpos (e := 0)
    (by decide) (by omega) (unitsOf_natural n)
  have hones : unitsOf r f = n * unitsOfOne := by
    rw [nearest_of_lt hn] at hunits
    exact Int.ofNat_inj.mp hunits
  have hsize := log2_add_of_ones hr hcanonical.least hpos hones
  have hshort := log2_le_of_lt hcanonical.fits
  have hlong := log2_mul_two_pow hr.ne' 52
  obtain ⟨r', f', hr', hproduct, hrounded⟩ := isRounded_round (n := n) (e := f - 52)
    (Nat.mul_pos hr (Nat.two_pow_pos 52)) (by omega) (by omega)
    ((unitsOf_lengthened (a := 52) r (by omega)).trans hones)
  rw [ofNat_of_lt hn]
  change IsRounded n (Float.Model.pack (UnpackedFloat.mul Format.binary64
    (Float.Model.pack (UnpackedFloat.ofUInt64 Format.binary64 n.toUInt64)).unpack
    (1.0 : Float).toModel.unpack)).unpack
  rw [hconverted, hpacked, one_unpack]
  change IsRounded n (Float.Model.pack (roundWithAccuracy Format.binary64 .positive
    (r * 2 ^ 52) (f - 52) .exact)).unpack
  rw [roundWithAccuracy_of_long _ (by omega), hproduct]
  exact hrounded

theorem isRounded_ofNat_of_ge {n : Nat} (hlow : 2 ^ 53 ≤ n) (hn : n < 2 ^ 64) :
    IsRounded n (Float.ofNat n).toModel.unpack := by
  have hpos : 0 < n := by omega
  have hlog := log2_le_of_lt hn
  have hlong := log2_mul_two_pow hpos.ne' 53
  have hunits : unitsOf (n * 2 ^ 53) (-53) = n * unitsOfOne :=
    (unitsOf_lengthened (e := 0) n (by decide)).trans (unitsOf_natural n)
  obtain ⟨r, f, hr, hpacked, hrounded⟩ := isRounded_round (n := n)
    (Nat.mul_pos hpos (Nat.two_pow_pos 53)) (by decide) (by omega) hunits
  rw [ofNat_of_ge hlow, roundWithAccuracy_of_long _ (by omega)]
  change IsRounded n (Float.Model.pack (round Format.binary64 .positive (n * 2 ^ 53) (-53))).unpack
  rw [hpacked]
  exact hrounded

theorem isRounded_ofNat {n : Nat} (hn : n < 2 ^ 64) :
    IsRounded n (Float.ofNat n).toModel.unpack := by
  rcases Nat.eq_zero_or_pos n with rfl | hpos
  · rw [ofNat_zero_unpack]
    exact ⟨trivial, by rw [nearest_of_lt (by decide), Nat.zero_mul]; rfl⟩
  · rcases Nat.lt_or_ge n (2 ^ 53) with hsmall | hlarge
    · exact isRounded_ofNat_of_lt hpos hsmall
    · exact isRounded_ofNat_of_ge hlarge hn

/-! ## Signs -/

theorem Proper.neg {u : UnpackedFloat} (h : Proper u) : Proper u.neg := by
  cases u <;> exact h

theorem unpackedUnits_unpackedNeg (u : UnpackedFloat) :
    unpackedUnits u.neg = -unpackedUnits u := by
  cases u with
  | finite s m e hm => exact unpackedUnits_neg s hm
  | _ => rfl

theorem neg_unpack {x : Float} (h : Proper x.toModel.unpack) :
    (-x).toModel.unpack = x.toModel.unpack.neg :=
  unpack_pack_of_proper h.neg

theorem ofInt_rounded {n : Int} (hn : n.natAbs < 2 ^ 64) :
    (Float.ofInt n).isFinite = true ∧ units (Float.ofInt n) = nearestInt n * unitsOfOne := by
  rw [proper_iff]
  cases n with
  | ofNat k =>
      obtain ⟨hproper, hunits⟩ := isRounded_ofNat (n := k) hn
      refine ⟨hproper, hunits.trans ?_⟩
      rw [Int.ofNat_eq_natCast, nearestInt_ofNat, Nat.cast_mul]
  | negSucc k =>
      obtain ⟨hproper, hunits⟩ := isRounded_ofNat (n := k + 1) hn
      have hneg : (Float.ofInt (Int.negSucc k)).toModel.unpack =
          (Float.ofNat (k + 1)).toModel.unpack.neg := neg_unpack hproper
      unfold units
      rw [hneg, unpackedUnits_unpackedNeg, hunits, Int.negSucc_eq, ← Int.natCast_succ,
        nearestInt_neg, nearestInt_ofNat, Nat.cast_mul, Int.neg_mul]
      exact ⟨hproper.neg, rfl⟩

end IconConstraints
