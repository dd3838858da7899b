import IconConstraints.Proofs.FloatRounding

/-!
# Numerically equal floats

Two floats are the same number if they are equal or both are zeros.  Differences of the same
numbers are the same number, and so are quotients by a number that is no zero.  Neither is
ever no number, whether it is too large for a float or not.
-/

namespace IconConstraints

open Float.Model (Format UnpackedFloat)
open Float.Model.UnpackedFloat

/-! ## Results that are numbers -/

theorem unpack_pack_ne_nan {u : UnpackedFloat} (h : u ≠ .notANumber) :
    (Float.Model.pack u).unpack ≠ .notANumber := by
  cases u with
  | notANumber => exact absurd rfl h
  | infinity s => cases s <;> exact UnpackedFloat.noConfusion
  | zero s => cases s <;> exact UnpackedFloat.noConfusion
  | finite s m e hpos =>
      intro hnan
      by_cases he : e ≤ 971
      · have hfinite := isFinite_pack he s hpos
        unfold Float.Model.isFinite at hfinite
        rw [hnan] at hfinite
        cases hfinite
      · have hlarge : 2 ^ Format.binary64.exponentBits ≤ (e + Format.binary64.exponentBias +
            Format.binary64.mantissaBitsWithoutImplicit).toNat + 1 := by
          change 2048 ≤ (e + (1023 : Nat) + (52 : Nat)).toNat + 1
          omega
        change unpack Format.binary64 (pack Format.binary64 (.finite s m e hpos)) = _ at hnan
        unfold pack at hnan
        rw [if_pos hlarge] at hnan
        cases s <;> cases hnan

theorem roundWithAccuracy_ne_nan (s : Sign) (m : Nat) (e : Int) (a : Accuracy) :
    roundWithAccuracy Format.binary64 s m e a ≠ .notANumber := by
  obtain ⟨r, -, -, -, hround⟩ := roundWithAccuracy_eq s m e a
  rw [hround]
  by_cases hzero : r / 2 ^ shiftOf r (e + shiftOf m e) = 0
  · rw [dif_pos hzero]; exact UnpackedFloat.noConfusion
  · rw [dif_neg hzero]; exact UnpackedFloat.noConfusion

theorem normalize_ne_nan (m e : Int) (zeroSign : Sign) :
    UnpackedFloat.normalize Format.binary64 m e zeroSign ≠ .notANumber := by
  unfold UnpackedFloat.normalize
  cases compare m 0 with
  | lt => rw [round_eq]; exact roundWithAccuracy_ne_nan _ _ _ _
  | eq => exact UnpackedFloat.noConfusion
  | gt => rw [round_eq]; exact roundWithAccuracy_ne_nan _ _ _ _

theorem sub_ne_nan {u v : UnpackedFloat} (hu : Proper u) (hv : Proper v) :
    UnpackedFloat.sub Format.binary64 u v ≠ .notANumber := by
  cases hu using Proper.cases with
  | zero s =>
      cases hv using Proper.cases with
      | zero t => cases s <;> cases t <;> exact UnpackedFloat.noConfusion
      | finite => exact UnpackedFloat.noConfusion
  | finite =>
      cases hv using Proper.cases with
      | zero => exact UnpackedFloat.noConfusion
      | finite => exact normalize_ne_nan _ _ _

theorem div_ne_nan {u v : UnpackedFloat} (hu : Proper u) (hv : Proper v)
    (hzero : unpackedUnits v ≠ 0) : UnpackedFloat.div Format.binary64 u v ≠ .notANumber := by
  cases hv using Proper.cases with
  | zero => exact absurd rfl hzero
  | finite =>
      cases hu using Proper.cases with
      | zero => exact UnpackedFloat.noConfusion
      | finite => exact roundWithAccuracy_ne_nan _ _ _ _

/-! ## Equality up to the sign of zero -/

/-- The same result, but for the sign of a zero. -/
inductive Agree : UnpackedFloat → UnpackedFloat → Prop where
  | refl (u : UnpackedFloat) : Agree u u
  | zeros (s t : Sign) : Agree (.zero s) (.zero t)

theorem Canonical.eq_of_unitsOf_eq {m n : Nat} {e f : Int} (h₁ : Canonical m e)
    (h₂ : Canonical n f) (h : unitsOf m e = unitsOf n f) : m = n ∧ e = f := by
  have hcompare := Canonical.compare_eq h₁ h₂
  rw [compare_eq_iff_eq.mpr h, Ordering.then_eq_eq, compare_eq_iff_eq, compare_eq_iff_eq]
    at hcompare
  exact hcompare.symm

theorem apply_injective {s t : Sign} {m n : Nat} (hm : 0 < m) (hn : 0 < n)
    (h : s.apply (m : Int) = t.apply (n : Int)) : s = t ∧ m = n := by
  cases s <;> cases t <;> simp only [Sign.apply] at h <;> first | exact ⟨rfl, by omega⟩ | omega

theorem apply_ne_zero {m : Nat} (hm : 0 < m) (s : Sign) : s.apply (m : Int) ≠ 0 := by
  cases s <;> simp only [Sign.apply] <;> omega

theorem agree_of_units {u v : UnpackedFloat} (hu : Proper u) (hv : Proper v)
    (h : unpackedUnits u = unpackedUnits v) : Agree u v := by
  cases hu using Proper.cases with
  | zero s =>
      cases hv using Proper.cases with
      | zero t => exact .zeros s t
      | finite t n f hn hv => exact absurd h.symm (apply_ne_zero (unitsOf_pos hn f) t)
  | finite s m e hm hu =>
      cases hv using Proper.cases with
      | zero t => exact absurd h (apply_ne_zero (unitsOf_pos hm e) s)
      | finite t n f hn hv =>
          obtain ⟨rfl, hmagnitude⟩ := apply_injective (unitsOf_pos hm e) (unitsOf_pos hn f) h
          obtain ⟨rfl, rfl⟩ := Canonical.eq_of_unitsOf_eq hu hv hmagnitude
          exact .refl _

namespace Agree

variable {u u' v v' : UnpackedFloat}

theorem symm (h : Agree u v) : Agree v u := by
  cases h with
  | refl => exact .refl u
  | zeros s t => exact .zeros t s

theorem trans {w : UnpackedFloat} (h : Agree u v) (h' : Agree v w) : Agree u w := by
  cases h with
  | refl => exact h'
  | zeros s t =>
      cases h' with
      | refl => exact .zeros s t
      | zeros _ t' => exact .zeros s t'

theorem units_eq (h : Agree u v) : unpackedUnits u = unpackedUnits v := by
  cases h <;> rfl

theorem eq_of_units_ne_zero (h : Agree u v) (hzero : unpackedUnits u ≠ 0) : u = v := by
  cases h with
  | refl => rfl
  | zeros => exact absurd rfl hzero

theorem sub (h : Agree u u') (h' : Agree v v') :
    Agree (UnpackedFloat.sub Format.binary64 u v) (UnpackedFloat.sub Format.binary64 u' v') := by
  -- A zero can only change the sign of another zero.
  have hzeros : ∀ s t s' t', Agree (UnpackedFloat.sub Format.binary64 (.zero s) (.zero t))
      (UnpackedFloat.sub Format.binary64 (.zero s') (.zero t')) := by
    intro s t s' t'
    cases s <;> cases t <;> cases s' <;> cases t' <;> exact .zeros _ _
  cases h with
  | refl =>
      cases h' with
      | refl => exact .refl _
      | zeros s t =>
          cases u with
          | zero r => exact hzeros r s r t
          | notANumber => exact .refl _
          | infinity => exact .refl _
          | finite => exact .refl _
  | zeros s t =>
      cases h' with
      | zeros s' t' => exact hzeros s s' t t'
      | refl =>
          cases v with
          | zero r => exact hzeros s r t r
          | notANumber => exact .refl _
          | infinity => exact .refl _
          | finite => exact .refl _

theorem div (h : Agree u u') (h' : Agree v v') (hzero : unpackedUnits v ≠ 0) :
    Agree (UnpackedFloat.div Format.binary64 u v) (UnpackedFloat.div Format.binary64 u' v') := by
  obtain rfl := h'.eq_of_units_ne_zero hzero
  cases h with
  | refl => exact .refl _
  | zeros s t =>
      cases v with
      | notANumber => exact absurd rfl hzero
      | infinity => exact absurd rfl hzero
      | zero => exact absurd rfl hzero
      | finite => exact .zeros _ _

theorem pack (h : Agree u v) : Agree (Float.Model.pack u).unpack (Float.Model.pack v).unpack := by
  cases h with
  | refl => exact .refl _
  | zeros s t =>
      have hpacked : ∀ r, (Float.Model.pack (.zero r)).unpack = .zero r :=
        fun r => unpack_pack_of_proper (u := .zero r) trivial
      rw [hpacked s, hpacked t]
      exact .zeros s t

theorem beq (h : Agree u v) (hnan : u ≠ .notANumber) : u.beq v = true := by
  cases h with
  | zeros => rfl
  | refl =>
      cases u with
      | notANumber => exact absurd rfl hnan
      | infinity s => cases s <;> rfl
      | zero => rfl
      | finite s m e =>
          unfold UnpackedFloat.beq UnpackedFloat.compare
          cases s <;> simp

end Agree

theorem sub_self_zero {u : UnpackedFloat} (hu : Proper u) :
    ∃ s, UnpackedFloat.sub Format.binary64 u u = .zero s := by
  cases hu using Proper.cases with
  | zero s => cases s <;> exact ⟨_, rfl⟩
  | finite s m e =>
      refine ⟨.positive, ?_⟩
      unfold UnpackedFloat.sub
      dsimp only
      rw [Int.sub_self]
      rfl

theorem div_self_one {u : UnpackedFloat} (hu : Proper u) (hzero : unpackedUnits u ≠ 0) :
    UnpackedFloat.div Format.binary64 u u = .finite .positive (2 ^ 52) (-52) (by decide) := by
  cases hu using Proper.cases with
  | zero => exact absurd rfl hzero
  | finite s m e hm hu =>
      have hsign : s / s = .positive := by cases s <;> rfl
      have hquotient : divCore Format.binary64 m e m e = (2 ^ 53, -53, .exact) := by
        have hshift : (0 - min (0 : Int) (Format.binary64.targetExponent 0)).toNat = 53 := rfl
        simp only [divCore, sub_self]
        rw [hshift, Nat.shiftLeft_eq, Nat.mul_div_cancel_left _ hm, Nat.mul_mod_right]
        rfl
      unfold UnpackedFloat.div
      dsimp only
      rw [hquotient, hsign]
      rfl

section Floats

variable {x x' y y' : Float}

theorem not_isNaN_iff : x.isNaN = false ↔ x.toModel.unpack ≠ .notANumber := by
  change x.toModel.unpack.isNaN = false ↔ _
  cases x.toModel.unpack with
  | notANumber => exact iff_of_false Bool.noConfusion (absurd rfl)
  | _ => exact iff_of_true rfl UnpackedFloat.noConfusion

theorem not_isNaN_sub (hx : x.isFinite = true) (hy : y.isFinite = true) : (x - y).isNaN = false :=
  not_isNaN_iff.mpr
    (unpack_pack_ne_nan (sub_ne_nan ((proper_iff x).mp hx) ((proper_iff y).mp hy)))

theorem not_isNaN_div (hx : x.isFinite = true) (hy : y.isFinite = true) (hzero : units y ≠ 0) :
    (x / y).isNaN = false :=
  not_isNaN_iff.mpr
    (unpack_pack_ne_nan (div_ne_nan ((proper_iff x).mp hx) ((proper_iff y).mp hy) hzero))

theorem zero_unpack : (0.0 : Float).toModel.unpack = .zero .positive :=
  rfl

theorem pos_of_not_le_zero (hx : x.isNaN = false) (h : ¬ x ≤ 0.0) : 0.0 < x := by
  rw [le_iff_compare, zero_unpack] at h
  rw [lt_iff_compare, zero_unpack]
  cases hu : x.toModel.unpack with
  | notANumber => exact absurd hu (not_isNaN_iff.mp hx)
  | infinity s =>
      rw [hu] at h
      cases s with
      | negative => exact absurd rfl h
      | positive => rfl
  | zero => rw [hu] at h; exact absurd rfl h
  | finite s =>
      rw [hu] at h
      cases s with
      | negative => exact absurd rfl h
      | positive => rfl

/-- Floats that stand for one number. -/
def SameNumber (x y : Float) : Prop :=
  Agree x.toModel.unpack y.toModel.unpack

namespace SameNumber

variable {z : Float}

theorem refl (x : Float) : SameNumber x x :=
  Agree.refl _

theorem symm (h : SameNumber x y) : SameNumber y x :=
  Agree.symm h

theorem trans (h : SameNumber x y) (h' : SameNumber y z) : SameNumber x z :=
  Agree.trans h h'

theorem units_eq (h : SameNumber x y) : units x = units y :=
  Agree.units_eq h

theorem of_le_of_le (hx : x.isFinite = true) (hy : y.isFinite = true) (hxy : x ≤ y)
    (hyx : y ≤ x) : SameNumber x y := by
  rw [le_iff_units hx hy] at hxy
  rw [le_iff_units hy hx] at hyx
  exact agree_of_units ((proper_iff x).mp hx) ((proper_iff y).mp hy) (le_antisymm hxy hyx)

theorem le_zero_iff (h : SameNumber x y) (hx : x.isFinite = true) (hy : y.isFinite = true) :
    x ≤ 0.0 ↔ y ≤ 0.0 := by
  rw [le_iff_units hx (by decide +kernel), le_iff_units hy (by decide +kernel), h.units_eq]

theorem sub (h : SameNumber x x') (h' : SameNumber y y') : SameNumber (x - y) (x' - y') :=
  (Agree.sub h h').pack

theorem div (h : SameNumber x x') (h' : SameNumber y y') (hzero : units y ≠ 0) :
    SameNumber (x / y) (x' / y') :=
  (Agree.div h h' hzero).pack

theorem beq (h : SameNumber x y) (hnan : x.isNaN = false) : (x == y) = true :=
  Agree.beq h (not_isNaN_iff.mp hnan)

theorem sub_self (hx : x.isFinite = true) : SameNumber (x - x) 0.0 := by
  obtain ⟨s, hs⟩ := sub_self_zero ((proper_iff x).mp hx)
  exact (hs ▸ Agree.zeros s .positive : Agree (UnpackedFloat.sub _ _ _) _).pack

theorem div_self (hx : x.isFinite = true) (hzero : units x ≠ 0) : SameNumber (x / x) 1.0 := by
  have hone : (1.0 : Float).toModel.unpack = .finite .positive (2 ^ 52) (-52) (by decide) := rfl
  have hquotient := div_self_one ((proper_iff x).mp hx) hzero
  have hpacked : (x / x).toModel.unpack = _ :=
    (congrArg (fun u => (Float.Model.pack u).unpack) hquotient).trans
      (unpack_pack_of_proper (hone ▸ (proper_iff 1.0).mp (by decide +kernel)))
  unfold SameNumber
  rw [hpacked, hone]
  exact .refl _

theorem zero_div (hy : y.isFinite = true) (hzero : units y ≠ 0) : SameNumber (0.0 / y) 0.0 := by
  have hquotient : ∃ s, UnpackedFloat.div Format.binary64 (.zero .positive) y.toModel.unpack =
      .zero s := by
    rw [proper_iff] at hy
    unfold units at hzero
    cases hu : y.toModel.unpack with
    | notANumber => rw [hu] at hy; exact hy.elim
    | infinity => rw [hu] at hy; exact hy.elim
    | zero => rw [hu] at hzero; exact absurd rfl hzero
    | finite => exact ⟨_, rfl⟩
  obtain ⟨s, hs⟩ := hquotient
  exact (hs ▸ Agree.zeros s .positive : Agree (UnpackedFloat.div _ _ _) _).pack

end SameNumber

end Floats

end IconConstraints
