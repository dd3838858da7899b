import Mathlib.Algebra.Group.Nat.Defs
import IconConstraints.Scalar

/-!
# Bits and values of scalars

The logical model of floats takes a word of 64 bits apart and puts it together
again.  This is lossless for every word that is no NaN, so that the comparison of
a scalar with zero is a statement about its bits: there are exactly two words that
compare equal to zero.
-/

namespace IconConstraints.Scalar

open Float.Model (Format UnpackedFloat)
open Float.Model.UnpackedFloat

/-! ## Taking words apart and putting them together -/

private theorem packComponents_unpack (b : BitVec Format.binary64.numBits) :
    packComponents Format.binary64 (Sign.ofBitVec (unpackSign b))
      (unpackExponent b) (unpackMantissa b) = b := by
  have hsign : (Sign.ofBitVec (unpackSign b)).toBitVec = unpackSign b := by
    generalize unpackSign b = s
    revert s
    decide
  rw [packComponents, hsign]
  unfold unpackSign unpackExponent unpackMantissa BitVec.extractLsb
  ext i hi
  simp only [BitVec.getElem_append, BitVec.getElem_cast, BitVec.getElem_extractLsb']
  rw [← BitVec.getLsbD_eq_getElem]
  split
  · rw [Nat.zero_add]
  · split <;> congr 1 <;> omega

theorem implicit_bit_append (m : BitVec 52) :
    (1#1 ++ m).toNat = 2 ^ 52 + m.toNat := by
  rw [BitVec.toNat_append, ← Nat.shiftLeft_add_eq_or_of_lt m.isLt]
  simp [Nat.shiftLeft_eq]

theorem pack_subnormal (s : Sign) (m : BitVec 52) (e : Int)
    (hpos : 0 < m.toNat) (he : e = -1074) :
    pack Format.binary64 (.finite s m.toNat e hpos) =
      packComponents Format.binary64 s 0 m := by
  subst he
  have hlog : m.toNat.log2 < 52 := (Nat.log2_lt (Nat.ne_of_gt hpos)).mpr m.isLt
  have hbits : ¬ m.toNat.log2 + 1 = Format.binary64.mantissaBits := by
    change ¬ m.toNat.log2 + 1 = 53
    omega
  have hexponent : ¬ 2 ^ Format.binary64.exponentBits ≤
      ((-1074 : Int) + Format.binary64.exponentBias +
        Format.binary64.mantissaBitsWithoutImplicit).toNat + 1 := by decide
  unfold pack
  rw [if_neg hexponent, if_neg hbits, BitVec.ofNat_toNat, BitVec.setWidth_eq]
  rfl

theorem pack_normal (s : Sign) (e : BitVec 11) (m : BitVec 52) (x : Int)
    (hpos : 0 < (1#1 ++ m).toNat) (hx : x = (e.toNat : Int) - 1075)
    (hspecial : e.toNat < 2047) :
    pack Format.binary64 (.finite s (1#1 ++ m).toNat x hpos) =
      packComponents Format.binary64 s e m := by
  subst hx
  have hm := m.isLt
  have happend := implicit_bit_append m
  have hlower : 52 ≤ (1#1 ++ m).toNat.log2 := (Nat.le_log2 (Nat.ne_of_gt hpos)).mpr (by omega)
  have hupper : (1#1 ++ m).toNat.log2 < 53 := (Nat.log2_lt (Nat.ne_of_gt hpos)).mpr (by omega)
  have hbits : (1#1 ++ m).toNat.log2 + 1 = Format.binary64.mantissaBits := by
    change (1#1 ++ m).toNat.log2 + 1 = 53
    omega
  have hstored : ((e.toNat : Int) - 1075 + Format.binary64.exponentBias +
      Format.binary64.mantissaBitsWithoutImplicit).toNat = e.toNat := by
    change ((e.toNat : Int) - 1075 + (1023 : Nat) + (52 : Nat)).toNat = e.toNat
    omega
  have hfits : ¬ 2 ^ Format.binary64.exponentBits ≤ e.toNat + 1 := by
    change ¬ 2048 ≤ e.toNat + 1
    omega
  have hmantissa : BitVec.ofNat 52 (1#1 ++ m).toNat = m := by
    apply BitVec.eq_of_toNat_eq
    rw [BitVec.toNat_ofNat]
    omega
  unfold pack
  rw [hstored, if_neg hfits, if_pos hbits, BitVec.ofNat_toNat, BitVec.setWidth_eq]
  exact congrArg _ hmantissa

/-- What the fields of a word say about the number that it stands for. -/
inductive Stored (b : BitVec Format.binary64.numBits) : UnpackedFloat → Prop where
  | infinity : (unpackExponent b : BitVec 11) = -1#11 → (unpackMantissa b : BitVec 52) = 0#52 →
      Stored b (.infinity (Sign.ofBitVec (unpackSign b)))
  | notANumber : (unpackExponent b : BitVec 11) = -1#11 → (unpackMantissa b : BitVec 52) ≠ 0#52 →
      Stored b .notANumber
  | zero : (unpackExponent b : BitVec 11) = 0#11 → (unpackMantissa b : BitVec 52) = 0#52 →
      Stored b (.zero (Sign.ofBitVec (unpackSign b)))
  | subnormal (hpos : 0 < (unpackMantissa b : BitVec 52).toNat) :
      (unpackExponent b : BitVec 11) = 0#11 →
      Stored b (.finite (Sign.ofBitVec (unpackSign b)) (unpackMantissa b : BitVec 52).toNat (-1074) hpos)
  | normal (hpos : 0 < (1#1 ++ (unpackMantissa b : BitVec 52)).toNat) :
      (unpackExponent b : BitVec 11).toNat < 2047 → (unpackExponent b : BitVec 11).toNat ≠ 0 →
      Stored b (.finite (Sign.ofBitVec (unpackSign b)) (1#1 ++ (unpackMantissa b : BitVec 52)).toNat
        ((unpackExponent b : BitVec 11).toNat - 1075) hpos)

theorem unpack_stored (b : BitVec Format.binary64.numBits) : Stored b (unpack Format.binary64 b) := by
  unfold unpack
  dsimp only
  by_cases hspecial : (unpackExponent b : BitVec 11) = -1#11
  · rw [if_pos hspecial]
    by_cases hmantissa : (unpackMantissa b : BitVec 52) = 0#52
    · rw [if_pos hmantissa]
      exact .infinity hspecial hmantissa
    · rw [if_neg hmantissa]
      exact .notANumber hspecial hmantissa
  · rw [if_neg hspecial]
    by_cases hzero : (unpackExponent b : BitVec 11) = 0#11
    · rw [if_pos hzero]
      by_cases hmantissa : (unpackMantissa b : BitVec 52) = 0#52
      · rw [dif_pos hmantissa]
        exact .zero hzero hmantissa
      · rw [dif_neg hmantissa, hzero]
        exact .subnormal _ hzero
    · rw [if_neg hzero]
      have hbound : (unpackExponent b : BitVec 11).toNat < 2048 := (unpackExponent b).isLt
      have hne : (unpackExponent b : BitVec 11).toNat ≠ 2047 := fun heq =>
        hspecial (BitVec.eq_of_toNat_eq heq)
      exact .normal _ (by omega) fun heq => hzero (BitVec.eq_of_toNat_eq heq)

/-- Only a NaN loses bits. -/
private theorem pack_unpack (b : BitVec Format.binary64.numBits)
    (h : unpack Format.binary64 b ≠ .notANumber) :
    pack Format.binary64 (unpack Format.binary64 b) = b := by
  have hself := packComponents_unpack b
  have hstored := unpack_stored b
  generalize unpack Format.binary64 b = u at h hstored ⊢
  cases hstored with
  | notANumber => exact absurd rfl h
  | infinity hexponent hmantissa | zero hexponent hmantissa =>
      rw [hexponent, hmantissa] at hself
      exact hself
  | subnormal hpos hexponent =>
      rw [hexponent] at hself
      exact (pack_subnormal _ _ _ hpos rfl).trans hself
  | normal hpos hspecial => exact (pack_normal _ _ _ _ hpos rfl hspecial).trans hself

private theorem unpack_pack_unpack (b : BitVec Format.binary64.numBits) :
    unpack Format.binary64 (pack Format.binary64 (unpack Format.binary64 b)) =
      unpack Format.binary64 b := by
  by_cases h : unpack Format.binary64 b = .notANumber
  · rw [h]
    rfl
  · rw [pack_unpack b h]

/-! ## The two zeros -/

private theorem unpack_beq_zero (b : BitVec Format.binary64.numBits) :
    (unpack Format.binary64 b).beq (.zero .positive) = true ↔
      b = packedZero Format.binary64 .positive ∨
        b = packedZero Format.binary64 .negative := by
  constructor
  · intro h
    have hself := pack_unpack b
    cases hu : unpack Format.binary64 b with
    | notANumber =>
        rw [hu] at h
        cases h
    | infinity s =>
        rw [hu] at h
        cases s <;> cases h
    | finite s m e hm =>
        rw [hu] at h
        cases s <;> cases h
    | zero s =>
        rw [hu] at hself
        have hb := hself (by simp)
        cases s
        · exact Or.inr hb.symm
        · exact Or.inl hb.symm
  · rintro (rfl | rfl) <;> rfl

theorem toFloat_beq_zero (s : Scalar) :
    (s.toFloat == 0.0) = true ↔ s.bits = 0 ∨ s.bits = signBit := by
  have hword : (s.toFloat == 0.0) =
      (unpack Format.binary64 s.bits.toBitVec).beq (.zero .positive) := by
    rw [← unpack_pack_unpack]
    rfl
  rw [hword, unpack_beq_zero]
  exact or_congr
    ⟨fun h => UInt64.eq_of_toBitVec_eq h, fun h => congrArg UInt64.toBitVec h⟩
    ⟨fun h => UInt64.eq_of_toBitVec_eq h, fun h => congrArg UInt64.toBitVec h⟩

/-! ## Floats as scalars -/

private theorem pack_unpack_of_valid (b : BitVec Format.binary64.numBits)
    (h : Format.binary64.Valid b) :
    pack Format.binary64 (unpack Format.binary64 b) = b := by
  by_cases hnan : unpack Format.binary64 b = .notANumber
  case neg => exact pack_unpack b hnan
  case pos =>
    have hstored := unpack_stored b
    rw [hnan] at hstored ⊢
    cases hstored with
    | notANumber hexponent hmantissa => exact (h.eq_packedNaN hexponent hmantissa).symm

/-- A float has one NaN, whose bits are kept too. -/
@[simp] theorem toFloat_ofFloat (x : Float) : (ofFloat x).toFloat = x := by
  obtain ⟨⟨bits, hvalid⟩⟩ := x
  have hbits : UInt64.ofBitVec (pack Format.binary64 (unpack Format.binary64 bits.toBitVec)) =
      bits := by
    rw [pack_unpack_of_valid bits.toBitVec hvalid]
  unfold toFloat ofFloat Float.ofBits Float.Model.ofBits Float.Model.pack Float.toBits
  congr 2

end IconConstraints.Scalar
