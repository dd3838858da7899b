import IconConstraints.Constraint
import IconConstraints.Proofs.Scalar

/-!
# Agreement of constraints

Two constraints agree when all their fields do, floats by their bits and with the
negative zero taken for the positive one.  The identity of a constraint decides
exactly this: no field is left out of it, and none is compared in another way.
-/

namespace IconConstraints

/-- The bits of a scalar, with those of the negative zero replaced by none. -/
def Scalar.foldedBits (s : Scalar) : UInt64 :=
  if s.bits = signBit then 0 else s.bits

namespace Constraint

structure Agrees (c d : Constraint) : Prop where
  sizing : c.sizing = d.sizing
  height : c.height = d.height
  maxWidth : c.maxWidth = d.maxWidth
  alignHorizontal : c.alignHorizontal = d.alignHorizontal
  alignVertical : c.alignVertical = d.alignVertical
  relativeWidth : c.relativeWidth.map (·.foldedBits) = d.relativeWidth.map (·.foldedBits)
  relativeHeight : c.relativeHeight.map (·.foldedBits) = d.relativeHeight.map (·.foldedBits)
  relativeX : c.relativeX.map (·.foldedBits) = d.relativeX.map (·.foldedBits)
  relativeY : c.relativeY.map (·.foldedBits) = d.relativeY.map (·.foldedBits)
  padLeft : c.padLeft.map (·.foldedBits) = d.padLeft.map (·.foldedBits)
  padRight : c.padRight.map (·.foldedBits) = d.padRight.map (·.foldedBits)
  padTop : c.padTop.map (·.foldedBits) = d.padTop.map (·.foldedBits)
  padBottom : c.padBottom.map (·.foldedBits) = d.padBottom.map (·.foldedBits)
  maxRatio : c.maxRatio.map (·.foldedBits) = d.maxRatio.map (·.foldedBits)

end Constraint

@[simp] theorem Scalar.identity_eq_foldedBits (s : Scalar) : s.identity = s.foldedBits := by
  have hzero : (ofFloat 0.0).bits = 0 := by decide
  have hsign : signBit ≠ 0 := by decide
  unfold identity foldedBits
  rw [hzero]
  by_cases hneg : s.bits = signBit
  · rw [if_pos ((toFloat_beq_zero s).mpr (Or.inr hneg)), if_pos hneg]
  · rw [if_neg hneg]
    split
    case isTrue h =>
      rcases (toFloat_beq_zero s).mp h with h | h
      · exact h.symm
      · exact absurd h hneg
    case isFalse => rfl

theorem Constraint.identity_eq_iff_agrees {c d : Constraint} :
    c.identity = d.identity ↔ c.Agrees d := by
  simp only [identity, Identity.mk.injEq, Scalar.identity_eq_foldedBits]
  constructor
  · rintro ⟨h₁, h₂, h₃, h₄, h₅, h₆, h₇, h₈, h₉, h₁₀, h₁₁, h₁₂, h₁₃, h₁₄⟩
    exact ⟨h₁, h₂, h₃, h₄, h₅, h₆, h₇, h₈, h₉, h₁₀, h₁₁, h₁₂, h₁₃, h₁₄⟩
  · rintro ⟨h₁, h₂, h₃, h₄, h₅, h₆, h₇, h₈, h₉, h₁₀, h₁₁, h₁₂, h₁₃, h₁₄⟩
    exact ⟨h₁, h₂, h₃, h₄, h₅, h₆, h₇, h₈, h₉, h₁₀, h₁₁, h₁₂, h₁₃, h₁₄⟩

end IconConstraints
