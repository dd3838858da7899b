import IconConstraints.Proofs.FloatUnits

/-!
# Rounding to 53 bits

A number is rounded by keeping its first 53 bits and looking at the others: what is left is
rounded to the nearest number, and to the even one if both neighbours are equally near.
Rounding keeps the order of numbers, commutes with doubling, and keeps every number that
has no more than 53 bits before its trailing zeros.
-/

namespace IconConstraints

/-! ## Shortened numbers -/

/-- A number without its last `k` bits, rounded to nearest or to even. -/
def shortened (m k : Nat) : Nat :=
  if 2 * (m % 2 ^ k) < 2 ^ k ∨ 2 * (m % 2 ^ k) = 2 ^ k ∧ m / 2 ^ k % 2 = 0 then m / 2 ^ k
  else m / 2 ^ k + 1

theorem shortened_bounds (m k : Nat) :
    m / 2 ^ k ≤ shortened m k ∧ shortened m k ≤ m / 2 ^ k + 1 := by
  unfold shortened
  split <;> omega

@[simp] theorem shortened_zero (m : Nat) : shortened m 0 = m := by
  simp [shortened, Nat.mod_one]

theorem shortened_mono {m n : Nat} (h : m ≤ n) (k : Nat) : shortened m k ≤ shortened n k := by
  rcases Nat.lt_or_eq_of_le (Nat.div_le_div_right (c := 2 ^ k) h) with hlt | heq
  · have hm := (shortened_bounds m k).2
    have hn := (shortened_bounds n k).1
    omega
  · -- With the same bits kept, the bits that are cut off decide.
    have hm := Nat.div_add_mod m (2 ^ k)
    have hn := Nat.div_add_mod n (2 ^ k)
    have hrest : m % 2 ^ k ≤ n % 2 ^ k := by
      rw [heq] at hm
      omega
    unfold shortened
    rw [heq]
    split <;> split <;> omega

theorem shortened_mul (m k j : Nat) : shortened (m * 2 ^ j) (k + j) = shortened m k := by
  have hpos : 0 < 2 ^ j := Nat.two_pow_pos j
  have hkept : m * 2 ^ j / 2 ^ (k + j) = m / 2 ^ k := by
    rw [Nat.pow_add, Nat.mul_div_mul_right _ _ hpos]
  have hrest : m * 2 ^ j % 2 ^ (k + j) = m % 2 ^ k * 2 ^ j := by
    rw [Nat.pow_add, Nat.mul_mod_mul_right]
  have hless : 2 * (m % 2 ^ k * 2 ^ j) < 2 ^ (k + j) ↔ 2 * (m % 2 ^ k) < 2 ^ k := by
    rw [Nat.pow_add, ← Nat.mul_assoc, Nat.mul_lt_mul_right hpos]
  have hhalf : 2 * (m % 2 ^ k * 2 ^ j) = 2 ^ (k + j) ↔ 2 * (m % 2 ^ k) = 2 ^ k := by
    rw [Nat.pow_add, ← Nat.mul_assoc, Nat.mul_left_inj hpos.ne']
  unfold shortened
  rw [hkept, hrest]
  simp only [hless, hhalf]

/-! ## Rounded numbers -/

/-- The nearest number with 53 bits before its trailing zeros. -/
def nearest (m : Nat) : Nat :=
  shortened m (m.log2 - 52) * 2 ^ (m.log2 - 52)

theorem log2_le_of_lt {m n : Nat} (h : m < 2 ^ (n + 1)) : m.log2 ≤ n := by
  rcases Nat.eq_zero_or_pos m with rfl | hpos
  · simp
  · exact Nat.le_of_lt_succ ((Nat.log2_lt hpos.ne').mpr h)

theorem nearest_of_lt {m : Nat} (h : m < 2 ^ 53) : nearest m = m := by
  have hlog := log2_le_of_lt h
  have hkept : m.log2 - 52 = 0 := by omega
  unfold nearest
  rw [hkept, shortened_zero, Nat.pow_zero, Nat.mul_one]

theorem nearest_mul (m j : Nat) : nearest (m * 2 ^ j) = nearest m * 2 ^ j := by
  rcases Nat.eq_zero_or_pos m with rfl | hpos
  · simp [nearest_of_lt]
  have hlog := log2_mul_two_pow hpos.ne' j
  rcases Nat.lt_or_ge m.log2 52 with hshort | hlong
  · -- Nothing of the number is cut off, and only zeros of the product are.
    have hm : m < 2 ^ 53 := (Nat.log2_lt hpos.ne').mp (by omega)
    rw [nearest_of_lt hm]
    rcases Nat.le_total (m.log2 + j) 52 with hzero | hcut
    · exact nearest_of_lt ((Nat.log2_lt (Nat.mul_pos hpos (Nat.two_pow_pos j)).ne').mp (by omega))
    · have hsplit : m * 2 ^ j = m * 2 ^ (52 - m.log2) * 2 ^ (m.log2 + j - 52) := by
        rw [Nat.mul_assoc, ← Nat.pow_add]
        congr 2
        omega
      have hkept := shortened_mul (m * 2 ^ (52 - m.log2)) 0 (m.log2 + j - 52)
      rw [Nat.zero_add, ← hsplit, shortened_zero] at hkept
      unfold nearest
      rw [hlog, hkept]
      exact hsplit.symm
  · have hcut : m.log2 + j - 52 = m.log2 - 52 + j := by omega
    unfold nearest
    rw [hlog, hcut, shortened_mul, Nat.pow_add, Nat.mul_assoc]

theorem nearest_le {m : Nat} : nearest m ≤ 2 ^ (m.log2 + 1) := by
  rcases Nat.lt_or_ge m.log2 52 with hshort | hlong
  · rcases Nat.eq_zero_or_pos m with rfl | hpos
    · simp [nearest_of_lt]
    · rw [nearest_of_lt ((Nat.log2_lt hpos.ne').mp (by omega))]
      exact Nat.le_of_lt Nat.lt_log2_self
  · have hquotient : m / 2 ^ (m.log2 - 52) < 2 ^ 53 := by
      rw [Nat.div_lt_iff_lt_mul (Nat.two_pow_pos _), ← Nat.pow_add]
      exact Nat.lt_log2_self.trans_eq (congrArg _ (by omega))
    have hkept := (shortened_bounds m (m.log2 - 52)).2
    calc
      nearest m ≤ 2 ^ 53 * 2 ^ (m.log2 - 52) := Nat.mul_le_mul_right _ (by omega)
      _ = 2 ^ (m.log2 + 1) := by
        rw [← Nat.pow_add]
        congr 1
        omega

theorem le_nearest {m : Nat} (hm : m ≠ 0) : 2 ^ m.log2 ≤ nearest m := by
  rcases Nat.lt_or_ge m.log2 52 with hshort | hlong
  · rw [nearest_of_lt ((Nat.log2_lt hm).mp (by omega))]
    exact Nat.log2_self_le hm
  · have hquotient : 2 ^ 52 ≤ m / 2 ^ (m.log2 - 52) := by
      rw [Nat.le_div_iff_mul_le (Nat.two_pow_pos _), ← Nat.pow_add]
      exact (Nat.log2_self_le hm).trans' (Nat.le_of_eq (congrArg _ (by omega)))
    have hkept := (shortened_bounds m (m.log2 - 52)).1
    calc
      2 ^ m.log2 = 2 ^ 52 * 2 ^ (m.log2 - 52) := by
        rw [← Nat.pow_add]
        congr 1
        omega
      _ ≤ nearest m := Nat.mul_le_mul_right _ (by omega)

theorem nearest_mono {m n : Nat} (h : m ≤ n) : nearest m ≤ nearest n := by
  rcases Nat.lt_or_eq_of_le (log2_le_log2 h) with hlt | heq
  · -- A power of two lies between the numbers, and between the rounded ones.
    have hn : n ≠ 0 := by
      rintro rfl
      simp at hlt
    calc
      nearest m ≤ 2 ^ (m.log2 + 1) := nearest_le
      _ ≤ 2 ^ n.log2 := Nat.pow_le_pow_right (by decide) hlt
      _ ≤ nearest n := le_nearest hn
  · unfold nearest
    rw [heq]
    exact Nat.mul_le_mul_right _ (shortened_mono h _)

end IconConstraints
