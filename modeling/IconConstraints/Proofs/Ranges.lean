import IconConstraints.Proofs.ExactIntegers
import IconConstraints.Proofs.MachineRanges
import IconConstraints.Proofs.NumberComparison

/-!
# Ranges as progressions

A range has exactly the numbers that lie between its bounds at whole steps from its start,
in this order.  None of them leaves 64 bits, their number is the length of the range, and an
integer is found in a range by arithmetic exactly if it is one of them.

What arithmetic finds is also found when the elements are looked at one by one.  The
converse fails for floats, which arithmetic never finds, and for large integers, which are
equal to their neighbours.
-/

namespace IconConstraints

namespace Value

/-! ## Progressions -/

section Progressions

variable {start stop step k : Int}

/-- Where the elements of a range lie. -/
def Spans (start stop step k : Int) : Prop :=
  if 0 < step then start ≤ k ∧ k < stop else stop < k ∧ k ≤ start

theorem spans_neg (hstep : step ≠ 0) :
    Spans (-start) (-stop) (-step) (-k) ↔ Spans start stop step k := by
  unfold Spans
  split <;> split <;> omega

theorem rangeLength_neg (start stop step : Int) :
    rangeLength (-start) (-stop) (-step) = rangeLength start stop step := by
  have hup : -stop - -start + -step - 1 = start - stop - step - 1 := by omega
  have hdown : -start - -stop - -step - 1 = stop - start + step - 1 := by omega
  unfold rangeLength
  rw [hup, hdown, Int.neg_neg]
  by_cases hforward : 0 < step ∧ start < stop
  · rw [if_neg (by omega), if_pos (by omega), if_pos hforward]
  · rw [if_neg hforward]
    by_cases hbackward : step < 0 ∧ stop < start
    · rw [if_pos (by omega), if_pos hbackward]
    · rw [if_neg (by omega), if_neg (by omega), if_neg hbackward]

theorem lt_rangeLength_of_pos (hstep : 0 < step) (i : Nat) :
    i < rangeLength start stop step ↔ Spans start stop step (start + i * step) := by
  have hnonneg : 0 ≤ (i : Int) * step := Int.mul_nonneg (by omega) (by omega)
  unfold rangeLength Spans
  rw [if_pos hstep]
  by_cases hspan : start < stop
  · rw [if_pos ⟨hstep, hspan⟩, Int.lt_toNat, ← Int.add_one_le_iff,
      Int.le_ediv_iff_mul_le hstep, Int.add_mul, Int.one_mul]
    omega
  · rw [if_neg fun h => hspan h.2, if_neg (by omega)]
    omega

theorem lt_rangeLength_iff (hstep : step ≠ 0) (i : Nat) :
    i < rangeLength start stop step ↔ Spans start stop step (start + i * step) := by
  rcases Int.lt_or_gt_of_ne hstep with hneg | hpos
  · have hsum : -start + i * -step = -(start + i * step) := by
      rw [Int.mul_neg, Int.neg_add]
    rw [← rangeLength_neg, lt_rangeLength_of_pos (by omega), hsum, spans_neg hstep]
  · exact lt_rangeLength_of_pos hpos i

/-- The numbers at whole steps from the start that lie between the bounds, in their order. -/
structure IsProgression (start stop step : Int) (ns : List Int) : Prop where
  terms : ns = (List.range ns.length).map fun i : Nat => start + i * step
  mem_iff : ∀ k, k ∈ ns ↔ step ∣ k - start ∧ Spans start stop step k

theorem mem_terms_iff (hstep : step ≠ 0) :
    (∃ i < rangeLength start stop step, start + i * step = k) ↔
      step ∣ k - start ∧ Spans start stop step k := by
  constructor
  · rintro ⟨i, hi, rfl⟩
    exact ⟨⟨i, by rw [Int.mul_comm]; omega⟩, (lt_rangeLength_iff hstep i).mp hi⟩
  · rintro ⟨⟨c, hc⟩, hspan⟩
    have hcount : 0 ≤ c := by
      unfold Spans at hspan
      rcases Int.lt_or_gt_of_ne hstep with hneg | hpos
      · rw [if_neg (by omega)] at hspan
        exact nonneg_of_mul_nonpos_right (by omega) hneg
      · rw [if_pos hpos] at hspan
        exact nonneg_of_mul_nonneg_right (by omega) hpos
    obtain ⟨i, rfl⟩ := Int.eq_ofNat_of_zero_le hcount
    have hterm : start + i * step = k := by
      rw [Int.mul_comm]
      omega
    exact ⟨i, (lt_rangeLength_iff hstep i).mpr (hterm ▸ hspan), hterm⟩

theorem inRange_iff :
    inRange start stop step k = true ↔ step ∣ k - start ∧ Spans start stop step k := by
  unfold inRange Spans
  rw [decide_eq_true_iff, Int.dvd_iff_emod_eq_zero, and_comm]

end Progressions

/-! ## Elements -/

variable {start stop step n : Int64} {ns : List Int64} {v : Value}

theorem toInt_rangeItems (start stop step : Int64) :
    (rangeItems start stop step).map Int64.toInt =
      (List.range (rangeLength start.toInt stop.toInt step.toInt)).map
        fun i : Nat => start.toInt + i * step.toInt := by
  have hstart := Fits64.toInt start
  have hstop := Fits64.toInt stop
  unfold rangeItems
  rw [List.map_map]
  refine List.map_congr_left fun i hi => Fits64.toInt_ofInt ?_
  have hbetween := Machine.between_bounds (List.mem_range.mp hi)
  unfold Fits64 at *
  omega

theorem length_rangeItems (start stop step : Int64) :
    (rangeItems start stop step).length = rangeLength start.toInt stop.toInt step.toInt := by
  unfold rangeItems
  rw [List.length_map, List.length_range]

theorem rangeItems_isProgression (hstep : step ≠ 0) :
    IsProgression start.toInt stop.toInt step.toInt
      ((rangeItems start stop step).map Int64.toInt) where
  terms := by rw [List.length_map, length_rangeItems, toInt_rangeItems]
  mem_iff k := by
    have hne : step.toInt ≠ 0 := fun h => hstep (Int64.toInt_inj.mp h)
    rw [toInt_rangeItems, List.mem_map, ← mem_terms_iff hne]
    simp only [List.mem_range]

theorem mem_map_toInt : n.toInt ∈ ns.map Int64.toInt ↔ n ∈ ns := by
  rw [List.mem_map]
  exact ⟨fun ⟨m, hm, h⟩ => Int64.toInt_inj.mp h ▸ hm, fun h => ⟨n, h, rfl⟩⟩

theorem inRange_eq_decide (hstep : step ≠ 0) :
    inRange start.toInt stop.toInt step.toInt n.toInt =
      decide (n ∈ rangeItems start stop step) := by
  rw [Bool.eq_iff_iff, inRange_iff, decide_eq_true_iff, ← mem_map_toInt,
    (rangeItems_isProgression hstep).mem_iff]

/-- A range is an arithmetic progression none of whose elements is dropped when its terms of
128 bits are brought back to 64, and its length, its truth and arithmetic agree with it. -/
theorem range_exact (hstep : step ≠ 0) :
    (range start stop step).items? = some ((rangeItems start stop step).map .int) ∧
    IsProgression start.toInt stop.toInt step.toInt
      ((rangeItems start stop step).map Int64.toInt) ∧
    Machine.rangeItems start.toInt stop.toInt step.toInt = .ok (rangeItems start stop step) ∧
    (rangeItems start stop step).length = rangeLength start.toInt stop.toInt step.toInt ∧
    ((range start stop step).truthy = true ↔ rangeItems start stop step ≠ []) ∧
    ∀ n, contains (.range start stop step) (.int n) =
      .ok (decide (n ∈ rangeItems start stop step)) := by
  refine ⟨rfl, rangeItems_isProgression hstep, Machine.rangeItems_eq start stop step,
    length_rangeItems start stop step, ?_, fun n => ?_⟩
  · rw [← List.length_pos_iff, length_rangeItems]
    exact decide_eq_true_iff
  · rw [← inRange_eq_decide hstep]
    rfl

/-- From one end of the word to the other, with terms before and behind that leave it. -/
theorem range_exact_widest :
    (-0x7FFFFFFFFFFFFFFF : Int64) ≠ 0 ∧
    rangeItems 0x7FFFFFFFFFFFFFFF (-0x8000000000000000) (-0x7FFFFFFFFFFFFFFF) =
      [0x7FFFFFFFFFFFFFFF, 0, -0x7FFFFFFFFFFFFFFF] ∧
    IsProgression 0x7FFFFFFFFFFFFFFF (-0x8000000000000000) (-0x7FFFFFFFFFFFFFFF)
      [0x7FFFFFFFFFFFFFFF, 0, -0x7FFFFFFFFFFFFFFF] ∧
    contains (.range 0x7FFFFFFFFFFFFFFF (-0x8000000000000000) (-0x7FFFFFFFFFFFFFFF)) (.int 0) =
      .ok true := by
  have hexact := @range_exact 0x7FFFFFFFFFFFFFFF (-0x8000000000000000) (-0x7FFFFFFFFFFFFFFF)
    (by decide)
  exact ⟨by decide, by decide, hexact.2.1, hexact.2.2.2.2.2 0⟩

/-! ## Elements one by one -/

theorem eqv_int_iff :
    eqv (.int n) v = true ↔ v.rounded? = some (.ofRat (nearestInt n.toInt)) :=
  eqv_iff_of_rounded? rfl

theorem toInt_of_bool (b : Bool) : (if b then 1 else 0 : Int64).toInt = if b then 1 else 0 := by
  cases b <;> rfl

theorem rounded?_of_toInt64? (h : v.toInt64? = some n) :
    v.rounded? = some (.ofRat (nearestInt n.toInt)) := by
  cases v with
  | bool b =>
      cases h
      rw [toInt_of_bool, nearestInt_of_natAbs_le (by split <;> decide)]
      cases b <;> simp [rounded?, number?]
  | int m => cases h; rfl
  | _ => cases h

/-- What is equal to an element after rounding although it is no integer, or another one. -/
def Overlooked (ns : List Int64) : Value → Prop
  | .int m => m ∉ ns ∧ ∃ n ∈ ns, nearestInt n.toInt = nearestInt m.toInt
  | .float x => ∃ n ∈ ns, floatNumber? x = some (.ofRat (nearestInt n.toInt))
  | _ => False

theorem overlooked_iff :
    Overlooked ns v ↔
      (¬ ∃ n ∈ ns, v.toInt64? = some n) ∧ ∃ n ∈ ns, eqv (.int n) v = true := by
  simp only [eqv_int_iff]
  cases v with
  | int m =>
      simp only [Overlooked, toInt64?, rounded?, Option.some.injEq, exists_eq_right',
        Extended.ofRat_inj, Int.cast_inj]
      simp only [eq_comm]
  | float x => simp [Overlooked, toInt64?, rounded?, number?]
  | bool b =>
      -- A bool is small enough to be equal to no other integer.
      refine iff_of_false id ?_
      rintro ⟨hnone, n, hn, heq⟩
      refine hnone ⟨n, hn, ?_⟩
      rw [rounded?_of_toInt64? rfl, Option.some_inj, Extended.ofRat_inj, Int.cast_inj] at heq
      have hsame := eq_of_nearestInt_eq (by rw [toInt_of_bool]; split <;> decide) heq.symm
      exact congrArg some (Int64.toInt_inj.mp hsame).symm
  | _ => simp [Overlooked, rounded?, number?]

theorem contains_range (hstep : step ≠ 0) (v : Value) :
    contains (.range start stop step) v =
      .ok (decide (∃ n ∈ rangeItems start stop step, v.toInt64? = some n)) := by
  unfold contains
  dsimp only
  cases v.toInt64? with
  | none => simp
  | some n => simp [inRange_eq_decide hstep]

theorem contains_items (ns : List Int64) (v : Value) :
    contains (.list (ns.map .int)) v = .ok (decide (∃ n ∈ ns, eqv (.int n) v = true)) := by
  change Except.ok ((ns.map int).any fun w => eqv w v) = _
  rw [Except.ok.injEq, Bool.eq_iff_iff, List.any_map, List.any_eq_true, decide_eq_true_iff]
  rfl

/-- Arithmetic finds nothing that is not there, and misses nothing but what it overlooks. -/
theorem searched_as_items_iff (hstep : step ≠ 0) (v : Value) :
    ∃ found scanned,
      contains (.range start stop step) v = .ok found ∧
      contains (.list ((rangeItems start stop step).map .int)) v = .ok scanned ∧
      (scanned = true ↔ ∃ n ∈ rangeItems start stop step, eqv (.int n) v = true) ∧
      (found = true → scanned = true) ∧
      (found = scanned ↔ ¬ Overlooked (rangeItems start stop step) v) := by
  have hfound : (∃ n ∈ rangeItems start stop step, v.toInt64? = some n) →
      ∃ n ∈ rangeItems start stop step, eqv (.int n) v = true := fun ⟨n, hn, hview⟩ =>
    ⟨n, hn, eqv_int_iff.mpr (rounded?_of_toInt64? hview)⟩
  refine ⟨_, _, contains_range hstep v, contains_items _ v, decide_eq_true_iff, ?_, ?_⟩
  · simpa only [decide_eq_true_iff] using hfound
  · rw [decide_eq_decide, overlooked_iff, not_and, not_imp_not]
    exact ⟨fun h => h.mpr, fun h => ⟨hfound, h⟩⟩

/-- A bool is found in both ways. -/
theorem searched_as_items_of_bool :
    (1 : Int64) ≠ 0 ∧ ¬ Overlooked (rangeItems 0 3 1) (.bool true) ∧
    ∃ found, contains (.range 0 3 1) (.bool true) = .ok found ∧
      contains (.list [.int 0, .int 1, .int 2]) (.bool true) = .ok found := by
  have hseen : ¬ Overlooked (rangeItems 0 3 1) (.bool true) := id
  obtain ⟨found, scanned, hfound, hscanned, -, -, hsame⟩ :=
    @searched_as_items_iff 0 3 1 (by decide) (.bool true)
  obtain rfl := hsame.mpr hseen
  exact ⟨by decide, hseen, found, hfound, hscanned⟩

/-- A float that is equal to an element is not found by arithmetic. -/
theorem float_overlooked_in_range :
    contains (.range 0 3 1) (.float 1.0) = .ok false ∧
    contains (.list ((rangeItems 0 3 1).map .int)) (.float 1.0) = .ok true ∧
    eqv (.int 1) (.float 1.0) = true := by
  have hequal : eqv (.int 1) (.float 1.0) = true := by decide +kernel
  refine ⟨rfl, ?_, hequal⟩
  rw [contains_items, Except.ok.injEq, decide_eq_true_iff]
  exact ⟨1, by decide, hequal⟩

end Value

end IconConstraints
