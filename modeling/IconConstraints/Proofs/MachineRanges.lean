import Mathlib.Tactic.Ring
import IconConstraints.Proofs.MachineIntegers
import IconConstraints.Proofs.Outcomes

/-!
# Ranges, sequences and escapes in machine words

The bounds of a range are 64-bit numbers, so whatever is computed from them fits into 128
bits, and every element lies between the bounds and fits into 64 bits again.  Only the
membership test divides by a step that it has not looked at, so it needs a step other than
zero.  Positions in a list and lengths of repetitions stay within a word as well.
-/

namespace IconConstraints.Machine

theorem fit_half128 {n : Int} (h : n.natAbs < half128.natAbs) : fit half128 n = .ok n := by
  unfold half128 at h ⊢
  exact fit_of_bounds (by omega) (by omega)

theorem quotient_half128 {x y : Int} (hy : y ≠ 0) (hx : x.natAbs < half128.natAbs) :
    quotient half128 x y = .ok (x.tdiv y) := by
  unfold quotient
  rw [if_neg hy, fit_half128]
  exact Nat.lt_of_le_of_lt (Int.natAbs_tdiv_le_natAbs x y) hx

theorem remainder_half128 {x y : Int} (hy : y ≠ 0) (hx : x.natAbs < half128.natAbs) :
    remainder half128 x y = .ok (x.tmod y) := by
  unfold remainder
  rw [if_neg hy, fit_half128 (Nat.lt_of_le_of_lt (Int.natAbs_tdiv_le_natAbs x y) hx)]
  rfl

theorem fit_bind {α : Type} {n : Int} {next : Int → Except Trap α}
    (h : n.natAbs < half128.natAbs) : (fit half128 n >>= next) = next n := by
  rw [fit_half128 h]
  rfl

theorem natAbs_half128 : half128.natAbs = 0x80000000000000000000000000000000 :=
  rfl

theorem tdiv_eq_toNat {x y : Int} (hx : 0 ≤ x) (hy : 0 ≤ y) :
    x.tdiv y = ((x / y).toNat : Int) := by
  rw [Int.tdiv_eq_ediv_of_nonneg hx, Int.toNat_of_nonneg (Int.ediv_nonneg hx hy)]

/-! ## Ranges -/

def rangeLength (start stop step : Int) : Except Trap Int :=
  if 0 < step ∧ start < stop then do
    let span ← fit half128 (stop - start)
    let reach ← fit half128 (span + step)
    let last ← fit half128 (reach - 1)
    quotient half128 last step
  else if step < 0 ∧ stop < start then do
    let span ← fit half128 (start - stop)
    let reach ← fit half128 (span - step)
    let last ← fit half128 (reach - 1)
    quotient half128 last (← fit half128 (-step))
  else .ok 0

theorem rangeLength_eq (start stop step : Int64) :
    rangeLength start.toInt stop.toInt step.toInt =
      .ok (Value.rangeLength start.toInt stop.toInt step.toInt) := by
  have hstart := toInt_bounds start
  have hstop := toInt_bounds stop
  have hstep := toInt_bounds step
  have hhalf := natAbs_half128
  unfold half64 at *
  unfold rangeLength Value.rangeLength
  split
  case isTrue =>
    rw [fit_bind (by omega), fit_bind (by omega), fit_bind (by omega),
      quotient_half128 (by omega) (by omega), tdiv_eq_toNat (by omega) (by omega)]
  case isFalse =>
    split
    case isTrue =>
      rw [fit_bind (by omega), fit_bind (by omega), fit_bind (by omega), fit_bind (by omega),
        quotient_half128 (by omega) (by omega), tdiv_eq_toNat (by omega) (by omega)]
    case isFalse => rfl

/-- The element at a position, unless 64 bits cannot hold it. -/
def rangeItem (start step : Int) (position : Nat) : Except Trap (Option Int64) := do
  let offset ← fit half128 (position * step)
  let n ← fit half128 (start + offset)
  return if -half64 ≤ n ∧ n < half64 then some (Int64.ofInt n) else none

def rangeItems (start stop step : Int) : Except Trap (List Int64) := do
  let length ← rangeLength start stop step
  let items ← (List.range length.toNat).mapM (rangeItem start step)
  return items.filterMap id

theorem between_bounds {start stop step : Int} {position : Nat}
    (h : position < Value.rangeLength start stop step) :
    min start stop ≤ start + position * step ∧ start + position * step ≤ max start stop := by
  unfold Value.rangeLength at h
  split at h
  case isTrue hup =>
    have hstep : (position + 1 : Int) ≤ (stop - start + step - 1) / step := by omega
    have hmul := Int.mul_le_of_le_ediv hup.1 hstep
    have hexpand : ((position : Int) + 1) * step = position * step + step := by ring
    have hnonneg : 0 ≤ (position : Int) * step := Int.mul_nonneg (by omega) (by omega)
    omega
  case isFalse =>
    split at h
    case isTrue hdown =>
      have hstep : (position + 1 : Int) ≤ (start - stop - step - 1) / -step := by omega
      have hmul := Int.mul_le_of_le_ediv (by omega) hstep
      have hexpand : ((position : Int) + 1) * -step = -(position * step) - step := by ring
      have hnonneg : 0 ≤ (position : Int) * -step := Int.mul_nonneg (by omega) (by omega)
      have hneg : (position : Int) * -step = -(position * step) := by ring
      omega
    case isFalse => omega

theorem rangeItems_eq (start stop step : Int64) :
    rangeItems start.toInt stop.toInt step.toInt = .ok (Value.rangeItems start stop step) := by
  have hstart := toInt_bounds start
  have hstop := toInt_bounds stop
  have hhalf := natAbs_half128
  have hitem : ∀ position ∈ List.range (Value.rangeLength start.toInt stop.toInt step.toInt),
      rangeItem start.toInt step.toInt position =
        .ok (some (Int64.ofInt (start.toInt + position * step.toInt))) := by
    intro position hposition
    -- Between bounds that fit, the element fits itself.
    have hbetween := between_bounds (List.mem_range.mp hposition)
    unfold half64 at *
    unfold rangeItem
    rw [fit_bind (by omega), fit_bind (by omega), if_pos (by unfold half64; omega)]
    rfl
  unfold rangeItems
  rw [rangeLength_eq]
  change (do
    let items ← (List.range (Value.rangeLength start.toInt stop.toInt step.toInt)).mapM
      (rangeItem start.toInt step.toInt)
    return items.filterMap id) = _
  rw [Outcome.mapM_eq_ok hitem]
  unfold Value.rangeItems
  simp [pure, Except.pure, bind, Except.bind, List.filterMap_map]

/-- The bounds of a call of `range`, with the step checked before it is divided by. -/
def boundedRange (start stop step : Int64) : Except Trap (Except EvalFault Value) :=
  if step = 0 then .ok (.error .rangeStepZero)
  else do
    let difference ← fit half128 (stop.toInt - start.toInt)
    let span ← fit half128 difference.natAbs
    let stride ← fit half128 step.toInt.natAbs
    let count ← quotient half128 span stride
    return if (rangeLimit : Int) < count then .error .rangeTooLarge else .ok (.range start stop step)

theorem toInt_ne_zero {a : Int64} (h : a ≠ 0) : a.toInt ≠ 0 :=
  fun hzero => h (Int64.toInt_inj.mp hzero)

theorem boundedRange_eq (start stop step : Int64) :
    boundedRange start stop step = .ok (IconConstraints.boundedRange start stop step) := by
  have hstart := toInt_bounds start
  have hstop := toInt_bounds stop
  have hstep := toInt_bounds step
  have hhalf := natAbs_half128
  unfold boundedRange IconConstraints.boundedRange
  split
  case isTrue => rfl
  case isFalse hzero =>
    have hne := toInt_ne_zero hzero
    unfold half64 at *
    rw [fit_bind (by omega), fit_bind (by omega), fit_bind (by omega),
      quotient_half128 (by omega) (by omega), Int.tdiv_eq_ediv_of_nonneg (by omega)]
    have hlarge : ((rangeLimit : Int) <
        ((stop.toInt - start.toInt).natAbs : Int) / (step.toInt.natAbs : Int)) ↔
          rangeLimit < (stop.toInt - start.toInt).natAbs / step.toInt.natAbs := by
      rw [← Int.natCast_ediv, Int.ofNat_lt]
    change Except.ok (if _ then _ else _) = _
    rw [if_congr hlarge rfl rfl]

/-- Membership, with the step divided by only if the number lies between the bounds. -/
def inRange (start stop step n : Int) : Except Trap Bool :=
  if (if 0 < step then start ≤ n ∧ n < stop else stop < n ∧ n ≤ start) then do
    let distance ← fit half128 (n - start)
    let rest ← remainder half128 distance step
    return rest == 0
  else .ok false

theorem inRange_eq {step : Int64} (hstep : step ≠ 0) (start stop n : Int64) :
    inRange start.toInt stop.toInt step.toInt n.toInt =
      .ok (Value.inRange start.toInt stop.toInt step.toInt n.toInt) := by
  have hstart := toInt_bounds start
  have hn := toInt_bounds n
  have hhalf := natAbs_half128
  have hrest : ((n.toInt - start.toInt).tmod step.toInt == 0) =
      decide ((n.toInt - start.toInt) % step.toInt = 0) := by
    simp only [Bool.beq_eq_decide_eq, ← Int.dvd_iff_emod_eq_zero, ← Int.dvd_iff_tmod_eq_zero]
  unfold half64 at *
  unfold inRange Value.inRange
  by_cases hinside : if 0 < step.toInt then start.toInt ≤ n.toInt ∧ n.toInt < stop.toInt
      else stop.toInt < n.toInt ∧ n.toInt ≤ start.toInt
  · rw [if_pos hinside, fit_bind (by omega),
      remainder_half128 (toInt_ne_zero hstep) (by omega)]
    simp [hinside, hrest, pure, Except.pure, bind, Except.bind]
  · rw [if_neg hinside]
    simp [hinside]

/-! ## Sequences -/

/-- The element at an index that may count from the end. -/
def itemAt (items : List Value) (index : Int) : Except Trap (Except EvalFault Value) :=
  if half64 ≤ items.length then .ok (.error .integerOverflow)
  else do
    let position ← if index < 0 then fit half64 (index + items.length) else .ok index
    let found := if position < 0 then none else items[position.toNat]?
    return match found with
      | some v => .ok v
      | none => .error .indexOutOfRange

/-- A list that is too long for its positions to be numbers is refused. -/
theorem itemAt_eq (items : List Value) (index : Int64) :
    itemAt items index.toInt = .ok (if half64 ≤ items.length then .error .integerOverflow
      else match Value.itemAt? items index.toInt with
        | some v => .ok v
        | none => .error .indexOutOfRange) := by
  have hindex := toInt_bounds index
  unfold itemAt Value.itemAt?
  split
  case isTrue => rfl
  case isFalse hlength =>
    dsimp only
    by_cases hnegative : index.toInt < 0
    · rw [if_pos hnegative, if_pos hnegative,
        fit_of_bounds (by unfold half64 at *; omega) (by unfold half64 at *; omega)]
      rfl
    · rw [if_neg hnegative, if_neg hnegative]
      rfl

/-- A repetition up to a size that is first compared with the limit, saturated. -/
def repeated {α : Type} (size : Nat) (times : Int64) (tooLarge : EvalFault)
    (build : (count total : Nat) → α) : Except Trap (Except EvalFault α) :=
  let count := (max times.toInt 0).toNat
  if Value.repetitionLimit < min (size * count) (2 ^ 64 - 1) then .ok (.error tooLarge)
  else do
    let total ← fitUnsigned 64 (size * count)
    return .ok (build count total)

theorem repeated_eq {α : Type} (size : Nat) (times : Int64) (tooLarge : EvalFault)
    (build : (count total : Nat) → α) :
    repeated size times tooLarge build =
      .ok (if Value.repetitionLimit < size * times.toInt.toNat then .error tooLarge
        else .ok (build times.toInt.toNat (size * times.toInt.toNat))) := by
  have hcount : (max times.toInt 0).toNat = times.toInt.toNat := by omega
  have hlimit : Value.repetitionLimit = 0x10000 := rfl
  unfold repeated
  rw [hcount]
  generalize times.toInt.toNat = count
  dsimp only
  by_cases hlarge : Value.repetitionLimit < size * count
  · rw [if_pos hlarge, if_pos (by omega)]
  · have hfits : fitUnsigned 64 (size * count) = .ok (size * count) := if_pos (by omega)
    rw [if_neg hlarge, if_neg (by omega), hfits]
    rfl

def repeatString (s : String) (times : Int64) : Except Trap (Except EvalFault Value) :=
  repeated s.utf8ByteSize times .stringTooLarge fun count _ =>
    .str (String.join (List.replicate count s))

def repeatItems (items : List Value) (times : Int64) : Except Trap (Except EvalFault Value) :=
  repeated items.length times .repetitionTooLarge fun count total =>
    .list ((List.replicate count items).flatten.take total)

theorem join_replicate_empty (n : Nat) : String.join (List.replicate n "") = "" := by
  unfold String.join
  induction n with
  | zero => rfl
  | succ n ih => exact ih

theorem repeatString_eq (s : String) (times : Int64) :
    repeatString s times = .ok (Value.repeatString s times) := by
  unfold repeatString Value.repeatString
  rw [repeated_eq]
  by_cases hempty : s = ""
  · simp [hempty, join_replicate_empty]
  · simp [hempty]

theorem repeatItems_eq (items : List Value) (times : Int64) :
    repeatItems items times = .ok (Value.repeatItems items times) := by
  unfold repeatItems Value.repeatItems
  rw [repeated_eq]
  generalize times.toInt.toNat = count
  have hall : (List.replicate count items).flatten.take (items.length * count) =
      (List.replicate count items).flatten := by
    apply List.take_of_length_le
    simp [Nat.mul_comm]
  rw [hall]
  cases items with
  | nil => simp
  | cons a rest => rfl

/-! ## Values -/

/-- Only integers and repetitions are computed in words. -/
def binary (op : BinaryOp) (left right : Value) : Except Trap (Except EvalFault Value) :=
  match left.toInt64?, right.toInt64? with
  | some a, some b => intBinary op a b
  | some times, none =>
    match op, right with
    | .mul, .str s => repeatString s times
    | .mul, .list items => repeatItems items times
    | _, _ => .ok (Value.binary op left right)
  | none, some times =>
    match op, left with
    | .mul, .str s => repeatString s times
    | .mul, .list items => repeatItems items times
    | _, _ => .ok (Value.binary op left right)
  | none, none => .ok (Value.binary op left right)

theorem binary_eq (op : BinaryOp) (left right : Value) :
    binary op left right = .ok (Value.binary op left right) := by
  unfold binary
  split
  case h_1 a b ha hb =>
    rw [intBinary_eq]
    cases left <;> cases ha <;> cases right <;> cases hb <;> cases op <;> rfl
  case h_2 times hleft _ =>
    split
    case h_1 s =>
      rw [repeatString_eq]
      cases left <;> cases hleft <;> rfl
    case h_2 items =>
      rw [repeatItems_eq]
      cases left <;> cases hleft <;> rfl
    case h_3 => rfl
  case h_3 times _ hright =>
    split
    case h_1 s =>
      rw [repeatString_eq]
      cases right <;> cases hright <;> rfl
    case h_2 items =>
      rw [repeatItems_eq]
      cases right <;> cases hright <;> rfl
    case h_3 => rfl
  case h_4 => rfl

/-- Membership; a range is not searched. -/
def contains (container item : Value) : Except Trap (Except EvalFault Bool) :=
  match container with
  | .range start stop step =>
    match item.toInt64? with
    | none => .ok (.ok false)
    | some n => do return .ok (← inRange start.toInt stop.toInt step.toInt n.toInt)
  | container => .ok (container.contains item)

theorem contains_eq {container : Value}
    (hstep : ∀ start stop step, container = .range start stop step → step ≠ 0) (item : Value) :
    contains container item = .ok (container.contains item) := by
  unfold contains
  split
  case h_1 start stop step =>
    unfold Value.contains
    split
    case h_1 hnumber => simp [hnumber]
    case h_2 n hnumber =>
      simp only [hnumber]
      rw [inRange_eq (hstep start stop step rfl)]
      rfl
  case h_2 => rfl

/-! ## Escapes in literals -/

/-- The number that octal digits stand for, in 32 bits. -/
def octalEscape (digits : List Char) : Except Trap Nat :=
  digits.foldlM (fun value c => do
    let shifted ← fitUnsigned 32 (8 * value)
    fitUnsigned 32 (shifted + (c.toNat - '0'.toNat))) 0

theorem octalDigit_lt {c : Char} (h : Source.isOctalDigit c = true) :
    c.toNat - '0'.toNat < 8 := by
  have hupper : c ≤ '7' := by
    unfold Source.isOctalDigit at h
    simp only [Bool.and_eq_true, decide_eq_true_eq] at h
    exact h.2
  have hcode : c.toNat ≤ '7'.toNat := hupper
  have hseven : '7'.toNat = 55 := rfl
  have hzero : '0'.toNat = 48 := rfl
  omega

theorem foldlM_octal {digits : List Char} (h : ∀ c ∈ digits, Source.isOctalDigit c = true)
    {value : Nat} (hvalue : (value + 1) * 8 ^ digits.length ≤ 2 ^ 32) :
    digits.foldlM (fun value c => do
      let shifted ← fitUnsigned 32 (8 * value)
      fitUnsigned 32 (shifted + (c.toNat - '0'.toNat))) value =
    .ok (digits.foldl (fun n c => 8 * n + (c.toNat - '0'.toNat)) value) := by
  -- The value so far leaves room for all digits that are still to come.
  induction digits generalizing value with
  | nil => rfl
  | cons c rest ih =>
      have hdigit := octalDigit_lt (h c List.mem_cons_self)
      have hpos : 1 ≤ 8 ^ rest.length := Nat.one_le_pow _ _ (by decide)
      rw [List.length_cons, Nat.pow_succ] at hvalue
      have hnext : (8 * value + (c.toNat - '0'.toNat) + 1) * 8 ^ rest.length ≤ 2 ^ 32 := by
        refine Nat.le_trans (Nat.mul_le_mul_right _ (?_ : _ ≤ (value + 1) * 8)) ?_
        · omega
        · rw [Nat.mul_assoc, Nat.mul_comm 8]
          exact hvalue
      have hsmall : 8 * value + (c.toNat - '0'.toNat) + 1 ≤ 2 ^ 32 :=
        Nat.le_trans (Nat.le_mul_of_pos_right _ hpos) hnext
      have hshifted : fitUnsigned 32 (8 * value) = .ok (8 * value) := if_pos (by omega)
      have hadded : fitUnsigned 32 (8 * value + (c.toNat - '0'.toNat)) =
          .ok (8 * value + (c.toNat - '0'.toNat)) := if_pos (by omega)
      rw [List.foldlM_cons, hshifted]
      change (fitUnsigned 32 (8 * value + (c.toNat - '0'.toNat)) >>= fun value => _) = _
      rw [hadded]
      exact ih (fun d hd => h d (List.mem_cons_of_mem c hd)) hnext

theorem octalEscape_eq {digits : List Char} (h : ∀ c ∈ digits, Source.isOctalDigit c = true)
    (hlength : digits.length ≤ 3) : octalEscape digits = .ok (Source.octalValue digits) := by
  refine foldlM_octal h ?_
  have hpow : 8 ^ digits.length ≤ 8 ^ 3 := Nat.pow_le_pow_right (by decide) hlength
  omega

/-! ## Parts of the script -/

/-- A part of a text, between two positions in it. -/
def slice (cs : List Char) (first stop : Nat) : Except Trap (List Char) :=
  if first ≤ stop ∧ stop ≤ cs.length then .ok ((cs.drop first).take (stop - first))
  else .error .outOfBounds

theorem slice_takeWhile (before cs : List Char) (p : Char → Bool) :
    slice (before ++ cs) before.length (before.length + (cs.takeWhile p).length) =
      .ok (cs.takeWhile p) := by
  have hlength : (cs.takeWhile p).length ≤ cs.length := (List.takeWhile_prefix p).length_le
  have htake : cs.take (cs.takeWhile p).length = cs.takeWhile p :=
    (List.prefix_iff_eq_take.mp (List.takeWhile_prefix p)).symm
  unfold slice
  rw [if_pos (by simp; omega)]
  simp [htake]

/-- The digits of a hexadecimal escape, from a position in the text. -/
def hexDigits (cs : List Char) (first count : Nat) : Except Trap (Option (List Char)) :=
  if cs.length < first + count then .ok none
  else do return some (← slice cs first (first + count))

theorem hexDigits_eq (before cs : List Char) (count : Nat) :
    hexDigits (before ++ cs) before.length count =
      .ok (if (cs.take count).length < count then none else some (cs.take count)) := by
  unfold hexDigits slice
  by_cases hshort : cs.length < count
  · rw [if_pos (by simpa using hshort), if_pos (by simp; omega)]
  · rw [if_neg (by simpa using hshort), if_pos (by simp; omega), if_neg (by simp; omega)]
    simp [pure, Except.pure, bind, Except.bind]

end IconConstraints.Machine
