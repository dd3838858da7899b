import Mathlib.Data.List.TakeWhile
import IconConstraints.Proofs.EvaluatedValues
import IconConstraints.Proofs.MachineRanges
import IconConstraints.Proofs.PatchSetBounds
import IconConstraints.Proofs.Scripts

/-!
# Bounds of extractions

An extraction can be made with the words of a machine.  Whatever the script says, the
computations with its numbers meet no trap, and the patch sets are within bounds.
-/

namespace IconConstraints

open Source

/-- What is computed while a script is read and evaluated, made in words without a trap. -/
structure Machine.TrapFree (switches : Switches) : Prop where
  operators : ∀ op left right, binary op left right = .ok (Value.binary op left right)
  calls : ∀ start stop step,
    boundedRange start stop step = .ok (IconConstraints.boundedRange start stop step)
  lengths : ∀ start stop step : Int64, rangeLength start.toInt stop.toInt step.toInt =
    .ok (Value.rangeLength start.toInt stop.toInt step.toInt)
  elements : ∀ start stop step : Int64, rangeItems start.toInt stop.toInt step.toInt =
    .ok (Value.rangeItems start stop step)
  /-- Whatever an expression evaluates to can be searched. -/
  membership : ∀ (e : Expr) (v item : Value),
    e.eval switches = .ok v → contains v item = .ok (v.contains item)
  indices : ∀ (items : List Value) (index : Int64), ∃ found, itemAt items index.toInt = .ok found ∧
    ((items.length : Int) < half64 → found = match Value.itemAt? items index.toInt with
      | some v => .ok v
      | none => .error .indexOutOfRange)
  octal : ∀ (c : Char) (cs : List Char), isOctalDigit c = true →
    octalEscape (c :: (cs.take 2).takeWhile isOctalDigit) =
      .ok (octalValue (c :: (cs.take 2).takeWhile isOctalDigit))
  hexadecimal : ∀ (before cs : List Char) (count : Nat),
    ∃ digits, hexDigits (before ++ cs) before.length count = .ok digits
  scanned : ∀ (before cs : List Char) (p : Char → Bool),
    slice (before ++ cs) before.length (before.length + (cs.takeWhile p).length) =
      .ok (cs.takeWhile p)

namespace Machine

theorem contains_evaluated {switches : Switches} {e : Expr} {v : Value} (item : Value)
    (h : e.eval switches = .ok v) : contains v item = .ok (v.contains item) := by
  refine contains_eq (fun start stop step hrange => ?_) item
  subst hrange
  cases Expr.eval_stepped e h with
  | range hstep => exact hstep

theorem octalEscape_scanned {c : Char} (hc : isOctalDigit c = true) (cs : List Char) :
    octalEscape (c :: (cs.take 2).takeWhile isOctalDigit) =
      .ok (octalValue (c :: (cs.take 2).takeWhile isOctalDigit)) := by
  apply octalEscape_eq
  · exact List.forall_mem_cons.mpr ⟨hc, fun d hd => List.mem_takeWhile_imp hd⟩
  · have hscanned := (List.takeWhile_prefix isOctalDigit (l := cs.take 2)).length_le
    have htake := List.length_take_le 2 cs
    rw [List.length_cons]
    omega

theorem itemAt_found (items : List Value) (index : Int64) :
    ∃ found, itemAt items index.toInt = .ok found ∧
      ((items.length : Int) < half64 → found = match Value.itemAt? items index.toInt with
        | some v => .ok v
        | none => .error .indexOutOfRange) :=
  ⟨_, itemAt_eq items index, fun hlength => if_neg (Int.not_le.mpr hlength)⟩

theorem trapFree (switches : Switches) : TrapFree switches where
  operators := binary_eq
  calls := boundedRange_eq
  lengths := rangeLength_eq
  elements := rangeItems_eq
  membership _ _ item := contains_evaluated item
  indices := itemAt_found
  octal _ cs hc := octalEscape_scanned hc cs
  hexadecimal before cs count := ⟨_, hexDigits_eq before cs count⟩
  scanned := slice_takeWhile

end Machine

namespace Extraction

/-- All patch sets of a script are within bounds, and none of the arithmetic on the way to
them leaves its words. -/
theorem ofSource_bounded (source : String) (options : ExtractOptions) :
    (∀ x, (ofSource source options).outcome = .ok x → ∀ p ∈ x.patchSets, p.WithinBounds) ∧
      Machine.TrapFree options.switches :=
  ⟨fun _ => patchSets_withinBounds, Machine.trapFree options.switches⟩

section ScaledScript

open Source.Word

/-- A patch set with two scale groups, of which the first is a range. -/
def scaledTable : List Word :=
  braced (field "Name" [ofText "A"] ++ field "Filename" [ofText "a"] ++
    field "SymStart" [⟨'1', [], .int 1⟩] ++ field "SymEnd" [⟨'1', [], .int 1⟩] ++
    field "ScaleRules" (braced (field "ScaleGroups" [ofOperator .openBracket, ofName "range",
      ofOperator .openParen, ⟨'1', [], .int 1⟩, ofOperator .closeParen, ofOperator .comma,
      ofOperator .openBracket, ⟨'1', [], .int 1⟩, ofOperator .closeBracket,
      ofOperator .closeBracket])) ++
    field "Attributes" (braced (field "default" (braced []))))

def scaledExtraction : Extraction :=
  ⟨"1", [⟨"A", "a", true, 1, 1, none, some ⟨[.range 0 1, .list [1]], none⟩, ⟨.unset, ∅⟩⟩]⟩

set_option maxRecDepth 2000 in
theorem scaled_extraction :
    (ofSource (scriptText "1" scaledTable) .standard).outcome = .ok scaledExtraction := by
  have hrange : (ofName "range").Reads := fun _ => rfl
  have hreads : ∀ w ∈ scaledTable, w.Reads := by
    unfold scaledTable
    simp (disch := decide) only [braced_reads, field_reads, List.forall_mem_append,
      List.forall_mem_cons, ofText_reads, digit_one_reads, ofOperator_reads, hrange, and_self,
      true_and]
    simp
  unfold ofSource
  rw [logicalLines_scriptText (by decide) hreads (by decide)]
  rfl

theorem scaled_withinBounds :
    ∃ p, (ofSource (scriptText "1" scaledTable) .standard).outcome = .ok ⟨"1", [p]⟩ ∧
      p.scaleRules = some ⟨[.range 0 1, .list [1]], none⟩ ∧ p.WithinBounds :=
  ⟨_, scaled_extraction, rfl,
    (ofSource_bounded (scriptText "1" scaledTable) .standard).1 _ scaled_extraction _
      List.mem_cons_self⟩

end ScaledScript

end Extraction

end IconConstraints
