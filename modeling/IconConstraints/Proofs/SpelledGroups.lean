import IconConstraints.Proofs.Bindings
import IconConstraints.Proofs.PatchSetBounds
import IconConstraints.Proofs.Ranges

/-!
# Scale groups in two spellings

A scale group is written as a range or as a list of codepoints.  Of a range with step one only
the bounds are looked at, of any other group every element is.  Where both spellings are
accepted they are the same group; but the bounds of a range are no elements of it.  A range up
to the greatest codepoint stops behind the codespace, and an empty range may start anywhere, so
these are refused although the lists of their elements are not.
-/

namespace IconConstraints

open Outcome

namespace Value

variable {start stop : Int64}

/-! ## Ranges with step one -/

theorem rangeLength_one (start stop : Int) : rangeLength start stop 1 = (stop - start).toNat := by
  unfold rangeLength
  simp
  omega

theorem mem_rangeItems_one {k : Int} :
    k ∈ (rangeItems start stop 1).map Int64.toInt ↔ start.toInt ≤ k ∧ k < stop.toInt := by
  rw [(rangeItems_isProgression (by decide)).mem_iff]
  simp [Spans]

theorem toNat_rangeItems_one (h : 0 ≤ start.toInt ∨ stop.toInt ≤ start.toInt) :
    (rangeItems start stop 1).map (fun n => n.toInt.toNat) =
      List.range' start.toInt.toNat (stop.toInt - start.toInt).toNat := by
  have hints := congrArg (List.map Int.toNat) (toInt_rangeItems start stop 1)
  rw [List.map_map, List.map_map] at hints
  change (rangeItems start stop 1).map (Int.toNat ∘ Int64.toInt) = _
  rw [hints, show (1 : Int64).toInt = 1 from rfl, rangeLength_one, List.range'_eq_map_range]
  refine List.map_congr_left fun i hi => ?_
  have hlt := List.mem_range.mp hi
  simp only [Function.comp_apply]
  omega

end Value

namespace PatchSet

open Value

variable {start stop : Int64} {ns : List Int64}

/-! ## Codepoints -/

def InCodespace (n : Int) : Prop :=
  0 ≤ n ∧ n ≤ greatestCodepoint

instance (n : Int) : Decidable (InCodespace n) :=
  inferInstanceAs (Decidable (_ ∧ _))

theorem codepoint_int (key : String) (n : Int64) :
    codepoint key (.int n) =
      if InCodespace n.toInt then .ok n.toInt.toNat else .error (.notCodepoint key (.int n)) := by
  rfl

/-! ## One group -/

/-- The codepoints of a group, if it is read at all. -/
def groupMeaning? (v : Value) : Option (List Codepoint) :=
  (scaleGroup v).toOption.map ScaleGroup.codepoints

/-- The elements of a range with step one, as codepoints. -/
def spelled (start stop : Int64) : List Codepoint :=
  List.range' start.toInt.toNat (stop.toInt - start.toInt).toNat

/-- A range is read by its bounds, of which the second is taken to be no less than the first. -/
theorem scaleGroup_range :
    scaleGroup (.range start stop 1) = (do
      let first ← codepoint "ScaleGroups" (.int start)
      let last ← codepoint "ScaleGroups" (.int (if stop < start then start else stop))
      return .range first last) := by
  rfl

theorem groupMeaning?_range :
    groupMeaning? (.range start stop 1) =
      if InCodespace start.toInt ∧ InCodespace (max start.toInt stop.toInt)
      then some (spelled start stop) else none := by
  have hgreater : (if stop < start then start else stop).toInt = max start.toInt stop.toInt := by
    split
    case isTrue h =>
      have := Int64.lt_iff_toInt_lt.mp h
      omega
    case isFalse h =>
      have := Int64.lt_iff_toInt_lt.not.mp h
      omega
  rw [groupMeaning?, scaleGroup_range, codepoint_int, codepoint_int, hgreater]
  by_cases hfirst : InCodespace start.toInt
  · by_cases hlast : InCodespace (max start.toInt stop.toInt)
    · have hlength : (max start.toInt stop.toInt).toNat - start.toInt.toNat =
          (stop.toInt - start.toInt).toNat := by
        have := hfirst.1
        omega
      simp only [hfirst, hlast, if_true, and_self]
      exact congrArg (fun n => some (List.range' start.toInt.toNat n)) hlength
    · simp only [hfirst, hlast, if_true, if_false, and_false]
      rfl
  · simp only [hfirst, if_false, false_and]
    rfl

theorem groupMeaning?_ints (ns : List Int64) [Decidable (∀ n ∈ ns, InCodespace n.toInt)] :
    groupMeaning? (.list (ns.map .int)) =
      if ∀ n ∈ ns, InCodespace n.toInt then some (ns.map fun n => n.toInt.toNat) else none := by
  have hread : scaleGroup (.list (ns.map .int)) =
      (ns.mapM fun n => codepoint "ScaleGroups" (.int n)).map ScaleGroup.list := by
    change ((ns.map Value.int).mapM (codepoint "ScaleGroups")).map ScaleGroup.list = _
    rw [List.mapM_map]
    rfl
  rw [groupMeaning?, hread]
  by_cases hall : ∀ n ∈ ns, InCodespace n.toInt
  · have hok : ∀ n ∈ ns, codepoint "ScaleGroups" (.int n) = .ok n.toInt.toNat := fun n hn => by
      rw [codepoint_int, if_pos (hall n hn)]
    rw [if_pos hall, mapM_eq_ok hok]
    rfl
  · rw [if_neg hall]
    cases hcps : ns.mapM fun n => codepoint "ScaleGroups" (.int n) with
    | error => rfl
    | ok cps =>
        refine absurd (fun n hn => ?_) hall
        obtain ⟨cp, hcp⟩ := exists_of_mapM hcps n hn
        rw [codepoint_int] at hcp
        by_contra hn
        rw [if_neg hn] at hcp
        cases hcp

/-- All elements of a range are codepoints if there are none, or if the bounds enclose codepoints
alone. -/
theorem forall_inCodespace_iff :
    (∀ n ∈ rangeItems start stop 1, InCodespace n.toInt) ↔
      stop.toInt ≤ start.toInt ∨ 0 ≤ start.toInt ∧ stop.toInt ≤ greatestCodepoint + 1 := by
  have hmem : (∀ n ∈ rangeItems start stop 1, InCodespace n.toInt) ↔
      ∀ k, start.toInt ≤ k ∧ k < stop.toInt → InCodespace k := by
    simp only [← mem_rangeItems_one, List.forall_mem_map]
  rw [hmem]
  constructor
  · intro h
    by_cases hempty : stop.toInt ≤ start.toInt
    · exact .inl hempty
    · have hfirst := (h start.toInt (by omega)).1
      have hlast := (h (stop.toInt - 1) (by omega)).2
      exact .inr (by omega)
  · rintro (hempty | hbounds) k hk
    · omega
    · exact ⟨by omega, by omega⟩

theorem groupMeaning?_items :
    groupMeaning? (.list ((rangeItems start stop 1).map .int)) =
      if stop.toInt ≤ start.toInt ∨ 0 ≤ start.toInt ∧ stop.toInt ≤ greatestCodepoint + 1
      then some (spelled start stop) else none := by
  rw [groupMeaning?_ints]
  simp only [forall_inCodespace_iff]
  split
  case isTrue h => rw [toNat_rangeItems_one (by omega), spelled]
  case isFalse => rfl

/-! ## Scale rules -/

variable {pairs : List (Value × Value)} {groups groups' : Value}

/-- The codepoints of every group and the shift mode, if the rules are read at all. -/
def rulesMeaning? (v : Value) : Option (List (List Codepoint) × Option String) :=
  (scaleRulesOf v).toOption.map fun rules =>
    (rules.groups.map ScaleGroup.codepoints, rules.shiftMode)

/-- The elements of a value that may list scale groups. -/
def groupItems? : Value → Option (List Value)
  | .list items => some items
  | .tuple items => some items
  | _ => none

theorem rulesMeaning?_dict (pairs : List (Value × Value)) :
    rulesMeaning? (.dict pairs) = (do
      let groups ← (Value.dict pairs).field? "ScaleGroups"
      let items ← groupItems? groups
      let meanings ← items.mapM groupMeaning?
      let mode ← (optional shiftMode ((Value.dict pairs).field? "ShiftMode")).toOption
      return (meanings, mode)) := by
  have hitems : ∀ items : List Value, (do
      let groups ← items.mapM scaleGroup
      let mode ← optional shiftMode ((Value.dict pairs).field? "ShiftMode")
      return (⟨groups, mode⟩ : ScaleRules)).toOption.map
        (fun rules : ScaleRules => (rules.groups.map ScaleGroup.codepoints, rules.shiftMode)) = (do
      let meanings ← items.mapM groupMeaning?
      let mode ← (optional shiftMode ((Value.dict pairs).field? "ShiftMode")).toOption
      return (meanings, mode)) := by
    intro items
    unfold groupMeaning?
    rw [← toOption_mapM]
    cases items.mapM scaleGroup with
    | error => rfl
    | ok groups => cases optional shiftMode ((Value.dict pairs).field? "ShiftMode") <;> rfl
  unfold rulesMeaning? scaleRulesOf
  dsimp only
  cases (Value.dict pairs).field? "ScaleGroups" with
  | none => rfl
  | some groups =>
      cases groups with
      | list items => exact hitems items
      | tuple items => exact hitems items
      | _ => rfl

/-- A value with a range of step one among its elements, and the value with the list of the
elements of the range in its place. -/
inductive SpelledOut (start stop : Int64) : Value → Value → Prop
  | list (before after : List Value) : SpelledOut start stop
      (.list (before ++ .range start stop 1 :: after))
      (.list (before ++ .list ((rangeItems start stop 1).map .int) :: after))
  | tuple (before after : List Value) : SpelledOut start stop
      (.tuple (before ++ .range start stop 1 :: after))
      (.tuple (before ++ .list ((rangeItems start stop 1).map .int) :: after))
  | set (before after : List Value) : SpelledOut start stop
      (.set (before ++ .range start stop 1 :: after))
      (.set (before ++ .list ((rangeItems start stop 1).map .int) :: after))

/-- All elements are codepoints, but the bounds are not. -/
def RefusedByBounds (start stop : Int) : Prop :=
  stop ≤ start ∧ ¬ InCodespace start ∨
    0 ≤ start ∧ start < stop ∧ stop = greatestCodepoint + 1

theorem groupMeaning?_of_accepted (h : ¬ RefusedByBounds start.toInt stop.toInt) :
    groupMeaning? (.range start stop 1) =
      groupMeaning? (.list ((rangeItems start stop 1).map .int)) := by
  have hsame : InCodespace start.toInt ∧ InCodespace (max start.toInt stop.toInt) ↔
      stop.toInt ≤ start.toInt ∨ 0 ≤ start.toInt ∧ stop.toInt ≤ greatestCodepoint + 1 := by
    unfold RefusedByBounds InCodespace at *
    omega
  rw [groupMeaning?_range, groupMeaning?_items]
  simp only [hsame]

theorem groupMeaning?_of_refused (h : RefusedByBounds start.toInt stop.toInt) :
    groupMeaning? (.range start stop 1) = none := by
  rw [groupMeaning?_range, if_neg]
  unfold RefusedByBounds InCodespace at *
  omega

theorem SpelledOut.items (h : SpelledOut start stop groups groups') :
    (groupItems? groups = none ∧ groupItems? groups' = none) ∨
    ∃ before after, groupItems? groups = some (before ++ .range start stop 1 :: after) ∧
      groupItems? groups' =
        some (before ++ .list ((rangeItems start stop 1).map .int) :: after) := by
  cases h with
  | list before after => exact .inr ⟨before, after, rfl, rfl⟩
  | tuple before after => exact .inr ⟨before, after, rfl, rfl⟩
  | set => exact .inl ⟨rfl, rfl⟩

/-- Scale rules with other groups, in the place of the groups that they have. -/
def replacingGroups (pairs : List (Value × Value)) (groups : Value) : Value :=
  .dict (insertPair (.str "ScaleGroups") groups pairs)

theorem field?_replacingGroups (hpairs : KeysApart pairs) (groups : Value) (name : String) :
    (replacingGroups pairs groups).field? name =
      if name = "ScaleGroups" then some groups else (Value.dict pairs).field? name := by
  have hkey : eqv (.str "ScaleGroups") (.str name) = true ↔ name = "ScaleGroups" := by
    rw [eqv_str_iff, str.injEq]
  unfold field? replacingGroups
  rw [get?_insertPair hpairs (.str _)]
  simp only [hkey]

theorem rulesMeaning?_replacingGroups (hpairs : KeysApart pairs) (groups : Value) :
    rulesMeaning? (replacingGroups pairs groups) = (do
      let items ← groupItems? groups
      let meanings ← items.mapM groupMeaning?
      let mode ← (optional shiftMode ((Value.dict pairs).field? "ShiftMode")).toOption
      return (meanings, mode)) := by
  have hgroups := field?_replacingGroups hpairs groups "ScaleGroups"
  have hmode := field?_replacingGroups hpairs groups "ShiftMode"
  rw [if_pos rfl] at hgroups
  rw [if_neg (by decide)] at hmode
  unfold replacingGroups at *
  rw [rulesMeaning?_dict, hgroups, hmode]
  rfl

/-- Spelling a range out changes nothing unless it was refused for its bounds, and then the
rules that were refused are read unless they have another fault. -/
theorem spelled_out_iff {switches : Switches} {e : Expr}
    (hrules : e.eval switches = .ok (.dict pairs))
    (hgroups : (Value.dict pairs).field? "ScaleGroups" = some groups)
    (hspelled : SpelledOut start stop groups groups') :
    (rulesMeaning? (.dict pairs) = rulesMeaning? (replacingGroups pairs groups') ↔
      ¬ RefusedByBounds start.toInt stop.toInt ∨
        rulesMeaning? (replacingGroups pairs groups') = none) ∧
    (RefusedByBounds start.toInt stop.toInt → rulesMeaning? (.dict pairs) = none) := by
  have hpairs := Distinct.keysApart (distinct_kept.eval e hrules)
  have hrefused : RefusedByBounds start.toInt stop.toInt → rulesMeaning? (.dict pairs) = none := by
    intro h
    rw [rulesMeaning?_dict, hgroups, Option.bind_eq_bind, Option.bind_some]
    obtain ⟨hnone, -⟩ | ⟨before, after, hitems, -⟩ := hspelled.items
    · rw [hnone]
      rfl
    · rw [hitems]
      simp [List.mapM_append, List.mapM_cons, groupMeaning?_of_refused h]
  have haccepted : ¬ RefusedByBounds start.toInt stop.toInt →
      rulesMeaning? (.dict pairs) = rulesMeaning? (replacingGroups pairs groups') := by
    intro h
    rw [rulesMeaning?_replacingGroups hpairs, rulesMeaning?_dict, hgroups]
    obtain ⟨hnone, hnone'⟩ | ⟨before, after, hitems, hitems'⟩ := hspelled.items
    · simp [hnone, hnone']
    · simp [hitems, hitems', List.mapM_append, List.mapM_cons, groupMeaning?_of_accepted h]
  refine ⟨⟨fun hsame => ?_, ?_⟩, hrefused⟩
  · by_cases h : RefusedByBounds start.toInt stop.toInt
    · exact .inr (hsame ▸ hrefused h)
    · exact .inl h
  · rintro (h | hnone)
    · exact haccepted h
    · by_cases h : RefusedByBounds start.toInt stop.toInt
      · rw [hrefused h, hnone]
      · exact haccepted h

/-- Scale rules as they are displayed. -/
def displayedRules (groups : Expr) : Expr :=
  .dict [.pair (.str "ScaleGroups") groups, .pair (.str "ShiftMode") (.str "x")]

def displayedRange (start stop : Int64) : Expr :=
  .call (.name "range") [.positional (.int start), .positional (.int stop)]

theorem spelled_out_behind_list :
    ∃ pairs, (displayedRules (.tuple [.list [.int 5], displayedRange 3 6])).eval .none =
        .ok (.dict pairs) ∧
      rulesMeaning? (.dict pairs) = some ([[5], [3, 4, 5]], some "x") ∧
      rulesMeaning? (replacingGroups pairs
        (.tuple [.list [.int 5], .list [.int 3, .int 4, .int 5]])) =
          some ([[5], [3, 4, 5]], some "x") := by
  have hrules : (displayedRules (.tuple [.list [.int 5], displayedRange 3 6])).eval .none =
      .ok (.dict [(.str "ScaleGroups", .tuple [.list [.int 5], .range 3 6 1]),
        (.str "ShiftMode", .str "x")]) := rfl
  have hspelled : SpelledOut 3 6 (.tuple [.list [.int 5], .range 3 6 1])
      (.tuple [.list [.int 5], .list [.int 3, .int 4, .int 5]]) := .tuple [.list [.int 5]] []
  have haccepted : ¬ RefusedByBounds (3 : Int64).toInt (6 : Int64).toInt := by
    unfold RefusedByBounds
    decide
  have hsame := (spelled_out_iff hrules rfl hspelled).1.mpr (.inl haccepted)
  exact ⟨_, hrules, rfl, hsame.symm⟩

/-- The last two codepoints, and no codepoints at all, are refused as ranges. -/
theorem ranges_refused_by_bounds :
    SpelledOut 0x10fffe 0x110000 (.list [.range 0x10fffe 0x110000 1])
      (.list [.list [.int 0x10fffe, .int 0x10ffff]]) ∧
    (∃ pairs, (displayedRules (.list [displayedRange 0x10fffe 0x110000])).eval .none =
        .ok (.dict pairs) ∧
      rulesMeaning? (.dict pairs) = none ∧
      rulesMeaning? (replacingGroups pairs (.list [.list [.int 0x10fffe, .int 0x10ffff]])) =
        some ([[0x10fffe, 0x10ffff]], some "x")) ∧
    SpelledOut (-1) (-1) (.list [.range (-1) (-1) 1]) (.list [.list []]) ∧
    ∃ pairs, (displayedRules (.list [displayedRange (-1) (-1)])).eval .none = .ok (.dict pairs) ∧
      rulesMeaning? (.dict pairs) = none ∧
      rulesMeaning? (replacingGroups pairs (.list [.list []])) = some ([[]], some "x") :=
  ⟨.list [] [], ⟨_, rfl, rfl, rfl⟩, .list [] [], _, rfl, rfl, rfl⟩

end PatchSet

end IconConstraints
