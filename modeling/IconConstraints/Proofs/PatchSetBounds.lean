import Mathlib.Data.Int.Order.Basic
import Mathlib.Data.Nat.Basic
import Mathlib.Order.Basic
import IconConstraints.Extraction
import IconConstraints.Proofs.Scalar
import IconConstraints.Proofs.Session

/-!
# Bounds of patch sets

Whatever a field of a display evaluates to, it enters a patch set only through a reader
that has checked it.  So in every patch set of a script the codepoints are in the codespace,
the span and all ranges ascend, and no entry has both an overlap and a padding.
-/

namespace IconConstraints

open Outcome

/-! ## What the readers let through -/

/-- An entry as it is read, before glyphs are measured. -/
structure AttributeEntry.Unscaled (entry : AttributeEntry) : Prop where
  exclusive : (entry.overlap.toFloat != 0.0 && entry.yPadding.toFloat != 0.0) = false
  relativeX : entry.relativeX = .ofFloat 0.0
  relativeY : entry.relativeY = .ofFloat 0.0
  relativeWidth : entry.relativeWidth = .ofFloat 1.0
  relativeHeight : entry.relativeHeight = .ofFloat 1.0

structure ScaleGroup.WithinBounds (g : ScaleGroup) : Prop where
  codepoints : ∀ cp ∈ g.codepoints, cp ≤ greatestCodepoint
  ordered : ∀ start stop, g = .range start stop → start ≤ stop ∧ stop ≤ greatestCodepoint

structure PatchSetAttributes.WithinBounds (attributes : PatchSetAttributes) : Prop where
  default : attributes.default.Unscaled
  overrides : ∀ cp entry, attributes.overrides[cp]? = some entry →
    cp ≤ greatestCodepoint ∧ entry.Unscaled

structure PatchSet.WithinBounds (p : PatchSet) : Prop where
  span : p.symStart ≤ p.symEnd ∧ p.symEnd ≤ greatestCodepoint
  exact_iff : p.exact = true ↔ p.srcStart = none
  start : ∀ cp, p.srcStart = some cp → cp ≤ greatestCodepoint
  groups : ∀ rules, p.scaleRules = some rules → ∀ g ∈ rules.groups, g.WithinBounds
  attributes : p.attributes.WithinBounds

namespace PatchSet

/-! ## Codepoints and scale groups -/

theorem codepoint_eq_ok {key : String} {v : Value} {cp : Codepoint}
    (h : codepoint key v = .ok cp) :
    ∃ n, v = .int n ∧ (cp : Int) = n.toInt ∧ cp ≤ greatestCodepoint := by
  unfold codepoint at h
  split at h
  case h_1 n =>
    split at h
    case isTrue hbounds =>
      cases h
      obtain ⟨hlower, hupper⟩ := hbounds
      exact ⟨n, rfl, Int.toNat_of_nonneg hlower, Int.toNat_le.mpr hupper⟩
    case isFalse => cases h
  case h_2 => cases h

theorem codepoint_le {key : String} {v : Value} {cp : Codepoint}
    (h : codepoint key v = .ok cp) : cp ≤ greatestCodepoint := by
  obtain ⟨-, -, -, hle⟩ := codepoint_eq_ok h
  exact hle

theorem range_withinBounds {start stop : Codepoint} (hordered : start ≤ stop)
    (hstop : stop ≤ greatestCodepoint) : (ScaleGroup.range start stop).WithinBounds := by
  constructor
  case codepoints =>
    intro cp hcp
    obtain ⟨-, hbelow⟩ : start ≤ cp ∧ cp < start + (stop - start) := List.mem_range'_1.mp hcp
    rw [Nat.add_sub_cancel' hordered] at hbelow
    exact (Nat.le_of_lt hbelow).trans hstop
  case ordered =>
    intro a b hab
    cases hab
    exact ⟨hordered, hstop⟩

theorem scaleGroup_withinBounds {v : Value} {g : ScaleGroup} (h : scaleGroup v = .ok g) :
    g.WithinBounds := by
  unfold scaleGroup at h
  split at h
  case h_1 start stop =>
    obtain ⟨first, hfirst, h⟩ := bind_eq_ok.mp h
    obtain ⟨last, hlast, h⟩ := bind_eq_ok.mp h
    cases h
    refine range_withinBounds ?_ (codepoint_le hlast)
    obtain ⟨_, ⟨⟩, hfirst, -⟩ := codepoint_eq_ok hfirst
    obtain ⟨_, ⟨⟩, hlast, -⟩ := codepoint_eq_ok hlast
    -- The stop is read as the start if it is less.
    split at hlast
    case isTrue => exact Int.ofNat_le.mp (hfirst.trans hlast.symm).le
    case isFalse hascends =>
      have := Int64.lt_iff_toInt_lt.not.mp hascends
      exact Int.ofNat_le.mp (by rw [hfirst, hlast]; exact Int.not_lt.mp this)
  case h_2 =>
    split at h
    case h_1 => cases h
    case h_2 =>
      obtain ⟨cps, hcps, rfl⟩ := map_eq_ok.mp h
      exact ⟨mem_of_mapM (fun _ _ => codepoint_le) hcps, fun _ _ hrange => by cases hrange⟩

theorem scaleRulesOf_withinBounds {v : Value} {rules : ScaleRules}
    (h : scaleRulesOf v = .ok rules) : ∀ g ∈ rules.groups, g.WithinBounds := by
  unfold scaleRulesOf at h
  split at h
  case h_2 => cases h
  case h_1 pairs =>
    split at h
    case h_1 => cases h
    case h_2 groups _ =>
      have hitems : ∀ items : List Value, (do
          let groups ← items.mapM scaleGroup
          let mode ← optional shiftMode ((Value.dict pairs).field? "ShiftMode")
          return (⟨groups, mode⟩ : ScaleRules)) = .ok rules →
          ∀ g ∈ rules.groups, g.WithinBounds := by
        intro items h
        obtain ⟨groups, hgroups, h⟩ := bind_eq_ok.mp h
        obtain ⟨mode, -, h⟩ := bind_eq_ok.mp h
        cases h
        exact mem_of_mapM (fun _ _ => scaleGroup_withinBounds) hgroups
      cases groups with
      | list items => exact hitems items h
      | tuple items => exact hitems items h
      | _ => cases h

/-! ## Attributes -/

theorem attributeEntry_unscaled {v : Value} {entry : AttributeEntry}
    (h : attributeEntry v = .ok entry) : entry.Unscaled := by
  unfold attributeEntry at h
  split at h
  case h_2 => cases h
  case h_1 =>
    obtain ⟨params, -, h⟩ := bind_eq_ok.mp h
    obtain ⟨overlap, -, h⟩ := bind_eq_ok.mp h
    obtain ⟨padding, -, h⟩ := bind_eq_ok.mp h
    split at h
    case isTrue => cases h
    case isFalse hexclusive =>
      obtain ⟨align, -, h⟩ := bind_eq_ok.mp h
      obtain ⟨valign, -, h⟩ := bind_eq_ok.mp h
      obtain ⟨stretch, -, h⟩ := bind_eq_ok.mp h
      obtain ⟨ratio, -, h⟩ := bind_eq_ok.mp h
      cases h
      exact ⟨by simpa using hexclusive, rfl, rfl, rfl, rfl⟩

/-- What has been read of the attributes so far. -/
structure PartialWithinBounds (found : PartialAttributes) : Prop where
  default : ∀ entry, found.default = some entry → entry.Unscaled
  overrides : ∀ cp entry, found.overrides[cp]? = some entry →
    cp ≤ greatestCodepoint ∧ entry.Unscaled

theorem addAttribute_withinBounds {found next : PartialAttributes} {pair : Value × Value}
    (hfound : PartialWithinBounds found) (h : addAttribute found pair = .ok next) :
    PartialWithinBounds next := by
  unfold addAttribute at h
  obtain ⟨entry, hentry, h⟩ := bind_eq_ok.mp h
  have hunscaled := attributeEntry_unscaled hentry
  split at h
  case h_1 =>
    cases h
    exact ⟨fun e he => Option.some.inj he ▸ hunscaled, hfound.overrides⟩
  case h_2 =>
    obtain ⟨cp, hcp, h⟩ := bind_eq_ok.mp h
    cases h
    refine ⟨hfound.default, fun other e he => ?_⟩
    rw [Std.ExtTreeMap.getElem?_insert] at he
    split at he
    case isTrue hsame =>
      cases he
      have heq : cp = other := by simpa using hsame
      exact ⟨heq ▸ codepoint_le hcp, hunscaled⟩
    case isFalse => exact hfound.overrides other e he
  case h_3 => cases h

theorem foldlM_addAttribute {pairs : List (Value × Value)} {found last : PartialAttributes}
    (hfound : PartialWithinBounds found) (h : pairs.foldlM addAttribute found = .ok last) :
    PartialWithinBounds last := by
  induction pairs generalizing found with
  | nil => cases h; exact hfound
  | cons pair rest ih =>
      obtain ⟨next, hnext, h⟩ := bind_eq_ok.mp h
      exact ih (addAttribute_withinBounds hfound hnext) h

theorem attributesOf_withinBounds {v : Value} {attributes : PatchSetAttributes}
    (h : attributesOf v = .ok attributes) : attributes.WithinBounds := by
  unfold attributesOf at h
  split at h
  case h_2 => cases h
  case h_1 =>
    obtain ⟨found, hfound, h⟩ := bind_eq_ok.mp h
    have hbounds := foldlM_addAttribute ⟨by simp, by simp⟩ hfound
    split at h
    case h_1 entry hdefault =>
      cases h
      exact ⟨hbounds.default entry hdefault, hbounds.overrides⟩
    case h_2 => cases h

/-! ## Patch sets -/

theorem checkMode_iff {exact : Bool} {srcStart : Option Codepoint}
    (h : checkMode exact srcStart = .ok ()) : exact = true ↔ srcStart = none := by
  unfold checkMode at h
  split at h
  case h_1 => cases h
  case h_2 => cases h
  case h_3 hstart hnone =>
    cases exact <;> cases srcStart <;> simp_all

theorem optional_eq_ok {α : Type} {read : Value → FieldResult α} {v : Option Value}
    {a : α} (h : optional read v = .ok (some a)) : ∃ w, read w = .ok a := by
  unfold optional at h
  split at h
  case h_1 => cases h
  case h_2 => cases h
  case h_3 w _ =>
    obtain ⟨b, hb, hab⟩ := map_eq_ok.mp h
    cases hab
    exact ⟨w, hb⟩

theorem ofFields_withinBounds {fields : Fields} {p : PatchSet} (h : ofFields fields = .ok p) :
    p.WithinBounds := by
  unfold ofFields at h
  obtain ⟨name, -, h⟩ := bind_eq_ok.mp h
  obtain ⟨filename, -, h⟩ := bind_eq_ok.mp h
  obtain ⟨first, -, h⟩ := bind_eq_ok.mp h
  obtain ⟨symStart, hstart, h⟩ := bind_eq_ok.mp h
  obtain ⟨last, -, h⟩ := bind_eq_ok.mp h
  obtain ⟨symEnd, hend, h⟩ := bind_eq_ok.mp h
  split at h
  case isTrue => cases h
  case isFalse hspan =>
    obtain ⟨srcStart, hsrc, h⟩ := bind_eq_ok.mp h
    obtain ⟨⟨⟩, hmode, h⟩ := bind_eq_ok.mp h
    obtain ⟨rules, hrules, h⟩ := bind_eq_ok.mp h
    obtain ⟨table, -, h⟩ := bind_eq_ok.mp h
    obtain ⟨attributes, hattributes, h⟩ := bind_eq_ok.mp h
    cases h
    constructor
    case span => exact ⟨Nat.le_of_not_lt hspan, codepoint_le hend⟩
    case exact_iff => exact checkMode_iff hmode
    case start =>
      rintro cp rfl
      obtain ⟨v, hv⟩ := optional_eq_ok hsrc
      exact codepoint_le hv
    case groups =>
      rintro scaleRules rfl
      obtain ⟨v, hv⟩ := optional_eq_ok hrules
      exact scaleRulesOf_withinBounds hv
    case attributes => exact attributesOf_withinBounds hattributes

theorem read_withinBounds {symbols : Symbols} {options : ExtractOptions} {index : Nat}
    {items : List DictItem} {p : PatchSet}
    (h : (read symbols options index items).outcome = .ok (some p)) : p.WithinBounds := by
  unfold read at h
  obtain ⟨fields, -, h⟩ := Report.bind_eq_ok.mp h
  cases fields with
  | none => cases h
  | some fields =>
      cases hfields : ofFields fields with
      | error fault => simp [hfields, Except.map, Except.mapError] at h
      | ok q =>
          simp only [hfields, Except.map, Except.mapError, Report.outcome_ofExcept] at h
          cases h
          exact ofFields_withinBounds hfields

end PatchSet

/-! ## Extractions -/

namespace Extraction

variable {symbols : Symbols} {options : ExtractOptions}

/-- All patch sets found so far are within bounds. -/
def Found.WithinBounds (found : Found) : Prop :=
  ∀ p ∈ found.patchSets, p.WithinBounds

theorem addElement_withinBounds {found next : Found} {element : Expr}
    (hfound : found.WithinBounds)
    (h : (addElement symbols options found element).outcome = .ok next) : next.WithinBounds := by
  unfold addElement at h
  split at h
  case h_2 => cases h; exact hfound
  case h_1 =>
    obtain ⟨p, hp, h⟩ := Report.bind_eq_ok.mp h
    cases p with
    | none => cases h; exact hfound
    | some p =>
        obtain ⟨-, -, h⟩ := Report.bind_eq_ok.mp h
        cases h
        exact List.forall_mem_cons.mpr ⟨PatchSet.read_withinBounds hp, hfound⟩

theorem foldlM_withinBounds {α : Type} {step : Found → α → Report Found}
    (hstep : ∀ {found next : Found} {a : α}, found.WithinBounds →
      (step found a).outcome = .ok next → next.WithinBounds)
    {l : List α} {found last : Found} (hfound : found.WithinBounds)
    (h : (l.foldlM step found).outcome = .ok last) : last.WithinBounds := by
  induction l generalizing found with
  | nil => cases h; exact hfound
  | cons a l ih =>
      rw [List.foldlM_cons] at h
      obtain ⟨next, hnext, h⟩ := Report.bind_eq_ok.mp h
      exact ih (hstep hfound hnext) h

theorem addStatement_withinBounds {found next : Found} {l : Source.LogicalLine}
    (hfound : found.WithinBounds)
    (h : (addStatement symbols options found l).outcome = .ok next) : next.WithinBounds := by
  unfold addStatement at h
  split at h
  case h_1 => cases h; exact hfound
  case h_2 =>
    split at h
    case isFalse => cases h; exact hfound
    case isTrue =>
      split at h
      case h_1 => cases h
      case h_2 => exact foldlM_withinBounds addElement_withinBounds hfound h
      case h_3 =>
        obtain ⟨-, -, h⟩ := Report.bind_eq_ok.mp h
        cases h
        exact hfound

theorem patchSets_withinBounds {source : String} {x : Extraction}
    (h : (ofSource source options).outcome = .ok x) : ∀ p ∈ x.patchSets, p.WithinBounds := by
  unfold ofSource at h
  obtain ⟨lines, -, h⟩ := Report.bind_eq_ok.mp h
  split at h
  case h_1 => cases h
  case h_2 =>
    obtain ⟨routine, -, h⟩ := Report.bind_eq_ok.mp h
    obtain ⟨-, -, h⟩ := Report.bind_eq_ok.mp h
    obtain ⟨found, hfound, h⟩ := Report.bind_eq_ok.mp h
    obtain ⟨-, -, h⟩ := Report.bind_eq_ok.mp h
    cases h
    have hempty : Found.WithinBounds ⟨[], 0⟩ := List.forall_mem_nil _
    have hall := foldlM_withinBounds addStatement_withinBounds hempty hfound
    exact fun p hp => hall p (List.mem_reverse.mp hp)

end Extraction

end IconConstraints
