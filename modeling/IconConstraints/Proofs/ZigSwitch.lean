import IconConstraints.Proofs.RuleTable
import IconConstraints.Proofs.ZigNumbers
import IconConstraints.RuleTable.ZigSwitch

/-!
# What a generated switch does

The text of a table reads back as one arm for each of its rules.  The rules of a compiled
table are disjoint, so the arm for a codepoint is the only one that covers it, and it has
the fields of the constraint that the table gives the codepoint.
-/

namespace IconConstraints

open RuleTable

namespace Zig

variable {a b name text generator : String} {ts : List Token} {r : Rule} {c : Constraint}

/-! ## The fields of an arm -/

def fieldOrder : List String :=
  ["size", "height", "max_constraint_width", "align_horizontal", "align_vertical",
   "relative_width", "relative_height", "relative_x", "relative_y",
   "pad_left", "pad_right", "pad_top", "pad_bottom", "max_xy_ratio"]

/-- The fields are those of the constraint that are set, in their order, with the texts of
their values. -/
structure Lists (fields : List (String × String)) (c : Constraint) : Prop where
  ordered : (fields.map Prod.fst).Sublist fieldOrder
  size : fields.lookup "size" = c.sizing.map fun s => "." ++ s.text
  height : fields.lookup "height" = c.height.map fun h => "." ++ h.text
  maxWidth : fields.lookup "max_constraint_width" = c.maxWidth.map fun w => toString w.toNat
  alignHorizontal : fields.lookup "align_horizontal" = c.alignHorizontal.map fun a => "." ++ a.text
  alignVertical : fields.lookup "align_vertical" = c.alignVertical.map fun a => "." ++ a.text
  relativeWidth :
    fields.lookup "relative_width" = c.relativeWidth.map fun x => Decimal.fixed 16 x.toFloat
  relativeHeight :
    fields.lookup "relative_height" = c.relativeHeight.map fun x => Decimal.fixed 16 x.toFloat
  relativeX : fields.lookup "relative_x" = c.relativeX.map fun x => Decimal.fixed 16 x.toFloat
  relativeY : fields.lookup "relative_y" = c.relativeY.map fun x => Decimal.fixed 16 x.toFloat
  padLeft : fields.lookup "pad_left" = c.padLeft.map fun x => Decimal.full x.toFloat
  padRight : fields.lookup "pad_right" = c.padRight.map fun x => Decimal.full x.toFloat
  padTop : fields.lookup "pad_top" = c.padTop.map fun x => Decimal.full x.toFloat
  padBottom : fields.lookup "pad_bottom" = c.padBottom.map fun x => Decimal.full x.toFloat
  maxRatio : fields.lookup "max_xy_ratio" = c.maxRatio.map fun x => Decimal.full x.toFloat

/-- Of fields with or without a value those that have one. -/
def setFields (fields : List (String × Option String)) : List (String × String) :=
  fields.filterMap fun (name, value) => value.map fun text => (name, text)

theorem setFields_sublist (fields : List (String × Option String)) :
    ((setFields fields).map Prod.fst).Sublist (fields.map Prod.fst) := by
  induction fields with
  | nil => exact .slnil
  | cons field fields ih =>
      obtain ⟨name, value⟩ := field
      cases value with
      | none => exact ih.cons name
      | some text => exact ih.cons_cons name

theorem lookup_setFields_none {fields : List (String × Option String)}
    (hname : name ∉ fields.map Prod.fst) : (setFields fields).lookup name = none := by
  rw [List.lookup_eq_none_iff]
  intro field hfield
  have hne : name ≠ field.1 := by
    rintro rfl
    exact hname ((setFields_sublist fields).mem (List.mem_map_of_mem hfield))
  simpa using hne

theorem lookup_setFields {fields : List (String × Option String)} {value : Option String}
    (hnames : (fields.map Prod.fst).Nodup) (hmem : (name, value) ∈ fields) :
    (setFields fields).lookup name = value := by
  induction fields with
  | nil => cases hmem
  | cons field fields ih =>
      obtain ⟨other, found⟩ := field
      rw [List.map_cons, List.nodup_cons] at hnames
      obtain heq | hrest := List.mem_cons.mp hmem
      · cases heq
        cases value with
        | none =>
            have habsent : (setFields fields).lookup name = none := lookup_setFields_none hnames.1
            exact habsent
        | some text => simp [setFields]
      · have hname : name ∈ fields.map Prod.fst := List.mem_map_of_mem (f := Prod.fst) hrest
        have hne : name ≠ other := by
          rintro rfl
          exact hnames.1 hname
        cases found with
        | none => exact ih hnames.2 hrest
        | some text =>
            change List.lookup name ((other, text) :: setFields fields) = value
            rw [List.lookup_cons, beq_eq_false_iff_ne.mpr hne]
            exact ih hnames.2 hrest

theorem zigFields_lists (c : Constraint) : Lists (zigFields c) c := by
  have hnames : fieldOrder.Nodup := by decide
  constructor
  case ordered => exact setFields_sublist _
  all_goals exact lookup_setFields hnames (by simp)

theorem isValue_point (hname : isName text = true) : IsValue ("." ++ text) := by
  have hcomma : Scans ",\n" [.mark ','] := fun _ => rfl
  refine ⟨[.mark '.', .word text], .marked rfl, ?_⟩
  rw [String.append_assoc]
  exact .point rfl .nil hname (.word hname (w := ['\n']) rfl rfl hcomma)

theorem zigFields_isValue (h : (name, text) ∈ zigFields c) : IsValue text := by
  have hsizing (s : Sizing) : isName s.text = true := by cases s <;> decide
  have hheight (s : HeightBasis) : isName s.text = true := by cases s; decide
  have halignment (s : Alignment) : isName s.text = true := by cases s <;> decide
  obtain ⟨field, hfield, hvalue⟩ := List.mem_filterMap.mp h
  simp only [List.mem_cons, List.not_mem_nil, or_false] at hfield
  rcases hfield with
    rfl | rfl | rfl | rfl | rfl | rfl | rfl | rfl | rfl | rfl | rfl | rfl | rfl | rfl
  all_goals
    simp only [Option.map_map, Option.map_eq_some_iff, Function.comp_apply, Prod.mk.injEq] at hvalue
    obtain ⟨x, -, -, rfl⟩ := hvalue
  · exact isValue_point (hsizing x)
  · exact isValue_point (hheight x)
  · exact isValue_toString _
  · exact isValue_point (halignment x)
  · exact isValue_point (halignment x)
  · exact isValue_fixed _
  · exact isValue_fixed _
  · exact isValue_fixed _
  · exact isValue_fixed _
  · exact isValue_full _
  · exact isValue_full _
  · exact isValue_full _
  · exact isValue_full _
  · exact isValue_full _

/-! ## The parts of an arm -/

theorem Spells.read (h : Spells text ts) (items : List CodepointRange)
    (fields : List (String × String)) (name : String) (rest : List Token) :
    bodies? items fields (.mark '.' :: .word name :: .mark '=' :: (ts ++ .mark ',' :: rest)) =
      bodies? items (fields ++ [(name, text)]) rest := by
  cases h with
  | @operand t h =>
      cases t with
      | number _ | word _ => cases h; rfl
      | quoted _ | ellipsis | arrow | mark _ => cases h
  | @marked d t h =>
      unfold Token.marked? at h
      split at h
      case h_4 => cases h
      all_goals
        cases h
        rfl

theorem scans_field (hname : isName name = true) (hvalue : IsValue text) :
    ∃ ts, Scans (zigField (name, text)) ts ∧ ∀ items fields rest,
      bodies? items fields (ts ++ rest) = bodies? items (fields ++ [(name, text)]) rest := by
  obtain ⟨value, hspells, hscans⟩ := hvalue
  have hindent : Scans "            " [] := fun _ => rfl
  have hassign : Scans " = " [.mark '='] := fun _ => rfl
  have hchars : " = ".toList = [' ', '=', ' '] := rfl
  have hblank : (" = " ++ (text ++ ",\n")).toList =
      ' ' :: '=' :: ' ' :: (text ++ ",\n").toList := by
    rw [String.toList_append, hchars]
    rfl
  have hword := Scans.word hname hblank rfl (hassign.append hscans)
  have hpoint : "            .".toList = "            ".toList ++ ['.'] := rfl
  have hline : zigField (name, text) = "            ." ++ name ++ " = " ++ text ++ ",\n" := rfl
  rw [hline, String.append_assoc, String.append_assoc, String.append_assoc]
  refine ⟨_, .point hpoint hindent hname hword, fun items fields rest => ?_⟩
  have hread := hspells.read items fields name rest
  simpa using hread

theorem scans_fields {fields : List (String × String)}
    (h : ∀ field ∈ fields, isName field.1 = true ∧ IsValue field.2) :
    ∃ ts, Scans (String.join (fields.map zigField)) ts ∧ ∀ items before rest,
      bodies? items before (ts ++ rest) = bodies? items (before ++ fields) rest := by
  induction fields with
  | nil => exact ⟨[], .nil, fun items before rest => by simp⟩
  | cons field fields ih =>
      obtain ⟨hname, hvalue⟩ := h field (by simp)
      obtain ⟨ts, hscans, hread⟩ := scans_field hname hvalue
      obtain ⟨us, hscans', hread'⟩ := ih fun field hfield => h field (by simp [hfield])
      refine ⟨ts ++ us, ?_, fun items before rest => ?_⟩
      · rw [List.map_cons, String.join_cons]
        exact hscans.append hscans'
      · rw [List.append_assoc, hread, hread', List.append_assoc]
        rfl

theorem arms?_single (items : List CodepointRange) (n : Nat) (rest : List Token) :
    arms? items (.number (Text.hex n) :: .mark ',' :: rest) = arms? (items ++ [⟨n, n⟩]) rest := by
  rw [arms?, hexNumber?_hex]

theorem arms?_range (items : List CodepointRange) (m n : Nat) (rest : List Token) :
    arms? items (.number (Text.hex m) :: .ellipsis :: .number (Text.hex n) :: .mark ',' :: rest) =
      arms? (items ++ [⟨m, n⟩]) rest := by
  rw [arms?, hexNumber?_hex, hexNumber?_hex]

theorem scans_range (range : CodepointRange) :
    ∃ ts, Scans (zigRange range) ts ∧ ∀ items rest,
      arms? items (ts ++ rest) = arms? (items ++ [range]) rest := by
  have hindent : Scans "        " [] := fun _ => rfl
  have hdots : Scans "..." [.ellipsis] := fun _ => rfl
  have hchars : "...".toList = ['.', '.', '.'] := rfl
  have hhex (n : Nat) : String.ofList (Text.hex n).toList = Text.hex n := String.ofList_toList
  have hend (n : Nat) : Scans (Text.hex n ++ ",\n") [.number (Text.hex n), .mark ','] := by
    have hnumber := scans_number_comma (isNumber_hex n)
    rwa [hhex] at hnumber
  obtain ⟨first, last⟩ := range
  unfold zigRange
  split
  case isTrue hsingle =>
    obtain rfl : first = last := by simpa [CodepointRange.isSingle] using hsingle
    rw [String.append_assoc]
    exact ⟨_, hindent.append (hend first), fun items rest => arms?_single items first rest⟩
  case isFalse =>
    have hstop (c : Char) (rest : List Char) :
        continuesNumber c (("..." ++ (Text.hex last ++ ",\n")).toList ++ rest) = false := by
      have hbreaks : isWordChar '.' = false := rfl
      rw [String.toList_append, hchars]
      simp [continuesNumber, hbreaks]
    have hfirst := Scans.number (isNumber_hex first) hstop (hdots.append (hend last))
    rw [hhex] at hfirst
    rw [String.append_assoc, String.append_assoc, String.append_assoc]
    exact ⟨_, hindent.append hfirst, fun items rest => arms?_range items first last rest⟩

theorem scans_ranges (ranges : List CodepointRange) :
    ∃ ts, Scans (String.join (ranges.map zigRange)) ts ∧ ∀ items rest,
      arms? items (ts ++ rest) = arms? (items ++ ranges) rest := by
  induction ranges with
  | nil => exact ⟨[], .nil, fun items rest => by simp⟩
  | cons range ranges ih =>
      obtain ⟨ts, hscans, hread⟩ := scans_range range
      obtain ⟨us, hscans', hread'⟩ := ih
      refine ⟨ts ++ us, ?_, fun items rest => ?_⟩
      · rw [List.map_cons, String.join_cons]
        exact hscans.append hscans'
      · rw [List.append_assoc, hread, hread', List.append_assoc]
        rfl

/-! ## Arms -/

def armOf (r : Rule) : Arm :=
  ⟨r.ranges, zigFields r.constraint⟩

theorem scans_arm (r : Rule) :
    ∃ ts, Scans (zigArm r) ts ∧
      ∀ rest, arms? [] (ts ++ rest) = (arms? [] rest).map (armOf r :: ·) := by
  have hopen : Scans "        => .\x7b\n" [.arrow, .mark '.', .mark '\x7b'] := fun _ => rfl
  have hclose : Scans "        \x7d,\n" [.mark '\x7d', .mark ','] := fun _ => rfl
  have hordered := (zigFields_lists r.constraint).ordered
  have hnames : ∀ name ∈ fieldOrder, isName name = true := by decide
  have hfields : ∀ field ∈ zigFields r.constraint, isName field.1 = true ∧ IsValue field.2 :=
    fun field hfield =>
      ⟨hnames field.1 (hordered.mem (List.mem_map_of_mem hfield)), zigFields_isValue hfield⟩
  obtain ⟨ts, hranges, hreadRanges⟩ := scans_ranges r.ranges
  obtain ⟨us, hbody, hreadFields⟩ := scans_fields hfields
  refine ⟨_, ((hranges.append hopen).append hbody).append hclose, fun rest => ?_⟩
  have hread := hreadFields r.ranges [] ([.mark '\x7d', .mark ','] ++ rest)
  simp only [List.append_assoc]
  rw [hreadRanges]
  exact hread

theorem scans_arms (rules : List Rule) :
    ∃ ts, Scans (String.join (rules.map zigArm)) ts ∧
      ∀ rest, arms? [] (ts ++ rest) = (arms? [] rest).map (rules.map armOf ++ ·) := by
  induction rules with
  | nil => exact ⟨[], .nil, fun rest => by simp⟩
  | cons r rules ih =>
      obtain ⟨ts, hscans, hread⟩ := scans_arm r
      obtain ⟨us, hscans', hread'⟩ := ih
      refine ⟨ts ++ us, ?_, fun rest => ?_⟩
      · rw [List.map_cons, String.join_cons]
        exact hscans.append hscans'
      · rw [List.append_assoc, hread, hread', Option.map_map]
        rfl

/-! ## Files -/

theorem scans_header (hline : '\n' ∉ generator.toList) : Scans (zigHeader generator) opening := by
  have hgenerator :
      Scans ("//! This is a generated file, produced by " ++ generator ++ "\n") [] := by
    have hslashes : "//! This is a generated file, produced by " =
        "//" ++ "! This is a generated file, produced by " := rfl
    have hplain : '\n' ∉ "! This is a generated file, produced by ".toList := by decide +kernel
    have hcomment : '\n' ∉ ("! This is a generated file, produced by " ++ generator).toList := by
      simp only [String.toList_append, List.mem_append, not_or]
      exact ⟨hplain, hline⟩
    have htext := Scans.comment hcomment
    rwa [← String.append_assoc, ← hslashes] at htext
  have hblank : Scans "\n" [] := fun _ => rfl
  have hslashes : Scans "//!\n" [] := fun _ => rfl
  have hwarning : Scans "//! DO NOT EDIT BY HAND!\n" [] :=
    .of_blank String.toList_ofList (.inr rfl) (by decide +kernel)
  have hpurpose :
      Scans "//! This file provides info extracted from the nerd fonts patcher script,\n" [] :=
    .of_blank String.toList_ofList (.inr rfl) (by decide +kernel)
  have hpurpose' :
      Scans "//! specifying the scaling/positioning attributes of various glyphs.\n" [] :=
    .of_blank String.toList_ofList (.inr rfl) (by decide +kernel)
  have himport : Scans "const Constraint = @import(\"face.zig\").RenderOptions.Constraint;\n"
      (opening.take 12) :=
    .of_blank String.toList_ofList (.inr rfl) (by decide +kernel)
  have hcomment : Scans "/// Get the constraints for the provided codepoint.\n" [] :=
    .of_blank String.toList_ofList (.inr rfl) (by decide +kernel)
  have hfunction :
      Scans "pub fn getConstraint(cp: u21) ?Constraint \x7b\n    return switch (cp) \x7b\n"
        (opening.drop 12) :=
    .of_blank String.toList_ofList (.inr rfl) (by decide +kernel)
  have hnotice := (hgenerator.append hwarning).append hslashes
  have hcomments := (hnotice.append hpurpose).append hpurpose'
  have himported := ((hcomments.append hblank).append himport).append hblank
  exact (himported.append hcomment).append hfunction

theorem scans_footer : Scans zigFooter closing :=
  .of_blank String.toList_ofList (.inr rfl) (by decide +kernel)

theorem switch?_zig (t : RuleTable) (hline : '\n' ∉ generator.toList) :
    switch? (t.zig generator) = some (t.rules.map armOf) := by
  obtain ⟨ts, hscans, hread⟩ := scans_arms t.rules
  have htokens : tokens (t.zig generator) = opening ++ (ts ++ closing) := by
    rw [← List.append_assoc]
    exact (((scans_header hline).append hscans).append scans_footer).tokens_eq
  rw [switch?, htokens, if_pos (List.prefix_append _ _), List.drop_left, hread]
  simp [show arms? [] closing = some [] from rfl]

theorem armOf_covers (r : Rule) (cp : Codepoint) : (armOf r).covers cp = r.contains cp :=
  rfl

end Zig

/-! ## Compiled tables -/

theorem filter_eq_toList_find? {α : Type} {p : α → Bool} {xs : List α}
    (h : xs.Pairwise fun x y => ¬ (p x = true ∧ p y = true)) :
    xs.filter p = (xs.find? p).toList := by
  induction xs with
  | nil => rfl
  | cons x xs ih =>
      obtain ⟨hx, hxs⟩ := List.pairwise_cons.mp h
      cases hp : p x with
      | false =>
          have hneg : ¬ p x = true := by simp [hp]
          rw [List.filter_cons_of_neg hneg, List.find?_cons_of_neg hneg, ih hxs]
      | true =>
          have hrest : xs.filter p = [] := by
            rw [List.filter_eq_nil_iff]
            exact fun y hy hpy => hx y hy ⟨hp, hpy⟩
          rw [List.filter_cons_of_pos hp, List.find?_cons_of_pos hp, hrest]
          rfl

namespace AttributeTable

theorem filter_compile_rules (t : AttributeTable) (cp : Codepoint) :
    t.compile.rules.filter (·.contains cp) = (t.compile.rules.find? (·.contains cp)).toList :=
  filter_eq_toList_find? (t.compile_rules_disjoint.imp fun h => h cp)

open Zig

/-- The generated switch gives each codepoint what the table gives it: no arm where the table has
nothing, and else a single arm, with the fields of the constraint that the table has. -/
theorem compile_zig_denotes_lookup (t : AttributeTable) {generator : String}
    (hline : '\n' ∉ generator.toList) :
    ∃ arms, switch? (t.compile.zig generator) = some arms ∧ ∀ cp,
      match t.compile.lookup? cp with
      | none => arms.filter (·.covers cp) = []
      | some c => ∃ arm, arms.filter (·.covers cp) = [arm] ∧ Lists arm.fields c := by
  refine ⟨_, switch?_zig t.compile hline, fun cp => ?_⟩
  have hcovers : (fun arm : Arm => arm.covers cp) ∘ armOf = fun r => r.contains cp :=
    funext fun r => armOf_covers r cp
  rw [List.filter_map, hcovers, filter_compile_rules, RuleTable.lookup?]
  cases t.compile.rules.find? (·.contains cp) with
  | none => rfl
  | some r => exact ⟨armOf r, rfl, zigFields_lists r.constraint⟩

/-! ## A table with two arms -/

/-- Where no other entry comes to the same rule, a codepoint has the constraint of its entry. -/
theorem lookup?_of_apart {t : AttributeTable} {cp : Codepoint} {entry : AttributeEntry}
    (h : (cp, entry) ∈ t.entries)
    (hapart : ∀ e ∈ t.entries, (Constraint.ofEntry e.2).Agrees (.ofEntry entry) → e.2 = entry) :
    t.compile.lookup? cp = some (.ofEntry entry) := by
  obtain ⟨c, hc⟩ := Option.isSome_iff_exists.mp
    (RuleTable.isSome_lookup?.mpr (compile_rules_cover h))
  obtain ⟨r, hr, hcontains, rfl⟩ := RuleTable.lookup?_eq_some hc
  have hagrees := (contains_iff_agrees hr h).mp hcontains
  obtain ⟨found, hfound, rfl⟩ := mem_compile_rules.mp hr
  obtain ⟨e, he, hconstraint⟩ := classes_constraint hfound
  change found.constraint.Agrees _ at hagrees
  rw [hconstraint] at hagrees
  rw [hc]
  change some found.constraint = _
  rw [hconstraint, hapart e he hagrees]

theorem lookup?_of_missing {t : AttributeTable} {cp : Codepoint}
    (h : ∀ entry, (cp, entry) ∉ t.entries) : t.compile.lookup? cp = none := by
  by_contra hfound
  obtain ⟨r, hr, hcontains⟩ := RuleTable.isSome_lookup?.mp (Option.isSome_iff_ne_none.mpr hfound)
  obtain ⟨entry, hentry⟩ := exists_entry_of_contains hr hcontains
  exact h entry hentry

/-- An entry of a member of a scale group. -/
def scaledEntry : AttributeEntry :=
  { AttributeEntry.unset with
    stretch := "pa", relativeWidth := .ofFloat 0.5, relativeX := .ofFloat 0.25 }

/-- An entry that reaches over its cell. -/
def paddedEntry : AttributeEntry :=
  { AttributeEntry.unset with stretch := "xy", overlap := .ofFloat 0.2 }

/-- Two codepoints with different constraints, and one between them without any. -/
def scaledAndPadded : AttributeTable :=
  ⟨(Std.ExtTreeMap.empty.insert 0xf000 ⟨"Octicons", scaledEntry⟩).insert 0xf002
    ⟨"Octicons", paddedEntry⟩, .zero⟩

theorem entries_scaledAndPadded :
    scaledAndPadded.entries = [(0xf000, scaledEntry), (0xf002, paddedEntry)] :=
  rfl

theorem scaledAndPadded_apart : ¬ (Constraint.ofEntry paddedEntry).Agrees (.ofEntry scaledEntry) ∧
    ¬ (Constraint.ofEntry scaledEntry).Agrees (.ofEntry paddedEntry) := by
  rw [← Constraint.identity_eq_iff_agrees, ← Constraint.identity_eq_iff_agrees]
  decide +kernel

theorem scaledAndPadded_zig : ∃ arms scaled padded,
    switch? (scaledAndPadded.compile.zig "glyphrules") = some arms ∧
      arms.filter (·.covers 0xf000) = [scaled] ∧ Lists scaled.fields (.ofEntry scaledEntry) ∧
      arms.filter (·.covers 0xf002) = [padded] ∧ Lists padded.fields (.ofEntry paddedEntry) ∧
      arms.filter (·.covers 0xf001) = [] := by
  have hline : '\n' ∉ "glyphrules".toList := by decide
  obtain ⟨arms, hread, hdenotes⟩ := compile_zig_denotes_lookup scaledAndPadded hline
  obtain ⟨hapart, hapart'⟩ := scaledAndPadded_apart
  have hscaled : scaledAndPadded.compile.lookup? 0xf000 = some (.ofEntry scaledEntry) :=
    lookup?_of_apart (by simp [entries_scaledAndPadded]) (by simp [entries_scaledAndPadded, hapart])
  have hpadded : scaledAndPadded.compile.lookup? 0xf002 = some (.ofEntry paddedEntry) :=
    lookup?_of_apart (by simp [entries_scaledAndPadded]) (by simp [entries_scaledAndPadded, hapart'])
  have hbetween : scaledAndPadded.compile.lookup? 0xf001 = none :=
    lookup?_of_missing (by simp [entries_scaledAndPadded])
  have hfirst := hdenotes 0xf000
  have hsecond := hdenotes 0xf002
  have hnone := hdenotes 0xf001
  rw [hscaled] at hfirst
  rw [hpadded] at hsecond
  rw [hbetween] at hnone
  obtain ⟨scaled, hscaledArm, hscaledFields⟩ := hfirst
  obtain ⟨padded, hpaddedArm, hpaddedFields⟩ := hsecond
  exact ⟨arms, scaled, padded, hread, hscaledArm, hscaledFields, hpaddedArm, hpaddedFields, hnone⟩

end AttributeTable

end IconConstraints
