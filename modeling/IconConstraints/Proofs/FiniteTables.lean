import IconConstraints.Proofs.ExtractionBounds
import IconConstraints.Proofs.FiniteConstraints
import IconConstraints.Proofs.Ownership
import IconConstraints.Proofs.SnapshotReuse

/-!
# Finite tables

Where all boxes of the destination font have small coordinates, the scale groups add no
infinite number to a table.  So a constraint of a compiled table is finite exactly if the
numbers are that the script has for it, and a script can have an infinite one.
-/

namespace IconConstraints

theorem AttributeEntry.Unscaled.relativeFinite {entry : AttributeEntry} (h : entry.Unscaled) :
    entry.RelativeFinite := by
  have hzero : (0.0 : Float).isFinite = true := by decide +kernel
  have hone : (1.0 : Float).isFinite = true := by decide +kernel
  constructor
  case x => rwa [h.relativeX, Scalar.toFloat_ofFloat]
  case y => rwa [h.relativeY, Scalar.toFloat_ofFloat]
  case width => rwa [h.relativeWidth, Scalar.toFloat_ofFloat]
  case height => rwa [h.relativeHeight, Scalar.toFloat_ofFloat]

theorem PatchSetAttributes.WithinBounds.entryFor {attributes : PatchSetAttributes}
    (h : attributes.WithinBounds) (origin : Codepoint) : (attributes.entryFor origin).Unscaled := by
  unfold PatchSetAttributes.entryFor
  cases hentry : attributes.overrides[origin]? with
  | none => exact h.default
  | some entry => exact (h.overrides origin entry hentry).2

theorem AttributeEntry.SameButRelative.numbersFinite_iff {a b : AttributeEntry}
    (h : a.SameButRelative b) : a.NumbersFinite ↔ b.NumbersFinite := by
  constructor
  · rintro ⟨hoverlap, hpadding, hratio⟩
    rw [h.overlap] at hoverlap hpadding
    rw [h.yPadding] at hpadding
    rw [h.xyRatio] at hratio
    exact ⟨hoverlap, hpadding, hratio⟩
  · rintro ⟨hoverlap, hpadding, hratio⟩
    rw [← h.overlap] at hoverlap hpadding
    rw [← h.yPadding] at hpadding
    rw [← h.xyRatio] at hratio
    exact ⟨hoverlap, hpadding, hratio⟩

/-! ## Attribute tables -/

namespace AttributeTable

variable {font : Font} {t t' : AttributeTable} {p : PatchSet} {c : Crosswalk}
  {added : List (PatchSet × Crosswalk)}

theorem add_applied (h : (t.add font p c).outcome = .ok t') :
    ∃ s u, (Scaling.apply font p c).Ends s (.ok ()) u := by
  obtain ⟨collected, s, -, happlied, -⟩ := add_eq_ok_iff.mp h
  exact ⟨.start collected, s, happlied⟩

theorem addAll_applied (h : (addAll font t added).outcome = .ok t') :
    ∀ q ∈ added, ∃ s u, (Scaling.apply font q.1 q.2).Ends s (.ok ()) u := by
  induction added generalizing t with
  | nil => exact List.forall_mem_nil _
  | cons q rest ih =>
      obtain ⟨next, hnext, h⟩ := Report.bind_eq_ok.mp h
      exact List.forall_mem_cons.mpr ⟨add_applied hnext, ih h⟩

/-- An entry has the numbers of one that a patch set has, with finite relative geometry. -/
theorem mem_entries_finite (hfont : font.Small) (hadded : ∀ q ∈ added, q.1.WithinBounds)
    (h : (addAll font .empty added).outcome = .ok t) {cp : Codepoint} {entry : AttributeEntry}
    (hentry : (cp, entry) ∈ t.entries) : ∃ q ∈ added, ∃ origin,
      entry.SameButRelative (q.1.attributes.entryFor origin) ∧ entry.RelativeFinite := by
  obtain ⟨claim, hclaim, rfl⟩ := mem_entries.mp hentry
  have hreached := (exists_entry_iff_reached h).mp ⟨_, hentry⟩
  obtain ⟨p, c, origin, howner, -, howned⟩ := exists_claim h hreached
  cases hclaim.symm.trans howned
  have hmem := (rightful?_reaches howner).1
  obtain ⟨s, u, happlied⟩ := addAll_applied h (p, c) hmem
  have hread := (hadded (p, c) hmem).attributes.entryFor origin
  exact ⟨(p, c), hmem, origin, Scaling.scaledBy_sameButRelative _ _,
    Scaling.scaledBy_finite hfont happlied cp hread.relativeFinite⟩

end AttributeTable

/-! ## Compiled tables -/

namespace Compilation

variable {σ : Type} {source : String} {options : ExtractOptions} {destination : Font}
  {origins : OriginFonts σ} {store : CrosswalkStore σ} {s t : σ} {compiled : Compilation}

/-- The constraints of a table against the entries of the patch sets it is made from. -/
structure FiniteAsRead (patchSets : List PatchSet) (table : RuleTable) : Prop where
  /-- A constraint is finite exactly if the numbers of its entry are. -/
  rules : ∀ rule ∈ table.rules, ∃ p ∈ patchSets, ∃ origin entry,
    entry.SameButRelative (p.attributes.entryFor origin) ∧ rule.constraint = .ofEntry entry ∧
      (rule.constraint.IsFinite ↔ (p.attributes.entryFor origin).NumbersFinite)
  /-- No field of a finite constraint is written as what is no number. -/
  written : ∀ rule ∈ table.rules, rule.constraint.IsFinite →
    ∀ field ∈ RuleTable.zigFields rule.constraint, field.2 ∉ nonNumbers
  /-- If all numbers that were read are finite, all constraints are. -/
  finite : (∀ p ∈ patchSets, ∀ origin, (p.attributes.entryFor origin).NumbersFinite) →
    ∀ rule ∈ table.rules, rule.constraint.IsFinite

/-- Every compilation makes such a table, whatever its origin fonts and its store are. -/
theorem ofSource_finite (hfont : destination.Small)
    (h : (ofSource source options destination origins store).Ends s (.ok compiled) t) :
    ∃ x, (Extraction.ofSource source options).outcome = .ok x ∧
      FiniteAsRead x.patchSets compiled.table := by
  obtain ⟨x, m, attributes, hread, hmerged, rfl⟩ := ofSource_eq_ok h
  have hbounds := Extraction.patchSets_withinBounds hread
  have hrules : ∀ rule ∈ attributes.compile.rules, ∃ p ∈ x.patchSets, ∃ origin entry,
      entry.SameButRelative (p.attributes.entryFor origin) ∧ rule.constraint = .ofEntry entry ∧
        (rule.constraint.IsFinite ↔ (p.attributes.entryFor origin).NumbersFinite) := by
    intro rule hrule
    -- The entry is the first of its class, and it has the numbers of the patch set.
    obtain ⟨c, hc, rfl⟩ := AttributeTable.mem_compile_rules.mp hrule
    obtain ⟨⟨cp, entry⟩, hentry, hconstraint⟩ := AttributeTable.classes_constraint hc
    have hadded : ∀ q ∈ x.patchSets.zip m.crosswalks, q.1 ∈ x.patchSets :=
      fun q hq => (List.of_mem_zip hq).1
    obtain ⟨q, hq, origin, hsame, hfinite⟩ := AttributeTable.mem_entries_finite hfont
      (fun q hq => hbounds q.1 (hadded q hq)) hmerged hentry
    refine ⟨q.1, hadded q hq, origin, entry, hsame, hconstraint, ?_⟩
    change c.constraint.IsFinite ↔ _
    rw [hconstraint, Constraint.ofEntry_isFinite_iff hfinite, hsame.numbersFinite_iff]
  refine ⟨x, hread, ⟨hrules, ?_, ?_⟩⟩
  · exact fun rule _ hfinite field hfield => Zig.zigFields_not_mem hfinite hfield
  · intro hnumbers rule hrule
    obtain ⟨p, hp, origin, -, -, -, hiff⟩ := hrules rule hrule
    exact hiff.mpr (hnumbers p hp origin)

section Scripts

open Source Source.Word MemoryStore

/-- A font with one glyph, which is as high as it is wide. -/
def squareFont : Font :=
  .ofGlyphs (Std.ExtTreeMap.insert ∅ 1 ⟨some ⟨0.0, 0.0, 1.0, 1.0⟩, none⟩)

theorem squareFont_small : squareFont.Small := by
  intro glyph b h
  obtain ⟨g, hg, hb⟩ := Option.bind_eq_some_iff.mp h
  rw [Std.ExtTreeMap.getElem?_insert, Std.ExtTreeMap.getElem?_empty] at hg
  split at hg
  case isTrue =>
    cases hg
    cases hb
    have hzero : IsSmall 0.0 := ⟨by decide +kernel, by decide +kernel⟩
    have hone : IsSmall 1.0 := ⟨by decide +kernel, by decide +kernel⟩
    exact ⟨⟨hzero, hzero, hone, hone⟩, by decide +kernel, by decide +kernel⟩
  case isFalse => cases hg

def scaledRun : Run :=
  ⟨scriptText "1" Extraction.scaledTable, .standard, squareFont⟩

theorem scaledRun_finite : ∃ compiled t,
    (scaledRun.session Run.noOutlines).Ends .empty (.ok compiled) t ∧ compiled.table.size = 1 ∧
      ∃ x, scaledRun.extraction = .ok x ∧ FiniteAsRead x.patchSets compiled.table := by
  have hstages : ∃ (m : Mapping) (attributes : AttributeTable),
      scaledRun.mapping Run.noOutlines Extraction.scaledExtraction none = .ok m ∧
      scaledRun.merged Extraction.scaledExtraction m.crosswalks = .ok attributes ∧
      attributes.classes.length = 1 :=
    ⟨_, _, rfl, rfl, rfl⟩
  obtain ⟨m, attributes, hmapped, hmerged, hcount⟩ := hstages
  have hread : scaledRun.extraction = .ok Extraction.scaledExtraction :=
    Extraction.scaled_extraction
  obtain ⟨t, ht, -⟩ := Run.session_ends_compiled (s := .empty) hread hmapped hmerged
  refine ⟨_, t, ht, ?_, ofSource_finite squareFont_small ht⟩
  simp [ofStages, AttributeTable.compile, RuleTable.ofRules, RuleTable.size, hcount]

/-- A literal that no float is large enough for. -/
def hugeLiteral : Word :=
  ⟨'1', ['e', '9', '9', '9'], .float Decimal.infinity⟩

theorem hugeLiteral_reads : hugeLiteral.Reads := by
  intro rest
  -- The numbers are computed apart from the rest of the text, which is not known.
  have hwhole : digitRun Char.isDigit ('1' :: 'e' :: '9' :: '9' :: '9' :: ' ' :: rest) =
      (['1'], 'e' :: '9' :: '9' :: '9' :: ' ' :: rest) := rfl
  have hfraction : fractionPart ('e' :: '9' :: '9' :: '9' :: ' ' :: rest) =
      (none, 'e' :: '9' :: '9' :: '9' :: ' ' :: rest) := rfl
  have hexponent : exponentPart ('e' :: '9' :: '9' :: '9' :: ' ' :: rest) =
      (some (numeral 10 ['9', '9', '9'] : Int), ' ' :: rest) := rfl
  have hvalue : Decimal.Scaled.toFloat ⟨numeral 10 ['1'], (numeral 10 ['9', '9', '9'] : Int)⟩ =
      Decimal.infinity := rfl
  have hdecimal : decimalLiteral ('1' :: 'e' :: '9' :: '9' :: '9' :: ' ' :: rest) =
      .ok (.float Decimal.infinity, ' ' :: rest) := by
    simp [decimalLiteral, hwhole, hfraction, hexponent, hvalue]
  have hnumber : lexeme '1' ('e' :: '9' :: '9' :: '9' :: ' ' :: rest) =
      numberLexeme ('1' :: 'e' :: '9' :: '9' :: '9' :: ' ' :: rest) := rfl
  change lexeme '1' ('e' :: '9' :: '9' :: '9' :: ' ' :: rest) = _
  simp [hnumber, numberLexeme, numberLiteral, radix?, hdecimal, hugeLiteral]

def overlapTable : List Word :=
  braced (field "Name" [ofText "A"] ++ field "Filename" [ofText "a"] ++
    field "SymStart" [⟨'1', [], .int 1⟩] ++ field "SymEnd" [⟨'1', [], .int 1⟩] ++
    field "Attributes" (braced (field "default" (braced (field "params" (braced
      (field "overlap" [hugeLiteral])))))))

def overlapRun : Run :=
  ⟨scriptText "1" overlapTable, .standard, squareFont⟩

def overlapEntry : AttributeEntry :=
  { AttributeEntry.unset with overlap := .ofFloat Decimal.infinity }

def overlapExtraction : Extraction :=
  ⟨"1", [⟨"A", "a", true, 1, 1, none, none, ⟨overlapEntry, ∅⟩⟩]⟩

set_option maxRecDepth 2000 in
theorem overlapRun_extraction : overlapRun.extraction = .ok overlapExtraction := by
  have hreads : ∀ w ∈ overlapTable, w.Reads := by
    unfold overlapTable
    simp (disch := decide) only [braced_reads, field_reads, List.forall_mem_append,
      List.forall_mem_cons, ofText_reads, digit_one_reads, hugeLiteral_reads, and_self,
      true_and]
    simp
  unfold overlapRun Run.extraction Extraction.ofSource
  rw [logicalLines_scriptText (by decide) hreads (by decide)]
  rfl

/-- The overlap of a script may be infinite, and then the table has an infinite padding. -/
theorem infinite_overlap_written : overlapRun.destination.Small ∧ ∃ compiled t,
    (overlapRun.session Run.noOutlines).Ends .empty (.ok compiled) t ∧
      ∃ rule ∈ compiled.table.rules, ¬ rule.constraint.IsFinite ∧
        ("pad_left", "-inf") ∈ RuleTable.zigFields rule.constraint := by
  have hstages : ∃ (m : Mapping) (attributes : AttributeTable) (c : AttributeTable.RuleClass),
      overlapRun.mapping Run.noOutlines overlapExtraction none = .ok m ∧
      overlapRun.merged overlapExtraction m.crosswalks = .ok attributes ∧
      attributes.classes = [c] ∧ c.constraint = .ofEntry overlapEntry :=
    ⟨_, _, _, rfl, rfl, rfl, rfl⟩
  obtain ⟨m, attributes, c, hmapped, hmerged, hclasses, hconstraint⟩ := hstages
  obtain ⟨t, ht, -⟩ := Run.session_ends_compiled (s := .empty) overlapRun_extraction hmapped hmerged
  refine ⟨squareFont_small, _, t, ht, c.rule,
    AttributeTable.mem_compile_rules.mpr ⟨c, by simp [hclasses], rfl⟩, ?_⟩
  change ¬ c.constraint.IsFinite ∧ _ ∈ RuleTable.zigFields c.constraint
  have hwritten : ("pad_left", "-inf") ∈ RuleTable.zigFields (.ofEntry overlapEntry) := by
    decide +kernel
  rw [hconstraint]
  exact ⟨fun hfinite => Zig.zigFields_not_mem hfinite hwritten (by decide), hwritten⟩

end Scripts

end Compilation

end IconConstraints
