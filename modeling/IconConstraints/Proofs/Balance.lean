import Mathlib.Data.Finset.Prod
import IconConstraints.Proofs.Reuse
import IconConstraints.Proofs.Scripts
import IconConstraints.Proofs.SnapshotReuse
import IconConstraints.Proofs.Stages
import IconConstraints.Proofs.TableCounts

/-!
# The counts of a run balance

A pair of a crosswalk is either the first to land at its destination, and then the table has
one more codepoint, or it repeats the claim of an earlier patch set.  Nothing is lost or
counted twice between mapping, overlap policies, scale groups and rules.
-/

namespace IconConstraints

/-! ## Claims of several patch sets -/

theorem Crosswalk.card_landings {c : Crosswalk} (h : c.pairs.Pairwise fun a b => a.2 ≠ b.2) :
    c.landings.card = c.size := by
  rw [landings, List.toFinset_card_of_nodup (List.pairwise_map.mpr h), List.length_map,
    length_pairs]

namespace Mapping

variable {crosswalks : List Crosswalk} {cp : Codepoint}

def landings (crosswalks : List Crosswalk) : Finset Codepoint :=
  (crosswalks.flatMap fun c => c.pairs.map Prod.snd).toFinset

/-- The claims to destinations that an earlier patch set has claimed, each with the place of
the patch set that repeats the claim. -/
def repeatedClaims (crosswalks : List Crosswalk) : Finset (Nat × Codepoint) :=
  (Finset.range crosswalks.length ×ˢ landings crosswalks).filter fun (i, cp) =>
    (∃ c ∈ crosswalks[i]?, c.Reaches cp) ∧ ∃ earlier ∈ crosswalks.take i, earlier.Reaches cp

theorem mem_landings : cp ∈ landings crosswalks ↔ ∃ c ∈ crosswalks, c.Reaches cp := by
  simp [landings, Crosswalk.Reaches]

theorem landings_append (crosswalks : List Crosswalk) (c : Crosswalk) :
    landings (crosswalks ++ [c]) = landings crosswalks ∪ c.landings := by
  simp [landings, Crosswalk.landings]

theorem mem_repeatedClaims {i : Nat} : (i, cp) ∈ repeatedClaims crosswalks ↔
    (∃ c, crosswalks[i]? = some c ∧ c.Reaches cp) ∧
      ∃ earlier ∈ crosswalks.take i, earlier.Reaches cp := by
  simp only [repeatedClaims, Finset.mem_filter, Finset.mem_product, Finset.mem_range, mem_landings,
    Option.mem_def, and_iff_right_iff_imp]
  rintro ⟨⟨c, hc, hreaches⟩, -⟩
  obtain ⟨hi, rfl⟩ := List.getElem?_eq_some_iff.mp hc
  exact ⟨hi, _, List.getElem_mem hi, hreaches⟩

theorem repeatedClaims_append (crosswalks : List Crosswalk) (c : Crosswalk) :
    repeatedClaims (crosswalks ++ [c]) = repeatedClaims crosswalks ∪
      (landings crosswalks ∩ c.landings).image (crosswalks.length, ·) := by
  ext ⟨i, cp⟩
  simp only [Finset.mem_union, mem_repeatedClaims, Finset.mem_image, Finset.mem_inter,
    mem_landings, Crosswalk.mem_landings, Prod.mk.injEq]
  -- The place is before that of the new patch set, is its own, or is behind the last one.
  rcases Nat.lt_trichotomy i crosswalks.length with hi | rfl | hi
  · rw [List.getElem?_append_left hi, List.take_append_of_le_length (by omega)]
    grind
  · rw [List.getElem?_concat_length, List.take_left]
    grind
  · have hnone : (crosswalks ++ [c])[i]? = none := List.getElem?_eq_none (by simp; omega)
    have hnone' : crosswalks[i]? = none := List.getElem?_eq_none (by omega)
    have hne : crosswalks.length ≠ i := by omega
    simp [hnone, hnone', hne]

theorem card_repeatedClaims_append (crosswalks : List Crosswalk) (c : Crosswalk) :
    (repeatedClaims (crosswalks ++ [c])).card =
      (repeatedClaims crosswalks).card + (landings crosswalks ∩ c.landings).card := by
  rw [repeatedClaims_append, Finset.card_union_of_disjoint, Finset.card_image_of_injective]
  · exact Prod.mk_right_injective crosswalks.length
  · rw [Finset.disjoint_left]
    rintro ⟨i, cp⟩ hrepeated hlast
    obtain ⟨⟨d, hd, -⟩, -⟩ := mem_repeatedClaims.mp hrepeated
    obtain ⟨hi, -⟩ := List.getElem?_eq_some_iff.mp hd
    obtain ⟨_, -, heq⟩ := Finset.mem_image.mp hlast
    exact absurd (Prod.mk.inj heq).1 hi.ne'

/-- Each pair of a crosswalk lands at a codepoint of its own or repeats a claim. -/
theorem sum_sizes (h : ∀ c ∈ crosswalks, c.pairs.Pairwise fun a b => a.2 ≠ b.2) :
    (crosswalks.map Crosswalk.size).sum =
      (landings crosswalks).card + (repeatedClaims crosswalks).card := by
  induction crosswalks using List.reverseRecOn with
  | nil => rfl
  | append_singleton crosswalks c ih =>
      obtain ⟨hcrosswalks, hc⟩ := List.forall_mem_append.mp h
      have hbefore := ih hcrosswalks
      have hsize := Crosswalk.card_landings (hc c (List.mem_singleton_self c))
      -- The destinations of the new patch set are new ones and repeated ones.
      have hinter := Finset.card_union_add_card_inter (landings crosswalks) c.landings
      rw [List.map_append, List.sum_append, List.map_singleton, List.sum_singleton,
        landings_append, card_repeatedClaims_append]
      omega

end Mapping

namespace AttributeTable

theorem domain_claims {font : Font} {patchSets : List PatchSet} {crosswalks : List Crosswalk}
    {t : AttributeTable} (hlength : crosswalks.length = patchSets.length)
    (h : (addAll font .empty (patchSets.zip crosswalks)).outcome = .ok t) :
    t.claims.domain = Mapping.landings crosswalks := by
  ext cp
  rw [CodepointMap.mem_domain, ← exists_entry_iff_mem, exists_entry_iff_reached h,
    Mapping.mem_landings]
  constructor
  · rintro ⟨q, hq, hreaches⟩
    exact ⟨q.2, (List.of_mem_zip hq).2, hreaches⟩
  · rintro ⟨c, hc, hreaches⟩
    rw [← List.map_snd_zip hlength.le] at hc
    obtain ⟨q, hq, rfl⟩ := List.mem_map.mp hc
    exact ⟨q, hq, hreaches⟩

end AttributeTable

/-! ## Runs -/

namespace Compilation

variable {σ : Type} {source : String} {options : ExtractOptions} {destination : Font}
  {origins : OriginFonts σ} {store : CrosswalkStore σ} {s t : σ} {compiled : Compilation}

/-- How the counts of a run relate to each other and to what they count. -/
structure Balanced (m : Mapping) (attributes : AttributeTable) (compiled : Compilation) :
    Prop where
  /-- Each patch set has a crosswalk, which was stored or is new. -/
  patchSets : compiled.counts.reusedCrosswalks + compiled.counts.computedCrosswalks =
    compiled.counts.patchSets
  destinations : compiled.counts.codepoints = (Mapping.landings m.crosswalks).card
  ranges : compiled.counts.codepoints =
    ((compiled.table.rules.flatMap Rule.ranges).map CodepointRange.size).sum
  /-- What is mapped beyond the codepoints was claimed before. -/
  repeated : compiled.counts.mappedCodepoints =
    compiled.counts.codepoints + (Mapping.repeatedClaims m.crosswalks).card
  grouped : compiled.counts.groupedCodepoints ≤ compiled.counts.mappedCodepoints
  rules : compiled.counts.rules = attributes.identities.card
  rules_le : compiled.counts.rules ≤ compiled.counts.codepoints

theorem foldl_sizes (crosswalks : List Crosswalk) (n : Nat) :
    crosswalks.foldl (fun n c => n + c.size) n = n + (crosswalks.map Crosswalk.size).sum := by
  induction crosswalks generalizing n with
  | nil => rfl
  | cons c rest ih =>
      rw [List.foldl_cons, ih, List.map_cons, List.sum_cons, Nat.add_assoc]

/-- The counts of every run that succeeds are balanced. -/
theorem ofSource_balanced
    (h : (ofSource source options destination origins store).Ends s (.ok compiled) t) :
    ∃ x m attributes, Staged source options destination origins store s x m attributes ∧
      compiled = ofStages x m attributes ∧ Balanced m attributes compiled := by
  obtain ⟨x, m, attributes, hstaged, rfl⟩ := exists_staged h
  refine ⟨x, m, attributes, hstaged, rfl, ?_⟩
  obtain ⟨previous, _, _, -, hmapped⟩ := hstaged.mapped
  obtain ⟨_, haccepted, hcrosswalks, -⟩ := Mapping.ofPatchSets_eq_ok hmapped.outcome
  have hsound := haccepted.sound hcrosswalks
  have hdomain := AttributeTable.domain_claims hsound.length hstaged.merged
  have hcodepoints : attributes.claims.size = (Mapping.landings m.crosswalks).card := by
    rw [← hdomain, CodepointMap.card_domain]
  have hmappedCount : (countsOf x.patchSets m attributes attributes.compile).mappedCodepoints =
      (m.crosswalks.map Crosswalk.size).sum := by
    rw [countsOf, foldl_sizes, Nat.zero_add]
  constructor
  case patchSets =>
    obtain ⟨made, hmade, -, -, hreused, hcomputed, -⟩ := Mapping.ofPatchSets_made hmapped.outcome
    have hcount : made.length = made.countP (·.2) + made.countP (!·.2) := by
      simpa using made.length_eq_countP_add_countP (·.2)
    change m.reused + m.computed = x.patchSets.length
    rw [hreused, hcomputed, ← hcount, ← hmade.length_eq, List.length_zipIdx]
  case destinations => exact hcodepoints
  case ranges => exact attributes.sum_compile_sizes.symm
  case repeated =>
    change (countsOf x.patchSets m attributes attributes.compile).mappedCodepoints = _
    rw [hmappedCount, Mapping.sum_sizes hsound.distinct, ← hcodepoints]
    rfl
  case grouped =>
    change attributes.counts.assigned ≤
      (countsOf x.patchSets m attributes attributes.compile).mappedCodepoints
    have hassigned := AttributeTable.addAll_assigned_le hstaged.merged
    have hsizes : (x.patchSets.zip m.crosswalks).map (fun q => q.2.size) =
        ((x.patchSets.zip m.crosswalks).map Prod.snd).map Crosswalk.size := by
      rw [List.map_map]
      rfl
    rw [hsizes, List.map_snd_zip hsound.length.le] at hassigned
    rw [hmappedCount]
    exact hassigned.trans (Nat.zero_add _).le
  case rules => exact attributes.size_compile
  case rules_le => exact attributes.size_compile.trans_le attributes.card_identities_le

section SharedScript

open Source Source.Word MemoryStore

def digit (c : Char) (n : Int64) : Word :=
  ⟨c, [], .int n⟩

/-- Two patch sets that share the codepoint 2; the first one scales its codepoints together. -/
def sharedTable : List Word :=
  braced (field "Name" [ofText "Pomicons"] ++ field "Filename" [ofText "a"] ++
    field "SymStart" [digit '1' 1] ++ field "SymEnd" [digit '2' 2] ++
    field "ScaleRules" (braced (field "ScaleGroups" [ofOperator .openBracket,
      ofOperator .openBracket, digit '1' 1, ofOperator .comma, digit '2' 2,
      ofOperator .closeBracket, ofOperator .closeBracket])) ++
    field "Attributes" (braced (field "default" (braced [])))) ++
  ofOperator .comma ::
  braced (field "Name" [ofText "Octicons"] ++ field "Filename" [ofText "b"] ++
    field "SymStart" [digit '2' 2] ++ field "SymEnd" [digit '3' 3] ++
    field "Attributes" (braced (field "default" (braced []))))

def sharedExtraction : Extraction :=
  ⟨"1", [⟨"Pomicons", "a", true, 1, 2, none, some ⟨[.list [1, 2]], none⟩, ⟨.unset, ∅⟩⟩,
    ⟨"Octicons", "b", true, 2, 3, none, none, ⟨.unset, ∅⟩⟩]⟩

/-- The codepoint 1 is half as high as the codepoint 2. -/
def stackedFont : Font :=
  .ofGlyphs (Std.ExtTreeMap.ofList [(1, Font.Glyph.mk (some ⟨0.0, 0.0, 1.0, 1.0⟩) none),
    (2, Font.Glyph.mk (some ⟨0.0, 0.0, 1.0, 2.0⟩) none), (3, Font.Glyph.mk none none)])

def sharedRun : Run :=
  ⟨scriptText "1" sharedTable, .standard, stackedFont⟩

set_option maxRecDepth 2000 in
theorem sharedRun_extraction : sharedRun.extraction = .ok sharedExtraction := by
  have hdigits : (digit '1' 1).Reads ∧ (digit '2' 2).Reads ∧ (digit '3' 3).Reads := by
    refine ⟨?_, ?_, ?_⟩ <;> intro rest <;> cases rest <;> rfl
  have hreads : ∀ w ∈ sharedTable, w.Reads := by
    unfold sharedTable
    simp (disch := decide) only [braced_reads, field_reads, List.forall_mem_append,
      List.forall_mem_cons, ofText_reads, hdigits, ofOperator_reads, and_self, true_and]
    simp
  unfold sharedRun Run.extraction Extraction.ofSource
  rw [logicalLines_scriptText (by decide) hreads (by decide)]
  rfl

/-- Four pairs land at three codepoints, so one claim is repeated. -/
theorem sharedRun_balanced : ∃ compiled t,
    (sharedRun.session Run.noOutlines).Ends .empty (.ok compiled) t ∧
      compiled.counts = ⟨2, 0, 2, 4, 1, 2, 3, 2⟩ ∧
      ∃ m attributes, Balanced m attributes compiled ∧
        (Mapping.repeatedClaims m.crosswalks).card = 1 := by
  have hstages : ∃ (m : Mapping) (attributes : AttributeTable),
      sharedRun.mapping Run.noOutlines sharedExtraction none = .ok m ∧
      sharedRun.merged sharedExtraction m.crosswalks = .ok attributes ∧
      countsOf sharedExtraction.patchSets m attributes ⟨attributes.classes.map (·.rule)⟩ =
        ⟨2, 0, 2, 4, 1, 2, 3, 2⟩ :=
    ⟨_, _, rfl, rfl, by decide +kernel⟩
  obtain ⟨m, attributes, hmapped, hmerged, hcount⟩ := hstages
  obtain ⟨t, hends, -⟩ :=
    Run.session_ends_compiled (s := .empty) sharedRun_extraction hmapped hmerged
  have hcounts : (ofStages sharedExtraction m attributes).counts = ⟨2, 0, 2, 4, 1, 2, 3, 2⟩ := by
    rw [← hcount]
    simp [ofStages, countsOf, AttributeTable.compile, RuleTable.ofRules, RuleTable.size]
  obtain ⟨x', m', attributes', -, -, hbalanced⟩ := ofSource_balanced hends
  have hrepeated := hbalanced.repeated
  simp only [hcounts] at hrepeated
  exact ⟨_, t, hends, hcounts, m', attributes', hbalanced, by omega⟩

end SharedScript

end Compilation

end IconConstraints
