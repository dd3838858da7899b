import IconConstraints.Proofs.Agreement
import IconConstraints.Proofs.Coalescing
import IconConstraints.Proofs.RuleClasses

/-!
# The rules of a table

A compiled table partitions the codepoints of its entries: each lies in exactly one
rule, and two lie in the same rule exactly if their constraints agree.  The rules
stand in the order of their first codepoints.
-/

namespace IconConstraints

theorem RuleTable.lookup?_eq_some {t : RuleTable} {cp : Codepoint} {c : Constraint}
    (h : t.lookup? cp = some c) :
    ∃ r ∈ t.rules, r.contains cp = true ∧ r.constraint = c := by
  obtain ⟨r, hr, hc⟩ := Option.map_eq_some_iff.mp h
  have hcontains := List.find?_some hr
  exact ⟨r, List.mem_of_find?_eq_some hr, hcontains, hc⟩

theorem RuleTable.isSome_lookup? {t : RuleTable} {cp : Codepoint} :
    (t.lookup? cp).isSome = true ↔ ∃ r ∈ t.rules, r.contains cp = true := by
  rw [lookup?, Option.isSome_map, List.find?_isSome]

namespace AttributeTable

/-! ## Entries -/

theorem mem_entries {t : AttributeTable} {cp : Codepoint} {entry : AttributeEntry} :
    (cp, entry) ∈ t.entries ↔ ∃ claim, t.claims[cp]? = some claim ∧ claim.entry = entry := by
  simp only [entries, List.mem_map, Prod.mk.injEq, Prod.exists]
  constructor
  · rintro ⟨x, claim, hmem, rfl, rfl⟩
    exact ⟨claim, Std.ExtTreeMap.mem_toList_iff_getElem?_eq_some.mp hmem, rfl⟩
  · rintro ⟨claim, hclaim, rfl⟩
    exact ⟨cp, claim, Std.ExtTreeMap.mem_toList_iff_getElem?_eq_some.mpr hclaim, rfl, rfl⟩

theorem entries_unique {t : AttributeTable} {cp : Codepoint} {x y : AttributeEntry}
    (hx : (cp, x) ∈ t.entries) (hy : (cp, y) ∈ t.entries) : x = y := by
  obtain ⟨a, ha, rfl⟩ := mem_entries.mp hx
  obtain ⟨b, hb, rfl⟩ := mem_entries.mp hy
  rw [ha] at hb
  cases hb
  rfl

/-! ## Rules and classes -/

theorem RuleClass.rule_contains (c : RuleClass) (cp : Codepoint) :
    c.rule.contains cp = true ↔ cp ∈ c.codepoints := by
  rw [Rule.contains, List.any_eq_true, rule]
  exact CodepointRange.contains_coalesce c.codepoints cp

theorem RuleClass.firstCodepoint?_rule {c : RuleClass} (h : c.codepoints ≠ []) :
    ∃ cp ∈ c.codepoints, c.rule.firstCodepoint? = some cp := by
  obtain ⟨x, hx⟩ := List.exists_mem_of_ne_nil c.codepoints h
  obtain ⟨r, hr, -⟩ := (CodepointRange.contains_coalesce c.codepoints x).mpr hx
  obtain ⟨first, rest, heq⟩ := List.exists_cons_of_ne_nil (List.ne_nil_of_mem hr)
  have hinhabited := (CodepointRange.coalesce_coalesced c.codepoints).inhabited first
    (by simp [heq])
  refine ⟨first.first, ?_, by simp [Rule.firstCodepoint?, rule, heq]⟩
  rw [← CodepointRange.contains_coalesce]
  exact ⟨first, by simp [heq], CodepointRange.contains_iff.mpr ⟨Nat.le_refl _, hinhabited⟩⟩

theorem mem_compile_rules {t : AttributeTable} {r : Rule} :
    r ∈ t.compile.rules ↔ ∃ c ∈ t.classes, c.rule = r := by
  rw [compile, RuleTable.ofRules, List.mem_mergeSort, List.mem_map]

theorem compile_rules_disjoint (t : AttributeTable) :
    t.compile.rules.Pairwise fun r s => ∀ cp, ¬ (r.contains cp = true ∧ s.contains cp = true) := by
  have hgrouped := t.classes_grouped
  have hclasses : (t.classes.map (·.rule)).Pairwise fun r s =>
      ∀ cp, ¬ (r.contains cp = true ∧ s.contains cp = true) := by
    rw [List.pairwise_map]
    refine hgrouped.distinct.imp_of_mem ?_
    intro c d hc hd hne cp ⟨hcp, hdp⟩
    rw [RuleClass.rule_contains] at hcp hdp
    obtain ⟨x, hx, hxid⟩ := (hgrouped.mem_iff c hc cp).mp hcp
    obtain ⟨y, hy, hyid⟩ := (hgrouped.mem_iff d hd cp).mp hdp
    obtain rfl := entries_unique hx hy
    exact hne (hxid.symm.trans hyid)
  refine (List.Perm.pairwise_iff ?_ (List.mergeSort_perm _ _)).mpr hclasses
  intro r s h cp hboth
  exact h cp hboth.symm

/-- A codepoint of an entry lies in a rule with a constraint that agrees with its own. -/
theorem compile_rules_cover {t : AttributeTable} {cp : Codepoint} {entry : AttributeEntry}
    (h : (cp, entry) ∈ t.entries) : ∃ r ∈ t.compile.rules, r.contains cp = true := by
  obtain ⟨c, hc, hid⟩ := t.classes_grouped.covered cp entry h
  refine ⟨c.rule, mem_compile_rules.mpr ⟨c, hc, rfl⟩, ?_⟩
  rw [RuleClass.rule_contains, t.classes_grouped.mem_iff c hc]
  exact ⟨entry, h, hid.symm⟩

theorem exists_entry_of_contains {t : AttributeTable} {r : Rule} {cp : Codepoint}
    (hr : r ∈ t.compile.rules) (hcp : r.contains cp = true) :
    ∃ entry, (cp, entry) ∈ t.entries := by
  obtain ⟨c, hc, rfl⟩ := mem_compile_rules.mp hr
  rw [RuleClass.rule_contains, t.classes_grouped.mem_iff c hc] at hcp
  obtain ⟨entry, h, -⟩ := hcp
  exact ⟨entry, h⟩

/-- The rule of a class holds exactly the codepoints of entries that agree with it. -/
theorem contains_iff_agrees {t : AttributeTable} {r : Rule} {cp : Codepoint}
    {entry : AttributeEntry} (hr : r ∈ t.compile.rules) (h : (cp, entry) ∈ t.entries) :
    r.contains cp = true ↔ r.constraint.Agrees (.ofEntry entry) := by
  obtain ⟨c, hc, rfl⟩ := mem_compile_rules.mp hr
  rw [RuleClass.rule_contains, t.classes_grouped.mem_iff c hc,
    ← Constraint.identity_eq_iff_agrees]
  change _ ↔ c.constraint.identity = _
  rw [t.classes_grouped.identity_eq c hc]
  constructor
  · rintro ⟨e, he, hid⟩
    rw [entries_unique h he, hid]
  · intro hid
    exact ⟨entry, h, hid.symm⟩

/-! ## Order -/

private theorem notAfter_trans (a b c : Rule) (hab : a.notAfter b = true)
    (hbc : b.notAfter c = true) : a.notAfter c = true := by
  unfold Rule.notAfter at *
  grind

private theorem notAfter_total (a b : Rule) : (a.notAfter b || b.notAfter a) = true := by
  unfold Rule.notAfter
  grind

theorem compile_rules_ordered (t : AttributeTable) :
    t.compile.rules.Pairwise fun r s => ∃ a b,
      r.firstCodepoint? = some a ∧ s.firstCodepoint? = some b ∧ a < b := by
  have hsorted : t.compile.rules.Pairwise fun r s => r.notAfter s = true :=
    List.pairwise_mergeSort notAfter_trans notAfter_total _
  refine (hsorted.and t.compile_rules_disjoint).imp_of_mem ?_
  intro r s hr hs ⟨hle, hdisjoint⟩
  obtain ⟨c, hc, rfl⟩ := mem_compile_rules.mp hr
  obtain ⟨d, hd, rfl⟩ := mem_compile_rules.mp hs
  obtain ⟨a, ha, hfirst⟩ := c.firstCodepoint?_rule (t.classes_grouped.inhabited c hc)
  obtain ⟨b, hb, hsecond⟩ := d.firstCodepoint?_rule (t.classes_grouped.inhabited d hd)
  refine ⟨a, b, hfirst, hsecond, ?_⟩
  have hab : a ≤ b := by simpa [Rule.notAfter, hfirst, hsecond] using hle
  have hne : a ≠ b := by
    rintro rfl
    exact hdisjoint a ⟨(c.rule_contains a).mpr ha, (d.rule_contains a).mpr hb⟩
  exact Nat.lt_of_le_of_ne hab hne

theorem compile_rule_ranges {t : AttributeTable} {r : Rule} (hr : r ∈ t.compile.rules) :
    r.ranges ≠ [] ∧ CodepointRange.Coalesced r.ranges := by
  obtain ⟨c, hc, rfl⟩ := mem_compile_rules.mp hr
  refine ⟨?_, CodepointRange.coalesce_coalesced c.codepoints⟩
  obtain ⟨a, -, hfirst⟩ := c.firstCodepoint?_rule (t.classes_grouped.inhabited c hc)
  intro hnil
  simp [Rule.firstCodepoint?, hnil] at hfirst

/-! ## The whole table -/

theorem share_rule_iff {t : AttributeTable} {a b : Codepoint} {x y : AttributeEntry}
    (hx : (a, x) ∈ t.entries) (hy : (b, y) ∈ t.entries) :
    (∃ r ∈ t.compile.rules, r.contains a = true ∧ r.contains b = true) ↔
      (Constraint.ofEntry x).Agrees (.ofEntry y) := by
  simp only [← Constraint.identity_eq_iff_agrees]
  constructor
  · rintro ⟨r, hr, ha, hb⟩
    rw [contains_iff_agrees hr hx, ← Constraint.identity_eq_iff_agrees] at ha
    rw [contains_iff_agrees hr hy, ← Constraint.identity_eq_iff_agrees] at hb
    exact ha.symm.trans hb
  · intro hid
    obtain ⟨r, hr, ha⟩ := compile_rules_cover hx
    refine ⟨r, hr, ha, ?_⟩
    rw [contains_iff_agrees hr hx, ← Constraint.identity_eq_iff_agrees] at ha
    rw [contains_iff_agrees hr hy, ← Constraint.identity_eq_iff_agrees]
    exact ha.trans hid

/--
The rules of any table, however its entries came together, partition the codepoints
of the entries by the agreement of their constraints.
-/
theorem compile_partitions_entries (t : AttributeTable) :
    (∀ cp, (t.compile.lookup? cp).isSome = true ↔ ∃ entry, (cp, entry) ∈ t.entries) ∧
    (∀ cp entry c, (cp, entry) ∈ t.entries → t.compile.lookup? cp = some c →
      c.Agrees (.ofEntry entry)) ∧
    (∀ a x b y, (a, x) ∈ t.entries → (b, y) ∈ t.entries →
      ((∃ r ∈ t.compile.rules, r.contains a = true ∧ r.contains b = true) ↔
        (Constraint.ofEntry x).Agrees (.ofEntry y))) ∧
    (t.compile.rules.Pairwise fun r s =>
      ∀ cp, ¬ (r.contains cp = true ∧ s.contains cp = true)) ∧
    (∀ r ∈ t.compile.rules, r.ranges ≠ [] ∧ CodepointRange.Coalesced r.ranges) ∧
    (t.compile.rules.Pairwise fun r s => ∃ a b,
      r.firstCodepoint? = some a ∧ s.firstCodepoint? = some b ∧ a < b) := by
  refine ⟨?_, ?_, fun a x b y => share_rule_iff, t.compile_rules_disjoint,
    fun r => compile_rule_ranges, t.compile_rules_ordered⟩
  · intro cp
    rw [RuleTable.isSome_lookup?]
    constructor
    · rintro ⟨r, hr, hcp⟩
      exact exists_entry_of_contains hr hcp
    · rintro ⟨entry, h⟩
      exact compile_rules_cover h
  · intro cp entry c h hlookup
    obtain ⟨r, hr, hcp, rfl⟩ := RuleTable.lookup?_eq_some hlookup
    exact (contains_iff_agrees hr h).mp hcp

end AttributeTable

end IconConstraints
