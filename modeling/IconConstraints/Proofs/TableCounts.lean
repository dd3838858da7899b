import Mathlib.Algebra.GroupWithZero.Nat
import Mathlib.Data.Finset.Card
import IconConstraints.Proofs.Ownership

/-!
# Sizes of tables

The codepoints of a table are counted in three ways that come to the same: its entries, the
destinations that patch sets land at, and the ranges of its rules.  Its rules are as many as
there are identities of constraints among the entries.
-/

namespace IconConstraints

/-! ## Maps -/

namespace CodepointMap

variable {α : Type}

def domain (m : CodepointMap α) : Finset Codepoint :=
  m.keys.toFinset

@[simp] theorem mem_domain {m : CodepointMap α} {cp : Codepoint} : cp ∈ m.domain ↔ cp ∈ m := by
  simp [domain]

theorem card_domain (m : CodepointMap α) : m.domain.card = m.size := by
  rw [domain, List.toFinset_card_of_nodup Std.ExtTreeMap.nodup_keys, Std.ExtTreeMap.length_keys]

end CodepointMap

/-! ## Ranges -/

namespace CodepointRange

def size (r : CodepointRange) : Nat :=
  r.last + 1 - r.first

@[simp] theorem length_toList (r : CodepointRange) : r.toList.length = r.size := by
  simp [toList, size]

theorem mem_toList {r : CodepointRange} {cp : Codepoint} :
    cp ∈ r.toList ↔ r.contains cp = true := by
  simp only [toList, List.mem_range'_1, contains_iff]
  lia

theorem nodup_toList (r : CodepointRange) : r.toList.Nodup :=
  List.nodup_range'

theorem Coalesced.nodup {ranges : List CodepointRange} (h : Coalesced ranges) :
    (ranges.flatMap toList).Nodup := by
  refine List.nodup_flatMap.mpr ⟨fun r _ => r.nodup_toList, h.separated.imp ?_⟩
  intro r s hrs cp hr hs
  have hlast := (contains_iff.mp (mem_toList.mp hr)).2
  have hfirst := (contains_iff.mp (mem_toList.mp hs)).1
  lia

end CodepointRange

namespace RuleTable

def codepoints (t : RuleTable) : List Codepoint :=
  t.rules.flatMap fun r => r.ranges.flatMap CodepointRange.toList

theorem mem_codepoints {t : RuleTable} {cp : Codepoint} :
    cp ∈ t.codepoints ↔ ∃ r ∈ t.rules, r.contains cp = true := by
  simp [codepoints, Rule.contains, CodepointRange.mem_toList]

theorem length_codepoints (t : RuleTable) :
    t.codepoints.length = ((t.rules.flatMap Rule.ranges).map CodepointRange.size).sum := by
  rw [codepoints, ← List.flatMap_assoc, List.length_flatMap]
  simp

end RuleTable

namespace AttributeTable

variable {font : Font} {added : List (PatchSet × Crosswalk)} {cp : Codepoint}
  {t t' : AttributeTable} {p : PatchSet} {c : Crosswalk}

/-! ## Entries and rules -/

theorem exists_entry_iff_mem : (∃ entry, (cp, entry) ∈ t.entries) ↔ cp ∈ t.claims := by
  rw [Std.ExtTreeMap.mem_iff_isSome_getElem?, Option.isSome_iff_exists]
  constructor
  · rintro ⟨entry, hentry⟩
    obtain ⟨claim, hclaim, -⟩ := mem_entries.mp hentry
    exact ⟨claim, hclaim⟩
  · rintro ⟨claim, hclaim⟩
    exact ⟨claim.entry, mem_entries.mpr ⟨claim, hclaim, rfl⟩⟩

theorem length_entries (t : AttributeTable) : t.entries.length = t.claims.size := by
  rw [entries, List.length_map, Std.ExtTreeMap.length_toList]

theorem nodup_compile_codepoints (t : AttributeTable) : t.compile.codepoints.Nodup := by
  refine List.nodup_flatMap.mpr ⟨fun r hr => (compile_rule_ranges hr).2.nodup, ?_⟩
  refine t.compile_rules_disjoint.imp ?_
  intro r s hdisjoint cp hr hs
  simp only [List.mem_flatMap, CodepointRange.mem_toList] at hr hs
  exact hdisjoint cp ⟨List.any_eq_true.mpr hr, List.any_eq_true.mpr hs⟩

theorem toFinset_compile_codepoints (t : AttributeTable) :
    t.compile.codepoints.toFinset = t.claims.domain := by
  ext cp
  rw [List.mem_toFinset, RuleTable.mem_codepoints, CodepointMap.mem_domain, ← exists_entry_iff_mem]
  constructor
  · rintro ⟨r, hr, hcp⟩
    exact exists_entry_of_contains hr hcp
  · rintro ⟨entry, hentry⟩
    exact compile_rules_cover hentry

theorem sum_compile_sizes (t : AttributeTable) :
    ((t.compile.rules.flatMap Rule.ranges).map CodepointRange.size).sum = t.claims.size := by
  rw [← RuleTable.length_codepoints, ← CodepointMap.card_domain, ← toFinset_compile_codepoints,
    List.toFinset_card_of_nodup t.nodup_compile_codepoints]

/-! ## Distinct constraints -/

/-- The identities of the constraints that the entries stand for. -/
def identities (t : AttributeTable) : Finset Constraint.Identity :=
  (t.entries.map fun e => (Constraint.ofEntry e.2).identity).toFinset

theorem card_identities_le (t : AttributeTable) : t.identities.card ≤ t.claims.size := by
  have hle := List.toFinset_card_le (t.entries.map fun e => (Constraint.ofEntry e.2).identity)
  rwa [List.length_map, length_entries] at hle

theorem toFinset_classes (t : AttributeTable) :
    (t.classes.map RuleClass.identity).toFinset = t.identities := by
  have hgrouped := t.classes_grouped
  ext identity
  simp only [identities, List.mem_toFinset, List.mem_map]
  constructor
  · rintro ⟨c, hc, rfl⟩
    obtain ⟨cp, hcp⟩ := List.exists_mem_of_ne_nil _ (hgrouped.inhabited c hc)
    obtain ⟨entry, hentry, hid⟩ := (hgrouped.mem_iff c hc cp).mp hcp
    exact ⟨(cp, entry), hentry, hid⟩
  · rintro ⟨⟨cp, entry⟩, hentry, rfl⟩
    obtain ⟨c, hc, hid⟩ := hgrouped.covered cp entry hentry
    exact ⟨c, hc, hid⟩

theorem size_compile (t : AttributeTable) : t.compile.size = t.identities.card := by
  have hdistinct : (t.classes.map RuleClass.identity).Nodup :=
    List.pairwise_map.mpr t.classes_grouped.distinct
  rw [← toFinset_classes, List.toFinset_card_of_nodup hdistinct]
  simp [compile, RuleTable.ofRules, RuleTable.size]

end AttributeTable

/-! ## Destinations -/

namespace Crosswalk

def landings (c : Crosswalk) : Finset Codepoint :=
  (c.pairs.map Prod.snd).toFinset

theorem mem_landings {c : Crosswalk} {cp : Codepoint} : cp ∈ c.landings ↔ c.Reaches cp := by
  simp [landings, Reaches]

theorem length_pairs (c : Crosswalk) : c.pairs.length = c.size :=
  Array.length_toList

theorem card_landings_le (c : Crosswalk) : c.landings.card ≤ c.size := by
  have hle := List.toFinset_card_le (c.pairs.map Prod.snd)
  rwa [List.length_map, length_pairs] at hle

end Crosswalk

/-! ## Grouped codepoints -/

namespace Scaling

variable {font : Font} {patchSet : String} {crosswalk : Crosswalk} {s t : Scaling}

/-- Each codepoint that has found its group is counted once, and it has an entry. -/
structure Tallied (s : Scaling) : Prop where
  assigned : s.counts.assigned = s.grouped.size
  entered : ∀ cp ∈ s.grouped, cp ∈ s.entries

theorem Tallied.start (entries : CodepointMap AttributeEntry) : (start entries).Tallied where
  assigned := Std.ExtTreeMap.size_empty.symm
  entered _ hcp := absurd hcp Std.ExtTreeMap.not_mem_empty

theorem Tallied.assignMember (h : s.Tallied) (g : ScaleGroup.Geometry)
    (member : Codepoint × BoundingBox) : (s.assignMember g member).Tallied := by
  unfold Scaling.assignMember
  split
  case h_1 => exact h
  case h_2 entry hentry =>
    split
    case isTrue => exact h
    case isFalse hnew =>
      constructor
      · simp [assign, Std.ExtTreeMap.size_insert, hnew, h.assigned]
      · intro cp hcp
        obtain heq | hcp := Std.ExtTreeMap.mem_insert.mp hcp
        · exact Std.ExtTreeMap.mem_insert.mpr (.inl heq)
        · exact Std.ExtTreeMap.mem_insert.mpr (.inr (h.entered cp hcp))

theorem Tallied.foldl_assignMember (h : s.Tallied) (g : ScaleGroup.Geometry)
    (members : List (Codepoint × BoundingBox)) :
    (members.foldl (Scaling.assignMember g) s).Tallied :=
  List.foldlRecOn members _ h fun _ hs member _ => hs.assignMember g member

theorem Tallied.applyGroup (h : s.Tallied) {group : ScaleGroup} {index : Nat}
    (hends : (Scaling.applyGroup font patchSet crosswalk group index).Ends s (.ok ()) t) :
    t.Tallied := by
  obtain rfl := hends.state
  rcases applyGroup_ends font patchSet crosswalk group index s with
    ⟨-, hgroup⟩ | ⟨g, -, ⟨-, hgroup⟩ | ⟨-, hgroup⟩⟩
  · rw [hgroup.state]
    exact h
  · cases hends.outcome.symm.trans hgroup.outcome
  · rw [hgroup.state]
    -- Counting the group itself touches neither its members nor the entries.
    have hcounted : Tallied { s with counts := { s.counts with groups := s.counts.groups + 1 } } :=
      ⟨h.assigned, h.entered⟩
    exact hcounted.foldl_assignMember g g.members

theorem Tallied.applyGroups (h : s.Tallied) {index : Nat} {groups : List ScaleGroup}
    (hends : (Scaling.applyGroups font patchSet crosswalk index groups).Ends s (.ok ()) t) :
    t.Tallied := by
  induction groups generalizing index s with
  | nil =>
      obtain rfl : s = t := hends.state
      exact h
  | cons group rest ih =>
      obtain ⟨_, u, hgroup, hrest⟩ := hends.exists_of_bind
      exact ih (h.applyGroup hgroup) hrest

theorem apply_tallied {p : PatchSet} {entries : CodepointMap AttributeEntry}
    (h : (Scaling.apply font p crosswalk).Ends (.start entries) (.ok ()) t) : t.Tallied := by
  unfold Scaling.apply at h
  split at h
  case h_1 =>
    obtain rfl : start entries = t := h.state
    exact .start entries
  case h_2 => exact (Tallied.start entries).applyGroups h

theorem apply_assigned_le {p : PatchSet} {entries : CodepointMap AttributeEntry}
    (h : (Scaling.apply font p crosswalk).Ends (.start entries) (.ok ()) t) :
    t.counts.assigned ≤ entries.size := by
  have htallied := apply_tallied h
  rw [htallied.assigned, ← CodepointMap.card_domain, ← CodepointMap.card_domain]
  apply Finset.card_le_card
  intro cp hcp
  -- Scale groups give no codepoint an entry that had none.
  have hentry := htallied.entered cp (CodepointMap.mem_domain.mp hcp)
  rw [Std.ExtTreeMap.mem_iff_isSome_getElem?, apply_entries h, Option.isSome_map] at hentry
  exact CodepointMap.mem_domain.mpr (Std.ExtTreeMap.mem_iff_isSome_getElem?.mpr hentry)

end Scaling

namespace AttributeTable

variable {font : Font} {added : List (PatchSet × Crosswalk)} {t t' : AttributeTable} {p : PatchSet}
  {c : Crosswalk}

theorem collect_size_le {collected : CodepointMap AttributeEntry}
    (h : (t.collect p c).outcome = .ok collected) : collected.size ≤ c.size := by
  refine le_trans ?_ c.card_landings_le
  rw [← CodepointMap.card_domain]
  apply Finset.card_le_card
  intro cp hcp
  rw [CodepointMap.mem_domain, Std.ExtTreeMap.mem_iff_isSome_getElem?, collect_eq_ok h] at hcp
  rw [Crosswalk.mem_landings]
  by_contra hnone
  simp [Crosswalk.greatestOrigin?_eq_none.mpr hnone] at hcp

theorem add_assigned_le (h : (t.add font p c).outcome = .ok t') :
    t'.counts.assigned ≤ t.counts.assigned + c.size := by
  obtain ⟨collected, s, hcollected, happlied, rfl⟩ := add_eq_ok_iff.mp h
  exact Nat.add_le_add_left
    ((Scaling.apply_assigned_le happlied).trans (collect_size_le hcollected)) _

theorem addAll_assigned_le (h : (addAll font t added).outcome = .ok t') :
    t'.counts.assigned ≤ t.counts.assigned + (added.map fun q => q.2.size).sum := by
  induction added generalizing t with
  | nil =>
      cases h
      simp
  | cons q rest ih =>
      obtain ⟨next, hnext, h⟩ := Report.bind_eq_ok.mp h
      have hfirst := add_assigned_le hnext
      have hrest := ih h
      simp only [List.map_cons, List.sum_cons]
      omega

end AttributeTable

end IconConstraints
