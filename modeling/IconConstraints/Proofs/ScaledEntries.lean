import IconConstraints.Proofs.GroupMeasures
import IconConstraints.Proofs.NumericEquality
import IconConstraints.Proofs.TableCounts

/-!
# Entries after scaling

The first group that has measured the codepoint of an entry gives the entry its relative
geometry.  The entries that got some and the groups with measured members are counted, and
only a group that has members but no extent makes the work fail.
-/

namespace IconConstraints

variable {font : Font} {patchSet : String} {crosswalk : Crosswalk} {group : ScaleGroup}
  {groups : List ScaleGroup} {cp : Codepoint} {g : ScaleGroup.Geometry}

namespace ScaleGroup

/-! ## Measured members -/

/-- A codepoint that the group names is mapped to this one, whose glyph has an outline. -/
def Measures (group : ScaleGroup) (font : Font) (crosswalk : Crosswalk) (cp : Codepoint) : Prop :=
  ∃ origin ∈ group.codepoints, crosswalk.destination? origin = some cp ∧
    (font.outline? cp).isSome = true

instance : Decidable (group.Measures font crosswalk cp) :=
  inferInstanceAs (Decidable (∃ origin ∈ group.codepoints, crosswalk.destination? origin = some cp ∧
    (font.outline? cp).isSome = true))

theorem Measures.exists_outline (h : group.Measures font crosswalk cp) :
    ∃ outline, font.outline? cp = some outline := by
  obtain ⟨-, -, -, houtline⟩ := h
  exact Option.isSome_iff_exists.mp houtline

theorem Measures.mem_members {outline : Font.Outline} (h : group.Measures font crosswalk cp)
    (houtline : font.outline? cp = some outline) : (cp, outline) ∈ group.members font crosswalk := by
  obtain ⟨origin, horigin, hdestination, -⟩ := h
  exact ScaleGroup.mem_members.mpr ⟨origin, horigin, hdestination, houtline⟩

theorem measured?_members (h : group.measured? font patchSet crosswalk = some g) :
    g.members = (group.members font crosswalk).map fun m => (m.1, m.2.bounds) := by
  rw [measured?_eq] at h
  obtain ⟨bounds, -, rfl⟩ := Option.map_eq_some_iff.mp h
  rfl

theorem mem_measured_members {box : BoundingBox}
    (h : group.measured? font patchSet crosswalk = some g) : (cp, box) ∈ g.members ↔
      group.Measures font crosswalk cp ∧ (font.outline? cp).map (·.bounds) = some box := by
  rw [measured?_members h, List.mem_map]
  constructor
  · rintro ⟨⟨cp, outline⟩, hm, ⟨⟩⟩
    obtain ⟨origin, horigin, hdestination, houtline⟩ := mem_members.mp hm
    exact ⟨⟨origin, horigin, hdestination, Option.isSome_of_eq_some houtline⟩,
      Option.map_eq_some_iff.mpr ⟨outline, houtline, rfl⟩⟩
  · rintro ⟨hmeasures, hbox⟩
    obtain ⟨outline, houtline, rfl⟩ := Option.map_eq_some_iff.mp hbox
    exact ⟨(cp, outline), hmeasures.mem_members houtline, rfl⟩

theorem placement?_of_measures {outline : Font.Outline} (h : group.Measures font crosswalk cp)
    (houtline : font.outline? cp = some outline) :
    ∃ g, group.measured? font patchSet crosswalk = some g ∧
      g.placement? g.members cp = some (g, outline.bounds) := by
  have hsome : (group.measured? font patchSet crosswalk).isSome = true :=
    measured?_isSome_iff.mpr (List.ne_nil_of_mem (h.mem_members houtline))
  obtain ⟨g, hg⟩ := Option.isSome_iff_exists.mp hsome
  have hbox : (font.outline? cp).map (·.bounds) = some outline.bounds :=
    Option.map_eq_some_iff.mpr ⟨outline, houtline, rfl⟩
  have hfound : (g.members.find? (·.1 == cp)).isSome = true :=
    List.find?_isSome.mpr ⟨_, (mem_measured_members hg).mpr ⟨h, hbox⟩, beq_self_eq_true cp⟩
  obtain ⟨⟨destination, box⟩, hmember⟩ := Option.isSome_iff_exists.mp hfound
  have hfirst := List.find?_some hmember
  obtain rfl : destination = cp := eq_of_beq hfirst
  -- All members at one codepoint have the box of its outline.
  have hmem := (mem_measured_members hg).mp (List.mem_of_find?_eq_some hmember)
  obtain rfl := Option.some.inj (hbox.symm.trans hmem.2)
  refine ⟨g, hg, ?_⟩
  rw [Geometry.placement?, hmember, Option.map_some]

theorem placement?_of_not_measures (h : ¬ group.Measures font crosswalk cp) :
    ((group.measured? font patchSet crosswalk).bind fun g => g.placement? g.members cp) = none := by
  cases hg : group.measured? font patchSet crosswalk with
  | none => rfl
  | some g =>
      have hfind : g.members.find? (·.1 == cp) = none := by
        rw [List.find?_eq_none]
        rintro ⟨destination, box⟩ hmember hdestination
        obtain rfl := eq_of_beq hdestination
        exact h ((mem_measured_members hg).mp hmember).1
      rw [Option.bind_some, Geometry.placement?, hfind, Option.map_none]

theorem placement?_eq_none_iff :
    placement? font patchSet crosswalk cp groups = none ↔
      ∀ group ∈ groups, ¬ group.Measures font crosswalk cp := by
  rw [placement?, List.findSome?_eq_none_iff]
  refine forall₂_congr fun group _ => ⟨fun hnone hmeasures => ?_, placement?_of_not_measures⟩
  obtain ⟨outline, houtline⟩ := hmeasures.exists_outline
  obtain ⟨g, hg, hplacement⟩ := placement?_of_measures hmeasures houtline
  rw [hg, Option.bind_some, hplacement] at hnone
  cases hnone

theorem placement?_first {before : List ScaleGroup} (after : List ScaleGroup)
    {outline : Font.Outline}
    (h : group.Measures font crosswalk cp)
    (hbefore : ∀ earlier ∈ before, ¬ earlier.Measures font crosswalk cp)
    (houtline : font.outline? cp = some outline) :
    ∃ g, group.measured? font patchSet crosswalk = some g ∧
      placement? font patchSet crosswalk cp (before ++ group :: after) =
        some (g, outline.bounds) := by
  obtain ⟨g, hg, hplacement⟩ := placement?_of_measures h houtline
  refine ⟨g, hg, ?_⟩
  have hnone : placement? font patchSet crosswalk cp before = none :=
    placement?_eq_none_iff.mpr hbefore
  unfold placement? at hnone ⊢
  rw [List.findSome?_append, hnone, Option.none_or, List.findSome?_cons, hg, Option.bind_some,
    hplacement]

/-- The group has measured members, and they have no extent. -/
def Collapsed (group : ScaleGroup) (font : Font) (patchSet : String) (crosswalk : Crosswalk) :
    Prop :=
  ∃ g, group.measured? font patchSet crosswalk = some g ∧
    (g.bounds.height ≤ 0.0 ∨ g.bounds.width ≤ 0.0)

end ScaleGroup

namespace Scaling

variable {index : Nat} {s t : Scaling}

theorem isDegenerate_iff {b : BoundingBox} :
    isDegenerate b = true ↔ b.height ≤ 0.0 ∨ b.width ≤ 0.0 := by
  rw [isDegenerate, Bool.or_eq_true, decide_eq_true_eq, decide_eq_true_eq]

/-! ## Counts and failures -/

theorem foldl_assignMember_groups (g : ScaleGroup.Geometry) (s : Scaling)
    (members : List (Codepoint × BoundingBox)) :
    (members.foldl (assignMember g) s).counts.groups = s.counts.groups := by
  induction members generalizing s with
  | nil => rfl
  | cons member rest ih =>
      rw [List.foldl_cons, ih, assignMember]
      split
      · rfl
      · split <;> rfl

theorem applyGroup_counts
    (h : (applyGroup font patchSet crosswalk group index).Ends s (.ok ()) t) :
    t.counts.groups = s.counts.groups + if group.members font crosswalk = [] then 0 else 1 := by
  have hmembers : (group.measured? font patchSet crosswalk).isSome = true ↔
      group.members font crosswalk ≠ [] := ScaleGroup.measured?_isSome_iff
  obtain rfl := h.state
  rcases applyGroup_ends font patchSet crosswalk group index s with
    ⟨hgeometry, hends⟩ | ⟨g, hgeometry, ⟨-, hends⟩ | ⟨-, hends⟩⟩
  · rw [hgeometry] at hmembers
    rw [hends.state, if_pos (not_not.mp fun hne => by cases hmembers.mpr hne)]
    rfl
  · cases h.outcome.symm.trans hends.outcome
  · rw [hgeometry] at hmembers
    rw [hends.state, if_neg (hmembers.mp rfl), foldl_assignMember_groups]

theorem applyGroups_counts
    (h : (applyGroups font patchSet crosswalk index groups).Ends s (.ok ()) t) :
    t.counts.groups = s.counts.groups +
      (groups.filter fun group => group.members font crosswalk ≠ []).length := by
  induction groups generalizing index s with
  | nil =>
      obtain rfl : s = t := h.state
      rfl
  | cons group rest ih =>
      obtain ⟨_, u, hgroup, hrest⟩ := h.exists_of_bind
      rw [ih hrest, applyGroup_counts hgroup, List.filter_cons]
      by_cases hempty : group.members font crosswalk = []
      · simp [hempty]
      · simp only [hempty, ne_eq, not_false_eq_true, decide_true, if_true, if_false,
          List.length_cons]
        omega

theorem applyGroups_ends (font : Font) (patchSet : String) (crosswalk : Crosswalk) (index : Nat)
    (groups : List ScaleGroup) (s : Scaling) :
    ((∃ t, (applyGroups font patchSet crosswalk index groups).Ends s (.ok ()) t) ∧
      ∀ group ∈ groups, ¬ group.Collapsed font patchSet crosswalk) ∨
    ((∃ e t, (applyGroups font patchSet crosswalk index groups).Ends s (.error e) t) ∧
      ∃ group ∈ groups, group.Collapsed font patchSet crosswalk) := by
  induction groups generalizing index s with
  | nil => exact .inl ⟨⟨s, Session.ends_pure () s⟩, List.forall_mem_nil _⟩
  | cons group rest ih =>
      have hgroup : (∃ u, (applyGroup font patchSet crosswalk group index).Ends s (.ok ()) u ∧
            ¬ group.Collapsed font patchSet crosswalk) ∨
          ∃ e u, (applyGroup font patchSet crosswalk group index).Ends s (.error e) u ∧
            group.Collapsed font patchSet crosswalk := by
        rcases applyGroup_ends font patchSet crosswalk group index s with
          ⟨hgeometry, hends⟩ | ⟨g, hgeometry, ⟨hextent, hends⟩ | ⟨hextent, hends⟩⟩
        · refine .inl ⟨_, hends, ?_⟩
          rintro ⟨g, hg, -⟩
          cases hgeometry.symm.trans hg
        · exact .inr ⟨_, _, hends, g, hgeometry, isDegenerate_iff.mp hextent⟩
        · refine .inl ⟨_, hends, ?_⟩
          rintro ⟨g', hg', hcollapsed⟩
          cases hgeometry.symm.trans hg'
          rw [isDegenerate_iff.mpr hcollapsed] at hextent
          cases hextent
      rcases hgroup with ⟨u, hends, hproper⟩ | ⟨e, u, hends, hcollapsed⟩
      · rcases ih (index + 1) u with ⟨⟨t, hrest⟩, hall⟩ | ⟨⟨e, t, hrest⟩, hex⟩
        · exact .inl ⟨⟨t, hends.bind hrest⟩, List.forall_mem_cons.mpr ⟨hproper, hall⟩⟩
        · exact .inr ⟨⟨e, t, hends.bind hrest⟩, List.exists_mem_cons_of_exists hex⟩
      · exact .inr ⟨⟨e, u, hends.bind_error⟩, group, List.mem_cons_self, hcollapsed⟩

theorem applyGroups_succeeds_iff :
    (∃ t, (applyGroups font patchSet crosswalk index groups).Ends s (.ok ()) t) ↔
      ∀ group ∈ groups, ¬ group.Collapsed font patchSet crosswalk := by
  rcases applyGroups_ends font patchSet crosswalk index groups s with
    ⟨hends, hproper⟩ | ⟨⟨e, u, hfails⟩, group, hgroup, hcollapsed⟩
  · exact iff_of_true hends hproper
  · refine iff_of_false ?_ fun hproper => hproper group hgroup hcollapsed
    rintro ⟨t, hends⟩
    cases hends.outcome.symm.trans hfails.outcome

/-! ## Entries -/

/-- The entry of a glyph in a group, both with their boxes. -/
def resized (bounds box : BoundingBox) (monospace : Bool) (entry : AttributeEntry) :
    AttributeEntry :=
  { entry with
    relativeHeight := .ofFloat (box.height / bounds.height)
    relativeY := .ofFloat ((box.yMin - bounds.yMin) / bounds.height)
    relativeWidth :=
      if monospace then .ofFloat (box.width / bounds.width) else entry.relativeWidth
    relativeX :=
      if monospace then .ofFloat ((box.xMin - bounds.xMin) / bounds.width) else entry.relativeX }

theorem relative_eq_resized (bounds box : BoundingBox) (monospace : Bool)
    (entry : AttributeEntry) :
    relative bounds box monospace entry = resized bounds box monospace entry := by
  cases monospace <;> rfl

/-- What applying the groups in their order has made of the entries. -/
structure Scaled (font : Font) (patchSet : String) (crosswalk : Crosswalk)
    (groups : List ScaleGroup) (entries : CodepointMap AttributeEntry) (t : Scaling) : Prop where
  domain : t.entries.domain = entries.domain
  /-- The first group that has measured the codepoint counts. -/
  members : ∀ before group after, groups = before ++ group :: after →
    ∀ cp entry outline, entries[cp]? = some entry → font.outline? cp = some outline →
      group.Measures font crosswalk cp →
      (∀ earlier ∈ before, ¬ earlier.Measures font crosswalk cp) →
      ∃ g, group.Gauges font patchSet crosswalk g ∧ 0.0 < g.bounds.width ∧
        0.0 < g.bounds.height ∧
        t.entries[cp]? = some (resized g.bounds outline.bounds g.isMonospace entry)
  others : ∀ cp, (∀ group ∈ groups, ¬ group.Measures font crosswalk cp) →
    t.entries[cp]? = entries[cp]?
  assigned : t.counts.assigned =
    (entries.domain.filter fun cp => ∃ group ∈ groups, group.Measures font crosswalk cp).card
  groups : t.counts.groups =
    (groups.filter fun group => group.members font crosswalk ≠ []).length

variable {entries : CodepointMap AttributeEntry}

theorem mem_applied
    (h : (applyGroups font patchSet crosswalk index groups).Ends (start entries) (.ok ()) t) :
    cp ∈ t.entries ↔ cp ∈ entries := by
  rw [Std.ExtTreeMap.mem_iff_isSome_getElem?, applyGroups_entries h, Option.isSome_map,
    ← Std.ExtTreeMap.mem_iff_isSome_getElem?]

theorem contains_grouped {entry : AttributeEntry}
    (h : (applyGroups font patchSet crosswalk index groups).Ends (start entries) (.ok ()) t)
    (hentry : entries[cp]? = some entry) : t.grouped.contains cp =
      (ScaleGroup.placement? font patchSet crosswalk cp groups).isSome := by
  have hmark : ∀ (a : Option ScaleGroup.Placement), (place a (entry, false)).2 = a.isSome := by
    intro a
    cases a <;> rfl
  have hstart : (start entries).slot? cp = some (entry, false) := by
    simp [slot?, start, hentry]
  have hslot := applyGroups_slot? h cp
  rw [hstart, Option.map_some, slot?] at hslot
  obtain ⟨_, -, hslot⟩ := Option.map_eq_some_iff.mp hslot
  exact (congrArg Prod.snd hslot).trans (hmark _)

theorem grouped_iff
    (h : (applyGroups font patchSet crosswalk index groups).Ends (start entries) (.ok ()) t) :
    cp ∈ t.grouped ↔ cp ∈ entries ∧ ∃ group ∈ groups, group.Measures font crosswalk cp := by
  have hplaced : (ScaleGroup.placement? font patchSet crosswalk cp groups).isSome = true ↔
      ∃ group ∈ groups, group.Measures font crosswalk cp := by
    rw [Option.isSome_iff_ne_none, ne_eq, ScaleGroup.placement?_eq_none_iff]
    simp
  have hentered := ((Tallied.start entries).applyGroups h).entered cp
  rw [mem_applied h] at hentered
  rw [← hplaced]
  by_cases hmem : cp ∈ entries
  · rw [← Std.ExtTreeMap.contains_iff_mem,
      contains_grouped h (Std.ExtTreeMap.getElem?_eq_some_getElem hmem)]
    exact (and_iff_right hmem).symm
  · exact iff_of_false (fun hgrouped => hmem (hentered hgrouped)) fun hboth => hmem hboth.1

theorem applyGroups_scaled (hfont : font.FiniteBoxes)
    (h : (applyGroups font patchSet crosswalk index groups).Ends (start entries) (.ok ()) t) :
    Scaled font patchSet crosswalk groups entries t := by
  have hentries := applyGroups_entries h
  constructor
  case domain =>
    ext cp
    rw [CodepointMap.mem_domain, CodepointMap.mem_domain, mem_applied h]
  case members =>
    intro before group after hgroups cp entry outline hentry houtline hmeasures hbefore
    obtain ⟨g, hg, hplacement⟩ := ScaleGroup.placement?_first after hmeasures hbefore houtline
    have hgauges := ScaleGroup.measured?_gauges hfont hg
    have hextent := applyGroups_extent h group (by rw [hgroups]; simp) g hg
    rw [← Bool.not_eq_true, isDegenerate_iff, not_or] at hextent
    have hfinite := hgauges.finite hfont
    have hwidth : 0.0 < g.bounds.width :=
      pos_of_not_le_zero (not_isNaN_sub hfinite.xMax hfinite.xMin) hextent.2
    have hheight : 0.0 < g.bounds.height :=
      pos_of_not_le_zero (not_isNaN_sub hfinite.yMax hfinite.yMin) hextent.1
    refine ⟨g, hgauges, hwidth, hheight, ?_⟩
    rw [hentries, hentry, hgroups, hplacement, Option.map_some, scaledBy, relative_eq_resized]
  case others =>
    intro cp hothers
    rw [hentries, ScaleGroup.placement?_eq_none_iff.mpr hothers]
    cases entries[cp]? <;> rfl
  case assigned =>
    rw [((Tallied.start entries).applyGroups h).assigned, ← CodepointMap.card_domain]
    congr 1
    ext cp
    rw [CodepointMap.mem_domain, grouped_iff h, Finset.mem_filter, CodepointMap.mem_domain]
  case groups =>
    rw [applyGroups_counts h]
    exact Nat.zero_add _

/-- Applying the groups of a patch set scales its entries, or one of the groups has no extent. -/
theorem scaled_or_collapsed {p : PatchSet} {rules : ScaleRules} (hfont : font.FiniteBoxes)
    (hrules : p.scaleRules = some rules) (entries : CodepointMap AttributeEntry) :
    (∀ t, (Scaling.apply font p crosswalk).Ends (.start entries) (.ok ()) t →
      Scaled font p.name crosswalk rules.groups entries t) ∧
    ((∃ e t, (Scaling.apply font p crosswalk).Ends (.start entries) (.error e) t) ↔
      ∃ group ∈ rules.groups, ∃ g, group.measured? font p.name crosswalk = some g ∧
        group.Gauges font p.name crosswalk g ∧
        (g.bounds.height ≤ 0.0 ∨ g.bounds.width ≤ 0.0)) := by
  unfold Scaling.apply
  rw [hrules]
  refine ⟨fun t h => applyGroups_scaled hfont h, ?_⟩
  rcases applyGroups_ends font p.name crosswalk 0 rules.groups (.start entries) with
    ⟨⟨t, hends⟩, hproper⟩ | ⟨hfails, group, hgroup, g, hg, hcollapsed⟩
  · refine iff_of_false ?_ ?_
    · rintro ⟨e, u, hfails⟩
      cases hends.outcome.symm.trans hfails.outcome
    · rintro ⟨group, hgroup, g, hg, -, hcollapsed⟩
      exact hproper group hgroup ⟨g, hg, hcollapsed⟩
  · exact iff_of_true hfails
      ⟨group, hgroup, g, hg, ScaleGroup.measured?_gauges hfont hg, hcollapsed⟩

theorem ends_of_isOk (session : Session Scaling Unit) (s : Scaling)
    (h : (session s).report.outcome.isOk = true) : session.Ends s (.ok ()) (session s).state := by
  refine ⟨?_, rfl⟩
  cases houtcome : (session s).report.outcome with
  | error e =>
      rw [houtcome] at h
      cases h
  | ok => rfl

/-- A font with a low and a high glyph. -/
def stairFont : Font where
  glyph? := some
  bounds? glyph :=
    if glyph = 0 then some ⟨0.0, 0.0, 1.0, 1.0⟩
    else if glyph = 1 then some ⟨0.0, 0.0, 2.0, 4.0⟩
    else none
  advance? _ := none

theorem stairFont_finite : stairFont.FiniteBoxes := by
  intro glyph b h
  unfold stairFont at h
  dsimp only at h
  split at h
  · cases h
    constructor <;> decide +kernel
  · split at h
    · cases h
      constructor <;> decide +kernel
    · cases h

/-- The low glyph is in both groups, and the second group names one that is not mapped. -/
def stairRules : ScaleRules :=
  ⟨[.list [0, 1], .list [2, 0]], none⟩

def stairIcons : PatchSet :=
  ⟨"A", "a", true, 0, 2, none, some stairRules, ⟨.unset, ∅⟩⟩

def stairCrosswalk : Crosswalk :=
  .ofPairs "A" 0 true [(0, 0), (1, 1)]

def stairEntries : CodepointMap AttributeEntry :=
  AttributeTable.entriesOf stairIcons.attributes stairCrosswalk.pairs

theorem stairIcons_scaled : stairFont.FiniteBoxes ∧ stairIcons.scaleRules = some stairRules ∧
    ∃ t, (Scaling.apply stairFont stairIcons stairCrosswalk).Ends (.start stairEntries) (.ok ()) t ∧
      Scaled stairFont "A" stairCrosswalk stairRules.groups stairEntries t ∧
      t.counts = ⟨2, 2⟩ ∧
      t.entries[0]? = some { AttributeEntry.unset with
        relativeHeight := .ofFloat 0.25, relativeY := .ofFloat 0.0 } := by
  have hends := ends_of_isOk (Scaling.apply stairFont stairIcons stairCrosswalk)
    (.start stairEntries) (by decide +kernel)
  refine ⟨stairFont_finite, rfl, _, hends, ?_, ?_, ?_⟩
  · exact (scaled_or_collapsed stairFont_finite rfl _).1 _ hends
  · decide +kernel
  · decide +kernel

end Scaling

end IconConstraints
