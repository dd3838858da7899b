import IconConstraints.Proofs.ScaledEntries

/-!
# Scale groups as sets

Neither the order in which a scale group names its codepoints nor how often it names one
makes a difference.  The box and the advances of a group depend on the set of its members.
Only the number of members does not; where it decides whether a group is monospace, the
group has one member alone, which fills the whole width either way.
-/

namespace IconConstraints

/-! ## Extreme coordinates of the same lists -/

theorem Extreme.mutual {R : Float → Float → Prop} {l m : List Float} {x y : Float}
    (hx : Extreme R l x) (hy : Extreme R m y) (hsame : ∀ z, z ∈ l ↔ z ∈ m) : R x y ∧ R y x :=
  ⟨hx.2 y ((hsame y).mpr hy.1), hy.2 x ((hsame x).mp hx.1)⟩

theorem mem_map_congr {α β : Type} {l m : List α} (hsame : ∀ a, a ∈ l ↔ a ∈ m) (f : α → β) (b : β) :
    b ∈ l.map f ↔ b ∈ m.map f := by
  simp only [List.mem_map, hsame]

theorem IsSmall.sub_isFinite {x y : Float} (hx : IsSmall x) (hy : IsSmall y) :
    (x - y).isFinite = true := by
  have hxBounds := hx.units_bounds
  have hyBounds := hy.units_bounds
  have hsize : (units x - units y).natAbs.log2 ≤ 1106 := by
    apply natAbs_log2_le
    rw [pow_succ] at *
    omega
  exact (sub_units hx.isFinite hy.isFinite (by omega)).1

namespace BoundingBox

variable {a b : BoundingBox} {horizontal vertical horizontal' vertical' : List BoundingBox}

/-- The coordinates are the same numbers. -/
structure Same (a b : BoundingBox) : Prop where
  xMin : SameNumber a.xMin b.xMin
  yMin : SameNumber a.yMin b.yMin
  xMax : SameNumber a.xMax b.xMax
  yMax : SameNumber a.yMax b.yMax

theorem Same.width (h : a.Same b) : SameNumber a.width b.width :=
  h.xMax.sub h.xMin

theorem Same.height (h : a.Same b) : SameNumber a.height b.height :=
  h.yMax.sub h.yMin

theorem Small.width_isFinite (h : a.Small) : a.width.isFinite = true :=
  h.xMax.sub_isFinite h.xMin

theorem Small.height_isFinite (h : a.Small) : a.height.isFinite = true :=
  h.yMax.sub_isFinite h.yMin

theorem Spans.small (h : a.Spans horizontal vertical) (hhorizontal : ∀ c ∈ horizontal, c.Small)
    (hvertical : ∀ c ∈ vertical, c.Small) : a.Small := by
  constructor
  case xMin => exact h.left.of_forall IsSmall fun c hc => (hhorizontal c hc).xMin
  case yMin => exact h.below.of_forall IsSmall fun c hc => (hvertical c hc).yMin
  case xMax => exact h.right.of_forall IsSmall fun c hc => (hhorizontal c hc).xMax
  case yMax => exact h.above.of_forall IsSmall fun c hc => (hvertical c hc).yMax

theorem Spans.same (ha : a.Spans horizontal vertical) (hb : b.Spans horizontal' vertical')
    (haFinite : a.Finite) (hbFinite : b.Finite) (hhorizontal : ∀ c, c ∈ horizontal ↔ c ∈ horizontal')
    (hvertical : ∀ c, c ∈ vertical ↔ c ∈ vertical') : a.Same b := by
  constructor
  case xMin =>
    obtain ⟨hab, hba⟩ := ha.left.mutual hb.left (mem_map_congr hhorizontal _)
    exact .of_le_of_le haFinite.xMin hbFinite.xMin hab hba
  case yMin =>
    obtain ⟨hab, hba⟩ := ha.below.mutual hb.below (mem_map_congr hvertical _)
    exact .of_le_of_le haFinite.yMin hbFinite.yMin hab hba
  case xMax =>
    obtain ⟨hba, hab⟩ := ha.right.mutual hb.right (mem_map_congr hhorizontal _)
    exact .of_le_of_le haFinite.xMax hbFinite.xMax hab hba
  case yMax =>
    obtain ⟨hba, hab⟩ := ha.above.mutual hb.above (mem_map_congr hvertical _)
    exact .of_le_of_le haFinite.yMax hbFinite.yMax hab hba

end BoundingBox

/-- All boxes of the font have small coordinates. -/
def Font.SmallBoxes (font : Font) : Prop :=
  ∀ glyph b, font.bounds? glyph = some b → b.Small

theorem Font.SmallBoxes.finite {font : Font} (h : font.SmallBoxes) : font.FiniteBoxes :=
  fun glyph b hb => (h glyph b hb).finite

namespace ScaleGroup

variable {font : Font} {patchSet : String} {crosswalk : Crosswalk} {group group' : ScaleGroup}
  {g g' : Geometry} {cp : Codepoint}

/-- Both groups name the same codepoints. -/
def SameSet (group group' : ScaleGroup) : Prop :=
  ∀ cp, cp ∈ group.codepoints ↔ cp ∈ group'.codepoints

theorem SameSet.symm (h : group.SameSet group') : group'.SameSet group :=
  fun cp => (h cp).symm

theorem SameSet.measures (h : group.SameSet group') :
    group.Measures font crosswalk cp ↔ group'.Measures font crosswalk cp := by
  unfold Measures
  simp only [h _]

theorem SameSet.members (h : group.SameSet group') (m : Codepoint × Font.Outline) :
    m ∈ group.members font crosswalk ↔ m ∈ group'.members font crosswalk := by
  simp only [mem_members, h _]

theorem SameSet.members_eq_nil (h : group.SameSet group') :
    group.members font crosswalk = [] ↔ group'.members font crosswalk = [] := by
  simp only [List.eq_nil_iff_forall_not_mem, h.members]

theorem SameSet.boxes (h : group.SameSet group') (b : BoundingBox) :
    b ∈ group.boxes font crosswalk ↔ b ∈ group'.boxes font crosswalk :=
  mem_map_congr h.members _ b

theorem SameSet.standIns (h : group.SameSet group') (b : BoundingBox) :
    b ∈ group.standIns font patchSet crosswalk ↔ b ∈ group'.standIns font patchSet crosswalk := by
  simp only [ScaleGroup.standIns, List.mem_filterMap, List.mem_filter, h _]

theorem SameSet.advances (h : group.SameSet group') (w : UInt64) :
    w ∈ group.advances font crosswalk ↔ w ∈ group'.advances font crosswalk := by
  simp only [ScaleGroup.advances, List.mem_filterMap, h.members]

theorem SameSet.bounds (h : group.SameSet group') (hfont : font.FiniteBoxes)
    (hg : group.Gauges font patchSet crosswalk g) (hg' : group'.Gauges font patchSet crosswalk g') :
    g.bounds.Same g'.bounds := by
  refine hg.spans.same hg'.spans (hg.finite hfont) (hg'.finite hfont) h.boxes fun b => ?_
  simp only [List.mem_append, h.boxes, h.standIns]

/-- All members are one glyph, however often it is listed. -/
def Lone (group : ScaleGroup) (font : Font) (crosswalk : Crosswalk)
    (m : Codepoint × Font.Outline) : Prop :=
  ∀ other ∈ group.members font crosswalk, other = m

theorem SameSet.lone {m : Codepoint × Font.Outline} (h : group.SameSet group')
    (hlone : group.Lone font crosswalk m) : group'.Lone font crosswalk m :=
  fun other hother => hlone other ((h.members other).mpr hother)

theorem exists_lone (hne : group.members font crosswalk ≠ [])
    (hlength : ¬ 1 < (group.members font crosswalk).length) :
    ∃ m, group.Lone font crosswalk m := by
  cases hmembers : group.members font crosswalk with
  | nil => exact absurd hmembers hne
  | cons m rest =>
      rw [hmembers, List.length_cons] at hlength
      obtain rfl : rest = [] := List.eq_nil_of_length_eq_zero (by omega)
      refine ⟨m, fun other hother => ?_⟩
      rw [hmembers] at hother
      exact List.mem_singleton.mp hother

/-- Being listed repeatedly makes a group monospace only if it has one member alone. -/
theorem SameSet.monospace_or_lone (h : group.SameSet group') :
    (group.Monospace font crosswalk ↔ group'.Monospace font crosswalk) ∨
      ∃ m, group.Lone font crosswalk m := by
  by_cases hlength : 1 < (group.members font crosswalk).length
  · by_cases hlength' : 1 < (group'.members font crosswalk).length
    · refine .inl (and_congr (iff_of_true hlength hlength') ?_)
      simp only [h.advances]
    · have hne : group'.members font crosswalk ≠ [] := by
        rw [ne_eq, ← h.members_eq_nil]
        exact List.ne_nil_of_length_pos (by omega)
      obtain ⟨m, hm⟩ := exists_lone hne hlength'
      exact .inr ⟨m, h.symm.lone hm⟩
  · by_cases hempty : group.members font crosswalk = []
    · have hempty' := h.members_eq_nil.mp hempty
      refine .inl (iff_of_false (fun hm => hlength hm.1) fun hm => ?_)
      rw [Monospace, hempty', List.length_nil] at hm
      exact absurd hm.1 (by omega)
    · exact .inr (exists_lone hempty hlength)

theorem Lone.span {m : Codepoint × Font.Outline} (h : group.Lone font crosswalk m)
    (hg : group.Gauges font patchSet crosswalk g) :
    g.bounds.xMin = m.2.bounds.xMin ∧ g.bounds.xMax = m.2.bounds.xMax := by
  have hboxes : ∀ b ∈ group.boxes font crosswalk, b = m.2.bounds := by
    intro b hb
    obtain ⟨other, hother, rfl⟩ := List.mem_map.mp hb
    rw [h other hother]
  constructor
  · exact hg.spans.left.of_forall (· = _) fun b hb => by rw [hboxes b hb]
  · exact hg.spans.right.of_forall (· = _) fun b hb => by rw [hboxes b hb]

theorem Gauges.small (hg : group.Gauges font patchSet crosswalk g) (hfont : font.SmallBoxes) :
    g.bounds.Small :=
  hg.spans.small (forall_mem_boxes hfont)
    (List.forall_mem_append.mpr ⟨forall_mem_boxes hfont, forall_mem_standIns hfont⟩)

theorem SameSet.collapsed (hsame : group.SameSet group') (hfont : font.SmallBoxes)
    (h : group.Collapsed font patchSet crosswalk) :
    group'.Collapsed font patchSet crosswalk := by
  obtain ⟨g, hg, hcollapsed⟩ := h
  have hmembers : (group'.measured? font patchSet crosswalk).isSome = true := by
    rw [measured?_isSome_iff, ne_eq, ← hsame.members_eq_nil]
    exact measured?_isSome_iff.mp (Option.isSome_of_eq_some hg)
  obtain ⟨g', hg'⟩ := Option.isSome_iff_exists.mp hmembers
  have hgauges := measured?_gauges hfont.finite hg
  have hgauges' := measured?_gauges hfont.finite hg'
  have hbounds := hsame.bounds hfont.finite hgauges hgauges'
  have hsmall := hgauges.small hfont
  have hsmall' := hgauges'.small hfont
  refine ⟨g', hg', ?_⟩
  rwa [← hbounds.height.le_zero_iff hsmall.height_isFinite hsmall'.height_isFinite,
    ← hbounds.width.le_zero_iff hsmall.width_isFinite hsmall'.width_isFinite]

end ScaleGroup

/-! ## Numerically equal entries -/

namespace AttributeEntry

variable {a b : AttributeEntry}

/-- The relative geometry is that of a glyph without a group. -/
structure Ungrouped (entry : AttributeEntry) : Prop where
  x : entry.relativeX = .ofFloat 0.0
  y : entry.relativeY = .ofFloat 0.0
  width : entry.relativeWidth = .ofFloat 1.0
  height : entry.relativeHeight = .ofFloat 1.0

structure RelativeNumeric (entry : AttributeEntry) : Prop where
  x : entry.relativeX.toFloat.isNaN = false
  y : entry.relativeY.toFloat.isNaN = false
  width : entry.relativeWidth.toFloat.isNaN = false
  height : entry.relativeHeight.toFloat.isNaN = false

structure RelativeSame (a b : AttributeEntry) : Prop where
  x : SameNumber a.relativeX.toFloat b.relativeX.toFloat
  y : SameNumber a.relativeY.toFloat b.relativeY.toFloat
  width : SameNumber a.relativeWidth.toFloat b.relativeWidth.toFloat
  height : SameNumber a.relativeHeight.toFloat b.relativeHeight.toFloat

theorem RelativeSame.refl (a : AttributeEntry) : a.RelativeSame a :=
  ⟨.refl _, .refl _, .refl _, .refl _⟩

/-- The numbers of the relative geometry are equal, and all else is the same. -/
structure NumericallyEqual (a b : AttributeEntry) : Prop where
  others : a.SameButRelative b
  x : (a.relativeX.toFloat == b.relativeX.toFloat) = true
  y : (a.relativeY.toFloat == b.relativeY.toFloat) = true
  width : (a.relativeWidth.toFloat == b.relativeWidth.toFloat) = true
  height : (a.relativeHeight.toFloat == b.relativeHeight.toFloat) = true

theorem RelativeSame.numericallyEqual (h : a.RelativeSame b) (hnumeric : a.RelativeNumeric)
    (hothers : a.SameButRelative b) : a.NumericallyEqual b :=
  ⟨hothers, h.x.beq hnumeric.x, h.y.beq hnumeric.y, h.width.beq hnumeric.width,
    h.height.beq hnumeric.height⟩

theorem SameButRelative.of_common {entry : AttributeEntry} (ha : a.SameButRelative entry)
    (hb : b.SameButRelative entry) : a.SameButRelative b :=
  ⟨ha.align.trans hb.align.symm, ha.valign.trans hb.valign.symm, ha.stretch.trans hb.stretch.symm,
    ha.overlap.trans hb.overlap.symm, ha.xyRatio.trans hb.xyRatio.symm,
    ha.yPadding.trans hb.yPadding.symm⟩

theorem Ungrouped.relativeNumeric (h : a.Ungrouped) : a.RelativeNumeric := by
  constructor
  case x => rw [h.x, Scalar.toFloat_ofFloat]; decide +kernel
  case y => rw [h.y, Scalar.toFloat_ofFloat]; decide +kernel
  case width => rw [h.width, Scalar.toFloat_ofFloat]; decide +kernel
  case height => rw [h.height, Scalar.toFloat_ofFloat]; decide +kernel

end AttributeEntry

/-- The patch set with other scale groups. -/
def PatchSet.withGroups (p : PatchSet) (rules : ScaleRules) : PatchSet :=
  { p with scaleRules := some rules }

namespace Scaling

open ScaleGroup (SameSet Gauges Geometry)

variable {font : Font} {patchSet : String} {crosswalk : Crosswalk} {group group' : ScaleGroup}
  {g g' : Geometry} {cp : Codepoint} {bounds box : BoundingBox} {monospace : Bool}
  {entry : AttributeEntry}

theorem extent_ne_zero (hbounds : bounds.Small) (hextent : isDegenerate bounds = false) :
    units bounds.width ≠ 0 ∧ units bounds.height ≠ 0 := by
  have hzero : units 0.0 = 0 := rfl
  rw [← Bool.not_eq_true, isDegenerate_iff, not_or, le_iff_units hbounds.height_isFinite rfl,
    le_iff_units hbounds.width_isFinite rfl, hzero] at hextent
  omega

theorem relative_numeric (hbounds : bounds.Small) (hextent : isDegenerate bounds = false)
    (hbox : box.Small) (hentry : entry.RelativeNumeric) :
    (relative bounds box monospace entry).RelativeNumeric := by
  obtain ⟨hwidth, hheight⟩ := extent_ne_zero hbounds hextent
  have hrelativeHeight : (box.height / bounds.height).isNaN = false :=
    not_isNaN_div hbox.height_isFinite hbounds.height_isFinite hheight
  have hrelativeY : ((box.yMin - bounds.yMin) / bounds.height).isNaN = false :=
    not_isNaN_div (hbox.yMin.sub_isFinite hbounds.yMin) hbounds.height_isFinite hheight
  have hrelativeWidth : (box.width / bounds.width).isNaN = false :=
    not_isNaN_div hbox.width_isFinite hbounds.width_isFinite hwidth
  have hrelativeX : ((box.xMin - bounds.xMin) / bounds.width).isNaN = false :=
    not_isNaN_div (hbox.xMin.sub_isFinite hbounds.xMin) hbounds.width_isFinite hwidth
  obtain ⟨⟨hx, hy⟩, hw, hh⟩ := relative_forall (·.isNaN = false) monospace hrelativeX hrelativeY
    hrelativeWidth hrelativeHeight hentry.x hentry.width
  exact ⟨hx, hy, hw, hh⟩

/-- A member that fills the width of its group has the width of a glyph without a group. -/
theorem relative_filling (hbounds : bounds.Small) (hextent : isDegenerate bounds = false)
    (hspan : bounds.xMin = box.xMin ∧ bounds.xMax = box.xMax) (hentry : entry.Ungrouped) :
    SameNumber (relative bounds box monospace entry).relativeX.toFloat 0.0 ∧
      SameNumber (relative bounds box monospace entry).relativeWidth.toFloat 1.0 := by
  have hwidth := (extent_ne_zero hbounds hextent).1
  have hfull : box.width = bounds.width := by
    rw [BoundingBox.width, BoundingBox.width, hspan.1, hspan.2]
  rw [relative_eq_resized]
  cases monospace with
  | false =>
      simp only [resized, hentry.x, hentry.width, Scalar.toFloat_ofFloat, Bool.false_eq_true,
        if_false]
      exact ⟨.refl _, .refl _⟩
  | true =>
      simp only [resized, Scalar.toFloat_ofFloat, if_true]
      rw [hfull, ← hspan.1]
      have hoffset : SameNumber (bounds.xMin - bounds.xMin) 0.0 :=
        .sub_self hbounds.xMin.isFinite
      exact ⟨(hoffset.div (.refl _) hwidth).trans (.zero_div hbounds.width_isFinite hwidth),
        .div_self hbounds.width_isFinite hwidth⟩

/-- A member has the same relative geometry in groups that name the same codepoints. -/
theorem relative_same {outline : Font.Outline} (hfont : font.SmallBoxes)
    (hsame : group.SameSet group') (hg : group.Gauges font patchSet crosswalk g)
    (hg' : group'.Gauges font patchSet crosswalk g') (hextent : isDegenerate g.bounds = false)
    (hextent' : isDegenerate g'.bounds = false) (hmeasures : group.Measures font crosswalk cp)
    (houtline : font.outline? cp = some outline) (hentry : entry.Ungrouped) :
    (relative g.bounds outline.bounds g.isMonospace entry).RelativeSame
      (relative g'.bounds outline.bounds g'.isMonospace entry) := by
  have hbounds := hsame.bounds hfont.finite hg hg'
  obtain ⟨hwidth, hheight⟩ := extent_ne_zero (hg.small hfont) hextent
  have hhorizontal :
      SameNumber (relative g.bounds outline.bounds g.isMonospace entry).relativeX.toFloat
        (relative g'.bounds outline.bounds g'.isMonospace entry).relativeX.toFloat ∧
      SameNumber (relative g.bounds outline.bounds g.isMonospace entry).relativeWidth.toFloat
        (relative g'.bounds outline.bounds g'.isMonospace entry).relativeWidth.toFloat := by
    rcases hsame.monospace_or_lone with hmonospace | ⟨m, hlone⟩
    · rw [← hg.monospace, ← hg'.monospace, ← Bool.eq_iff_iff] at hmonospace
      rw [hmonospace, relative_eq_resized, relative_eq_resized]
      cases g'.isMonospace with
      | false =>
          simp only [resized, Bool.false_eq_true, if_false]
          exact ⟨.refl _, .refl _⟩
      | true =>
          simp only [resized, Scalar.toFloat_ofFloat, if_true]
          exact ⟨((SameNumber.refl _).sub hbounds.xMin).div hbounds.width hwidth,
            (SameNumber.refl _).div hbounds.width hwidth⟩
    · obtain rfl := hlone _ (hmeasures.mem_members houtline)
      obtain ⟨hx, hw⟩ := relative_filling (hg.small hfont) hextent (hlone.span hg) hentry
      obtain ⟨hx', hw'⟩ :=
        relative_filling (hg'.small hfont) hextent' ((hsame.lone hlone).span hg') hentry
      exact ⟨hx.trans hx'.symm, hw.trans hw'.symm⟩
  constructor
  case x => exact hhorizontal.1
  case width => exact hhorizontal.2
  case y =>
    rw [relative_eq_resized, relative_eq_resized]
    simp only [resized, Scalar.toFloat_ofFloat]
    exact ((SameNumber.refl _).sub hbounds.yMin).div hbounds.height hheight
  case height =>
    rw [relative_eq_resized, relative_eq_resized]
    simp only [resized, Scalar.toFloat_ofFloat]
    exact (SameNumber.refl _).div hbounds.height hheight

/-! ## Runs -/

section Runs

variable {groups before after : List ScaleGroup}

theorem scaledBy_numeric (hfont : font.SmallBoxes)
    (hextents : ∀ group ∈ groups, ∀ g, group.measured? font patchSet crosswalk = some g →
      isDegenerate g.bounds = false) (cp : Codepoint) (hentry : entry.RelativeNumeric) :
    (scaledBy (ScaleGroup.placement? font patchSet crosswalk cp groups) entry).RelativeNumeric := by
  cases hplacement : ScaleGroup.placement? font patchSet crosswalk cp groups with
  | none => exact hentry
  | some placement =>
      obtain ⟨group, hgroup, hmeasured, member, hmember, hbox⟩ := placement?_eq_some hplacement
      have hsmall := (ScaleGroup.measured?_gauges hfont.finite hmeasured).small hfont
      obtain ⟨-, houtline⟩ := (ScaleGroup.mem_measured_members hmeasured).mp hmember
      obtain ⟨outline, houtline, hbounds⟩ := Option.map_eq_some_iff.mp houtline
      have hboxSmall : placement.2.Small := by
        rw [← hbox, ← hbounds]
        exact ScaleGroup.outline?_bounds hfont houtline
      exact relative_numeric hsmall (hextents group hgroup _ hmeasured) hboxSmall hentry

theorem placement?_append_cons (before after : List ScaleGroup) (group : ScaleGroup) :
    ScaleGroup.placement? font patchSet crosswalk cp (before ++ group :: after) =
      (ScaleGroup.placement? font patchSet crosswalk cp before).or
        (((group.measured? font patchSet crosswalk).bind fun g => g.placement? g.members cp).or
          (ScaleGroup.placement? font patchSet crosswalk cp after)) := by
  unfold ScaleGroup.placement?
  rw [List.findSome?_append, List.findSome?_cons]
  congr 1
  split
  case h_1 hsome => rw [hsome, Option.some_or]
  case h_2 hnone => rw [hnone, Option.none_or]

theorem scaledBy_same (hfont : font.SmallBoxes) (hsame : group.SameSet group')
    (hextent : ∀ g, group.measured? font patchSet crosswalk = some g →
      isDegenerate g.bounds = false)
    (hextent' : ∀ g, group'.measured? font patchSet crosswalk = some g →
      isDegenerate g.bounds = false) (hentry : entry.Ungrouped) :
    (scaledBy (ScaleGroup.placement? font patchSet crosswalk cp (before ++ group :: after))
      entry).RelativeSame
    (scaledBy (ScaleGroup.placement? font patchSet crosswalk cp (before ++ group' :: after))
      entry) := by
  rw [placement?_append_cons, placement?_append_cons]
  cases ScaleGroup.placement? font patchSet crosswalk cp before with
  | some placement => exact .refl _
  | none =>
      by_cases hmeasures : group.Measures font crosswalk cp
      · obtain ⟨outline, houtline⟩ := hmeasures.exists_outline
        obtain ⟨g, hg, hplacement⟩ := ScaleGroup.placement?_of_measures hmeasures houtline
        obtain ⟨g', hg', hplacement'⟩ :=
          ScaleGroup.placement?_of_measures (hsame.measures.mp hmeasures) houtline
        rw [hg, hg', Option.bind_some, Option.bind_some, hplacement, hplacement']
        exact relative_same hfont hsame (ScaleGroup.measured?_gauges hfont.finite hg)
          (ScaleGroup.measured?_gauges hfont.finite hg') (hextent g hg) (hextent' g' hg')
          hmeasures houtline hentry
      · rw [ScaleGroup.placement?_of_not_measures hmeasures,
          ScaleGroup.placement?_of_not_measures (hsame.measures.not.mp hmeasures)]
        exact .refl _

/-- What two runs over the same entries have in common if a group names the same codepoints. -/
structure Interchangeable (entries : CodepointMap AttributeEntry) (t t' : Scaling) : Prop where
  counts : t.counts = t'.counts
  domain : t.entries.domain = t'.entries.domain
  entries : ∀ (cp : Codepoint) (entry : AttributeEntry), entries[cp]? = some entry →
    entry.Ungrouped → ∃ a b : AttributeEntry, t.entries[cp]? = some a ∧
      t'.entries[cp]? = some b ∧ a.NumericallyEqual b

theorem counts_eq {entries : CodepointMap AttributeEntry} {t t' : Scaling}
    (hsame : group.SameSet group')
    (h : Scaled font patchSet crosswalk (before ++ group :: after) entries t)
    (h' : Scaled font patchSet crosswalk (before ++ group' :: after) entries t') :
    t.counts = t'.counts := by
  have hmeasures : ∀ cp, (∃ x ∈ before ++ group :: after, x.Measures font crosswalk cp) ↔
      ∃ x ∈ before ++ group' :: after, x.Measures font crosswalk cp := by
    intro cp
    simp only [List.mem_append, List.mem_cons, or_and_right, exists_or, exists_eq_left,
      hsame.measures]
  have hmembers : (group.members font crosswalk ≠ []) = (group'.members font crosswalk ≠ []) :=
    propext hsame.members_eq_nil.not
  have hassigned : t.counts.assigned = t'.counts.assigned := by
    rw [h.assigned, h'.assigned]
    simp only [hmeasures]
  have hgroups : t.counts.groups = t'.counts.groups := by
    rw [h.groups, h'.groups, List.filter_append, List.filter_append, List.filter_cons,
      List.filter_cons, List.length_append, List.length_append]
    simp only [hmembers]
    split <;> rfl
  calc
    t.counts = ⟨t.counts.groups, t.counts.assigned⟩ := rfl
    _ = t'.counts := by rw [hgroups, hassigned]

theorem applyGroups_interchangeable {entries : CodepointMap AttributeEntry} {t t' : Scaling}
    (hfont : font.SmallBoxes) (hsame : group.SameSet group')
    (h : (applyGroups font patchSet crosswalk 0 (before ++ group :: after)).Ends (start entries)
      (.ok ()) t)
    (h' : (applyGroups font patchSet crosswalk 0 (before ++ group' :: after)).Ends (start entries)
      (.ok ()) t') : Interchangeable entries t t' := by
  have hscaled := applyGroups_scaled hfont.finite h
  have hscaled' := applyGroups_scaled hfont.finite h'
  constructor
  case counts => exact counts_eq hsame hscaled hscaled'
  case domain => rw [hscaled.domain, hscaled'.domain]
  case entries =>
    intro cp entry hentry hungrouped
    have ha := applyGroups_entries h cp
    have hb := applyGroups_entries h' cp
    rw [hentry, Option.map_some] at ha hb
    refine ⟨_, _, ha, hb, ?_⟩
    have hextents := applyGroups_extent h
    have hextents' := applyGroups_extent h'
    apply AttributeEntry.RelativeSame.numericallyEqual
    · exact scaledBy_same hfont hsame (hextents group List.mem_append_cons_self)
        (hextents' group' List.mem_append_cons_self) hungrouped
    · exact scaledBy_numeric hfont hextents cp hungrouped.relativeNumeric
    · exact .of_common (scaledBy_sameButRelative _ entry) (scaledBy_sameButRelative _ entry)

/-- It makes no difference which group of those that name the same codepoints is applied. -/
theorem apply_sameSet (hfont : font.SmallBoxes) (hsame : group.SameSet group') (p : PatchSet)
    (before after : List ScaleGroup) (shiftMode : Option String)
    (entries : CodepointMap AttributeEntry) :
    ((∃ t, (Scaling.apply font (p.withGroups ⟨before ++ group :: after, shiftMode⟩)
        crosswalk).Ends (.start entries) (.ok ()) t) ↔
      ∃ t, (Scaling.apply font (p.withGroups ⟨before ++ group' :: after, shiftMode⟩)
        crosswalk).Ends (.start entries) (.ok ()) t) ∧
    ∀ t t', (Scaling.apply font (p.withGroups ⟨before ++ group :: after, shiftMode⟩)
        crosswalk).Ends (.start entries) (.ok ()) t →
      (Scaling.apply font (p.withGroups ⟨before ++ group' :: after, shiftMode⟩)
        crosswalk).Ends (.start entries) (.ok ()) t' →
      Interchangeable entries t t' := by
  have hrun : ∀ x, Scaling.apply font (p.withGroups ⟨before ++ x :: after, shiftMode⟩) crosswalk =
      applyGroups font p.name crosswalk 0 (before ++ x :: after) := fun _ => rfl
  rw [hrun, hrun]
  constructor
  · have hcollapsed : group.Collapsed font p.name crosswalk ↔
        group'.Collapsed font p.name crosswalk :=
      ⟨hsame.collapsed hfont, hsame.symm.collapsed hfont⟩
    rw [applyGroups_succeeds_iff, applyGroups_succeeds_iff]
    simp only [List.forall_mem_append, List.forall_mem_cons, hcollapsed]
  · exact fun t t' h h' => applyGroups_interchangeable hfont hsame h h'

/-- A font with one glyph, which is wider than it is high. -/
def flatFont : Font where
  glyph? cp := if cp = 7 then some 0 else none
  bounds? _ := some ⟨1.0, 0.0, 3.0, 1.0⟩
  advance? _ := some 4.0

theorem flatFont_small : flatFont.SmallBoxes := by
  intro glyph b h
  cases h
  constructor <;> constructor <;> decide +kernel

def flatIcons : PatchSet :=
  ⟨"A", "a", true, 7, 8, none, none, ⟨.unset, ∅⟩⟩

def flatCrosswalk : Crosswalk :=
  .ofPairs "A" 0 true [(7, 7)]

def flatEntries : CodepointMap AttributeEntry :=
  AttributeTable.entriesOf flatIcons.attributes flatCrosswalk.pairs

/-- A glyph that is listed twice makes its group monospace, and nothing comes of it. -/
theorem flatIcons_listed_twice :
    flatFont.SmallBoxes ∧ (ScaleGroup.list [7, 8]).SameSet (.list [8, 7, 7]) ∧
    ((ScaleGroup.list [7, 8]).measured? flatFont "A" flatCrosswalk).any (·.isMonospace) = false ∧
    ((ScaleGroup.list [8, 7, 7]).measured? flatFont "A" flatCrosswalk).any (·.isMonospace) = true ∧
    ∃ t t', (Scaling.apply flatFont (flatIcons.withGroups ⟨[.list [7, 8]], none⟩)
        flatCrosswalk).Ends (.start flatEntries) (.ok ()) t ∧
      (Scaling.apply flatFont (flatIcons.withGroups ⟨[.list [8, 7, 7]], none⟩)
        flatCrosswalk).Ends (.start flatEntries) (.ok ()) t' ∧
      flatEntries[7]? = some .unset ∧ AttributeEntry.unset.Ungrouped ∧
      Interchangeable flatEntries t t' := by
  have hsame : (ScaleGroup.list [7, 8]).SameSet (.list [8, 7, 7]) := by
    intro cp
    simp only [ScaleGroup.codepoints, List.mem_cons, List.not_mem_nil, or_false]
    tauto
  have h := ends_of_isOk (Scaling.apply flatFont (flatIcons.withGroups ⟨[.list [7, 8]], none⟩)
    flatCrosswalk) (.start flatEntries) (by decide +kernel)
  have h' := ends_of_isOk (Scaling.apply flatFont (flatIcons.withGroups ⟨[.list [8, 7, 7]], none⟩)
    flatCrosswalk) (.start flatEntries) (by decide +kernel)
  refine ⟨flatFont_small, hsame, by decide +kernel, by decide +kernel, _, _, h, h',
    by decide +kernel, ⟨rfl, rfl, rfl, rfl⟩, ?_⟩
  exact (apply_sameSet flatFont_small hsame flatIcons [] [] none flatEntries).2 _ _ h h'

end Runs

end Scaling

end IconConstraints
