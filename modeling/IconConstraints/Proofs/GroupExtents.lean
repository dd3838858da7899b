import IconConstraints.Proofs.FloatRounding
import IconConstraints.Proofs.Scaling

/-!
# Extents of scale groups

The box of a scale group contains the boxes of its members, and if it has an extent at all
then every share of it is a finite number, no matter how small it is.
-/

namespace IconConstraints

/-! ## Coordinates -/

/-- A number whose absolute value is at most 2 ^ 31. -/
def IsSmall (x : Float) : Prop :=
  -2147483648.0 ≤ x ∧ x ≤ 2147483648.0

section Coordinates

variable {x y : Float}

theorem IsSmall.isFinite (h : IsSmall x) : x.isFinite = true :=
  isFinite_of_between (by decide +kernel) (by decide +kernel) h.1 h.2

theorem IsSmall.units_bounds (h : IsSmall x) : -2 ^ 1105 ≤ units x ∧ units x ≤ 2 ^ 1105 := by
  have hleast : units (-2147483648.0) = -2 ^ 1105 := by decide +kernel
  have hgreatest : units 2147483648.0 = 2 ^ 1105 := by decide +kernel
  obtain ⟨hlower, hupper⟩ := h
  have hx : x.isFinite = true := IsSmall.isFinite ⟨hlower, hupper⟩
  rw [le_iff_units (by decide +kernel) hx, hleast] at hlower
  rw [le_iff_units hx (by decide +kernel), hgreatest] at hupper
  exact ⟨hlower, hupper⟩

theorem smaller_eq (hx : x.isFinite = true) (hy : y.isFinite = true) :
    smaller x y = if y < x then y else x := by
  unfold smaller
  rw [not_isNaN_of_isFinite hx, not_isNaN_of_isFinite hy]
  rfl

theorem larger_eq (hx : x.isFinite = true) (hy : y.isFinite = true) :
    larger x y = if x < y then y else x := by
  unfold larger
  rw [not_isNaN_of_isFinite hx, not_isNaN_of_isFinite hy]
  rfl

theorem IsSmall.smaller (hx : IsSmall x) (hy : IsSmall y) :
    IsSmall (smaller x y) ∧ units (smaller x y) = min (units x) (units y) := by
  rw [smaller_eq hx.isFinite hy.isFinite]
  split
  case isTrue hlt =>
    rw [lt_iff_units hy.isFinite hx.isFinite] at hlt
    exact ⟨hy, by omega⟩
  case isFalse hle =>
    rw [lt_iff_units hy.isFinite hx.isFinite] at hle
    exact ⟨hx, by omega⟩

theorem IsSmall.larger (hx : IsSmall x) (hy : IsSmall y) :
    IsSmall (larger x y) ∧ units (larger x y) = max (units x) (units y) := by
  rw [larger_eq hx.isFinite hy.isFinite]
  split
  case isTrue hlt =>
    rw [lt_iff_units hx.isFinite hy.isFinite] at hlt
    exact ⟨hy, by omega⟩
  case isFalse hle =>
    rw [lt_iff_units hx.isFinite hy.isFinite] at hle
    exact ⟨hx, by omega⟩

theorem natAbs_log2_le {d : Int} {n : Nat} (h : d.natAbs ≤ 2 ^ n) : d.natAbs.log2 ≤ n :=
  (log2_le_log2 h).trans_eq Nat.log2_two_pow

theorem share_isFinite {least a b greatest : Float} (hleast : IsSmall least) (ha : IsSmall a)
    (hb : IsSmall b) (hgreatest : IsSmall greatest) (hlower : units least ≤ units a)
    (hordered : units a ≤ units b) (hupper : units b ≤ units greatest)
    (hextent : ¬ greatest - least ≤ 0.0) : ((b - a) / (greatest - least)).isFinite = true := by
  have hzero : units 0.0 = 0 := rfl
  have hleastBounds := hleast.units_bounds
  have hgreatestBounds := hgreatest.units_bounds
  have hspan : (units greatest - units least).natAbs ≤ 2 ^ 1106 := by
    rw [pow_succ] at *
    omega
  have hpart : (units b - units a).natAbs ≤ (units greatest - units least).natAbs := by omega
  have hsize := natAbs_log2_le hspan
  have hpartSize := log2_le_log2 hpart
  obtain ⟨hspanFinite, hspanLower, -⟩ :=
    sub_units hgreatest.isFinite hleast.isFinite (by omega)
  obtain ⟨hpartFinite, -, hpartUpper⟩ := sub_units hb.isFinite ha.isFinite (by omega)
  -- Rounding makes the part at most one bit longer and the span no shorter.
  refine div_isFinite hpartFinite hspanFinite (fun hempty => hextent ?_) (by omega)
  rw [le_iff_units hspanFinite rfl, hempty, hzero]

end Coordinates

/-! ## Boxes -/

namespace BoundingBox

/-- All coordinates are small. -/
structure Small (b : BoundingBox) : Prop where
  xMin : IsSmall b.xMin
  yMin : IsSmall b.yMin
  xMax : IsSmall b.xMax
  yMax : IsSmall b.yMax

/-- No side lies beyond the opposite one. -/
structure Ordered (b : BoundingBox) : Prop where
  horizontal : b.xMin ≤ b.xMax
  vertical : b.yMin ≤ b.yMax

/-- The second box does not reach out of the first. -/
structure Contains (a b : BoundingBox) : Prop where
  left : units a.xMin ≤ units b.xMin
  below : units a.yMin ≤ units b.yMin
  right : units b.xMax ≤ units a.xMax
  above : units b.yMax ≤ units a.yMax

variable {a b c : BoundingBox}

theorem Contains.refl (a : BoundingBox) : a.Contains a :=
  ⟨le_rfl, le_rfl, le_rfl, le_rfl⟩

theorem Contains.trans (hab : a.Contains b) (hbc : b.Contains c) : a.Contains c :=
  ⟨hab.left.trans hbc.left, hab.below.trans hbc.below, hbc.right.trans hab.right,
    hbc.above.trans hab.above⟩

theorem union_contains (ha : a.Small) (hb : b.Small) :
    (a.union b).Small ∧ (a.union b).Contains a ∧ (a.union b).Contains b := by
  obtain ⟨hxMin, hleft⟩ := ha.xMin.smaller hb.xMin
  obtain ⟨hyMin, hbelow⟩ := ha.yMin.smaller hb.yMin
  obtain ⟨hxMax, hright⟩ := ha.xMax.larger hb.xMax
  obtain ⟨hyMax, habove⟩ := ha.yMax.larger hb.yMax
  refine ⟨⟨hxMin, hyMin, hxMax, hyMax⟩, ?_, ?_⟩
  · exact ⟨hleft.trans_le (min_le_left ..), hbelow.trans_le (min_le_left ..),
      (le_max_left ..).trans_eq hright.symm, (le_max_left ..).trans_eq habove.symm⟩
  · exact ⟨hleft.trans_le (min_le_right ..), hbelow.trans_le (min_le_right ..),
      (le_max_right ..).trans_eq hright.symm, (le_max_right ..).trans_eq habove.symm⟩

theorem unionVertical_contains (ha : a.Small) (hb : b.Small) :
    (a.unionVertical b).Small ∧ (a.unionVertical b).Contains a := by
  obtain ⟨hyMin, hbelow⟩ := ha.yMin.smaller hb.yMin
  obtain ⟨hyMax, habove⟩ := ha.yMax.larger hb.yMax
  exact ⟨⟨ha.xMin, hyMin, ha.xMax, hyMax⟩, le_rfl, hbelow.trans_le (min_le_left ..), le_rfl,
    (le_max_left ..).trans_eq habove.symm⟩

theorem foldl_union_contains {boxes : List BoundingBox} (ha : a.Small)
    (hboxes : ∀ b ∈ boxes, b.Small) : (boxes.foldl union a).Small ∧
      (boxes.foldl union a).Contains a ∧ ∀ b ∈ boxes, (boxes.foldl union a).Contains b := by
  induction boxes generalizing a with
  | nil => exact ⟨ha, .refl a, List.forall_mem_nil _⟩
  | cons b rest ih =>
      obtain ⟨hb, hrest⟩ := List.forall_mem_cons.mp hboxes
      obtain ⟨hunion, hleft, hright⟩ := union_contains ha hb
      obtain ⟨hsmall, hunionInside, hinside⟩ := ih hunion hrest
      exact ⟨hsmall, hunionInside.trans hleft,
        List.forall_mem_cons.mpr ⟨hunionInside.trans hright, hinside⟩⟩

end BoundingBox

/-! ## Measured groups -/

/-- A font whose boxes have small coordinates and proper sides. -/
def Font.Small (font : Font) : Prop :=
  ∀ glyph b, font.bounds? glyph = some b → b.Small ∧ b.Ordered

namespace ScaleGroup

variable {font : Font} {patchSet : String} {crosswalk : Crosswalk}

theorem outline?_small (hfont : font.Small) {cp : Codepoint} {outline : Font.Outline}
    (h : font.outline? cp = some outline) : outline.bounds.Small ∧ outline.bounds.Ordered := by
  unfold Font.outline? at h
  obtain ⟨glyph, -, h⟩ := Option.bind_eq_some_iff.mp h
  obtain ⟨b, hb, h⟩ := Option.bind_eq_some_iff.mp h
  cases h
  exact hfont glyph b hb

theorem membership_small (hfont : font.Small) (origin : Codepoint) :
    (∀ member, (membership font patchSet crosswalk origin).member? = some member →
      member.2.bounds.Small ∧ member.2.bounds.Ordered) ∧
    ∀ extent, (membership font patchSet crosswalk origin).standInExtent? = some extent →
      extent.Small := by
  unfold membership
  split
  · split
    case h_1 houtline =>
      refine ⟨fun member h => ?_, fun _ h => (nomatch h)⟩
      cases h
      exact outline?_small hfont houtline
    case h_2 => exact ⟨fun _ h => (nomatch h), fun _ h => (nomatch h)⟩
  · split
    case h_1 houtline =>
      refine ⟨fun _ h => (nomatch h), fun extent h => ?_⟩
      cases h
      obtain ⟨standIn, -, houtline⟩ := Option.bind_eq_some_iff.mp houtline
      exact (outline?_small hfont houtline).1
    case h_2 => exact ⟨fun _ h => (nomatch h), fun _ h => (nomatch h)⟩

theorem unionAll_contains {boxes : List BoundingBox} {g : BoundingBox}
    (hboxes : ∀ b ∈ boxes, b.Small) (h : unionAll boxes = some g) :
    g.Small ∧ ∀ b ∈ boxes, g.Contains b := by
  cases boxes with
  | nil => cases h
  | cons b rest =>
      cases h
      obtain ⟨hb, hrest⟩ := List.forall_mem_cons.mp hboxes
      obtain ⟨hsmall, hfirst, hinside⟩ := BoundingBox.foldl_union_contains hb hrest
      exact ⟨hsmall, List.forall_mem_cons.mpr ⟨hfirst, hinside⟩⟩

theorem extended_contains {bounds : BoundingBox} {extents : List BoundingBox}
    (hbounds : bounds.Small) (hextents : ∀ b ∈ extents, b.Small) :
    (match unionAll extents with
      | none => bounds
      | some extent => bounds.unionVertical extent).Small ∧
    (match unionAll extents with
      | none => bounds
      | some extent => bounds.unionVertical extent).Contains bounds := by
  cases hunion : unionAll extents with
  | none => exact ⟨hbounds, .refl bounds⟩
  | some extent =>
      exact BoundingBox.unionVertical_contains hbounds (unionAll_contains hextents hunion).1

/-- The box of a group is small and contains the boxes of its members. -/
structure Geometry.Encloses (g : Geometry) : Prop where
  small : g.bounds.Small
  members : ∀ member ∈ g.members,
    member.2.Small ∧ member.2.Ordered ∧ g.bounds.Contains member.2

theorem measured?_encloses {group : ScaleGroup} {g : Geometry} (hfont : font.Small)
    (h : group.measured? font patchSet crosswalk = some g) : g.Encloses := by
  have hmeasure := group.measure_eq_ok font patchSet crosswalk
  rw [h] at hmeasure
  unfold measure at hmeasure
  obtain ⟨-, -, hmeasure⟩ := Report.bind_eq_ok.mp hmeasure
  set memberships := group.codepoints.map (membership font patchSet crosswalk)
  have hmembers : ∀ member ∈ memberships.filterMap (·.member?),
      member.2.bounds.Small ∧ member.2.bounds.Ordered := by
    intro member hmember
    obtain ⟨m, hm, hmember⟩ := List.mem_filterMap.mp hmember
    obtain ⟨origin, -, rfl⟩ := List.mem_map.mp hm
    exact (membership_small hfont origin).1 member hmember
  have hextents : ∀ extent ∈ memberships.filterMap (·.standInExtent?), extent.Small := by
    intro extent hextent
    obtain ⟨m, hm, hextent⟩ := List.mem_filterMap.mp hextent
    obtain ⟨origin, -, rfl⟩ := List.mem_map.mp hm
    exact (membership_small hfont origin).2 extent hextent
  cases hbounds : unionAll ((memberships.filterMap (·.member?)).map (·.2.bounds)) with
  | none =>
      simp only [hbounds] at hmeasure
      cases hmeasure
  | some bounds =>
      simp only [hbounds] at hmeasure
      obtain ⟨hsmall, hinside⟩ := unionAll_contains
        (List.forall_mem_map.mpr fun member hmember => (hmembers member hmember).1) hbounds
      -- Stand-ins are no members; they only move the box away from those that it contains.
      obtain ⟨hextended, houter⟩ := extended_contains hsmall hextents
      cases hmeasure
      refine ⟨hextended, List.forall_mem_map.mpr fun member hmember => ?_⟩
      exact ⟨(hmembers member hmember).1, (hmembers member hmember).2,
        houter.trans (hinside _ (List.mem_map_of_mem hmember))⟩

end ScaleGroup

/-! ## Relative geometry -/

/-- The relative geometry of an entry consists of finite numbers. -/
structure AttributeEntry.RelativeFinite (entry : AttributeEntry) : Prop where
  x : entry.relativeX.toFloat.isFinite = true
  y : entry.relativeY.toFloat.isFinite = true
  width : entry.relativeWidth.toFloat.isFinite = true
  height : entry.relativeHeight.toFloat.isFinite = true

namespace Scaling

variable {font : Font} {patchSet : String} {crosswalk : Crosswalk}

theorem relative_forall {g box : BoundingBox} {entry : AttributeEntry} (P : Float → Prop)
    (monospace : Bool) (hx : P ((box.xMin - g.xMin) / g.width))
    (hy : P ((box.yMin - g.yMin) / g.height)) (hwidth : P (box.width / g.width))
    (hheight : P (box.height / g.height)) (hentryX : P entry.relativeX.toFloat)
    (hentryWidth : P entry.relativeWidth.toFloat) :
    (P (relative g box monospace entry).relativeX.toFloat ∧
      P (relative g box monospace entry).relativeY.toFloat) ∧
    P (relative g box monospace entry).relativeWidth.toFloat ∧
      P (relative g box monospace entry).relativeHeight.toFloat := by
  cases monospace with
  | false => exact ⟨⟨hentryX, by simpa [relative]⟩, hentryWidth, by simpa [relative]⟩
  | true => exact ⟨⟨by simpa [relative], by simpa [relative]⟩, by simpa [relative], by simpa [relative]⟩

theorem relative_finite {g box : BoundingBox} (hg : g.Small) (hextent : isDegenerate g = false)
    (hbox : box.Small) (hordered : box.Ordered) (hinside : g.Contains box) (monospace : Bool)
    {entry : AttributeEntry} (hentry : entry.RelativeFinite) :
    (relative g box monospace entry).RelativeFinite := by
  obtain ⟨hheight, hwidth⟩ : ¬ g.height ≤ 0.0 ∧ ¬ g.width ≤ 0.0 := by
    simpa [isDegenerate] using hextent
  have hhorizontal :=
    (le_iff_units hbox.xMin.isFinite hbox.xMax.isFinite).mp hordered.horizontal
  have hvertical := (le_iff_units hbox.yMin.isFinite hbox.yMax.isFinite).mp hordered.vertical
  have hrelativeHeight : (box.height / g.height).isFinite = true :=
    share_isFinite hg.yMin hbox.yMin hbox.yMax hg.yMax hinside.below hvertical hinside.above hheight
  have hrelativeY : ((box.yMin - g.yMin) / g.height).isFinite = true :=
    share_isFinite hg.yMin hg.yMin hbox.yMin hg.yMax le_rfl hinside.below
      (hvertical.trans hinside.above) hheight
  have hrelativeWidth : (box.width / g.width).isFinite = true :=
    share_isFinite hg.xMin hbox.xMin hbox.xMax hg.xMax hinside.left hhorizontal hinside.right hwidth
  have hrelativeX : ((box.xMin - g.xMin) / g.width).isFinite = true :=
    share_isFinite hg.xMin hg.xMin hbox.xMin hg.xMax le_rfl hinside.left
      (hhorizontal.trans hinside.right) hwidth
  obtain ⟨⟨hx, hy⟩, hw, hh⟩ := relative_forall (·.isFinite = true) monospace hrelativeX hrelativeY
    hrelativeWidth hrelativeHeight hentry.x hentry.width
  exact ⟨hx, hy, hw, hh⟩

theorem applyGroups_extent {groups : List ScaleGroup} {index : Nat} {s t : Scaling}
    (h : (applyGroups font patchSet crosswalk index groups).Ends s (.ok ()) t) :
    ∀ group ∈ groups, ∀ g, group.measured? font patchSet crosswalk = some g →
      isDegenerate g.bounds = false := by
  induction groups generalizing index s with
  | nil => exact List.forall_mem_nil _
  | cons group rest ih =>
      obtain ⟨_, u, hgroup, hrest⟩ := h.exists_of_bind
      refine List.forall_mem_cons.mpr ⟨fun g hg => ?_, ih hrest⟩
      rcases applyGroup_ends font patchSet crosswalk group index s with
        ⟨hnone, -⟩ | ⟨g', hg', ⟨-, hends⟩ | ⟨hextent, -⟩⟩
      · rw [hnone] at hg
        cases hg
      · have hcontra := hgroup.outcome.symm.trans hends.outcome
        cases hcontra
      · rw [hg'] at hg
        cases hg
        exact hextent

theorem placement?_eq_some {cp : Codepoint} {groups : List ScaleGroup}
    {placement : ScaleGroup.Placement}
    (h : ScaleGroup.placement? font patchSet crosswalk cp groups = some placement) :
    ∃ group ∈ groups, group.measured? font patchSet crosswalk = some placement.1 ∧
      ∃ member ∈ placement.1.members, member.2 = placement.2 := by
  obtain ⟨group, hgroup, h⟩ := List.exists_of_findSome?_eq_some h
  obtain ⟨g, hg, h⟩ := Option.bind_eq_some_iff.mp h
  obtain ⟨member, hmember, rfl⟩ := Option.map_eq_some_iff.mp h
  exact ⟨group, hgroup, hg, member, List.mem_of_find?_eq_some hmember, rfl⟩

theorem scaledBy_finite {p : PatchSet} {s t : Scaling} (hfont : font.Small)
    (happlied : (Scaling.apply font p crosswalk).Ends s (.ok ()) t) (cp : Codepoint)
    {entry : AttributeEntry} (hentry : entry.RelativeFinite) :
    (scaledBy (p.placement? font crosswalk cp) entry).RelativeFinite := by
  unfold Scaling.apply at happlied
  unfold PatchSet.placement?
  cases hrules : p.scaleRules with
  | none => exact hentry
  | some rules =>
      rw [hrules] at happlied
      rw [Option.bind_some]
      cases hplacement : ScaleGroup.placement? font p.name crosswalk cp rules.groups with
      | none => exact hentry
      | some placement =>
          obtain ⟨group, hgroup, hmeasured, member, hmember, hbox⟩ :=
            placement?_eq_some hplacement
          have hencloses := ScaleGroup.measured?_encloses hfont hmeasured
          obtain ⟨hsmall, hordered, hinside⟩ := hencloses.members member hmember
          rw [hbox] at hsmall hordered hinside
          exact relative_finite hencloses.small
            (applyGroups_extent happlied group hgroup _ hmeasured) hsmall hordered hinside _ hentry

end Scaling

end IconConstraints
