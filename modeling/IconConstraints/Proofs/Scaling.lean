import IconConstraints.Proofs.Session
import IconConstraints.ScaleGroup.Scaling

/-!
# Scale groups seen from one codepoint

What scale groups do to the entry of a codepoint depends on that entry alone and on
the first group that has measured the codepoint as a member.  No entry is added and
none is taken away, and what fails is a group without extent.
-/

namespace IconConstraints

variable {font : Font} {patchSet : String} {crosswalk : Crosswalk}

/-! ## Measured members -/

namespace ScaleGroup

def measured? (g : ScaleGroup) (font : Font) (patchSet : String) (crosswalk : Crosswalk) :
    Option Geometry :=
  (g.measure font patchSet crosswalk).outcome.toOption.join

theorem measure_eq_ok (g : ScaleGroup) (font : Font) (patchSet : String)
    (crosswalk : Crosswalk) :
    (g.measure font patchSet crosswalk).outcome = .ok (g.measured? font patchSet crosswalk) := by
  have hok : ∃ geometry, (g.measure font patchSet crosswalk).outcome = .ok geometry := by
    unfold measure
    simp only [Report.bind_eq_ok]
    split
    · exact ⟨none, (), rfl, rfl⟩
    · exact ⟨_, (), rfl, rfl⟩
  obtain ⟨geometry, h⟩ := hok
  rw [measured?, h]
  cases geometry <;> rfl

/-- Where a group has a codepoint: the geometry of the group and the extent of the member. -/
abbrev Placement := Geometry × BoundingBox

def Geometry.placement? (g : Geometry) (members : List (Codepoint × BoundingBox))
    (cp : Codepoint) : Option Placement :=
  (members.find? (·.1 == cp)).map fun member => (g, member.2)

/-- The first of the groups that has measured the codepoint. -/
def placement? (font : Font) (patchSet : String) (crosswalk : Crosswalk) (cp : Codepoint)
    (groups : List ScaleGroup) : Option Placement :=
  groups.findSome? fun group =>
    (group.measured? font patchSet crosswalk).bind fun g => g.placement? g.members cp

end ScaleGroup

/-- The first scale group of a patch set that has measured the destination codepoint. -/
def PatchSet.placement? (font : Font) (p : PatchSet) (crosswalk : Crosswalk) (cp : Codepoint) :
    Option ScaleGroup.Placement :=
  p.scaleRules.bind fun rules => ScaleGroup.placement? font p.name crosswalk cp rules.groups

namespace Scaling

open ScaleGroup (Placement)

/-! ## One codepoint -/

/-- An entry with the geometry of its group, if it has one. -/
def scaledBy : Option Placement → AttributeEntry → AttributeEntry
  | none, entry => entry
  | some (g, box), entry => relative g.bounds box g.isMonospace entry

/-- The entry of a codepoint, with the mark whether it has found its group. -/
def slot? (s : Scaling) (cp : Codepoint) : Option (AttributeEntry × Bool) :=
  s.entries[cp]?.map fun entry => (entry, s.grouped.contains cp)

/-- An entry that has found its group stays as it is. -/
def place : Option Placement → AttributeEntry × Bool → AttributeEntry × Bool
  | _, (entry, true) => (entry, true)
  | none, (entry, false) => (entry, false)
  | some placement, (entry, false) => (scaledBy (some placement) entry, true)

@[simp] theorem place_none : place none = id := by
  funext x
  obtain ⟨entry, _ | _⟩ := x <;> rfl

@[simp] theorem place_grouped (a : Option Placement) (entry : AttributeEntry) :
    place a (entry, true) = (entry, true) := by
  cases a <;> rfl

theorem place_comp (a b : Option Placement) : place b ∘ place a = place (a.or b) := by
  funext x
  obtain ⟨entry, _ | _⟩ := x
  · cases a with
    | none => simp
    | some placement => simp [place]
  · simp

theorem place_start (a : Option Placement) (entry : AttributeEntry) :
    (place a (entry, false)).1 = scaledBy a entry := by
  cases a <;> rfl

/-! ## Members and groups -/

theorem slot?_assign_self {s : Scaling} {g : ScaleGroup.Geometry} {cp : Codepoint}
    {box : BoundingBox} {entry : AttributeEntry} :
    (s.assign g cp box entry).slot? cp = some (scaledBy (some (g, box)) entry, true) := by
  simp [slot?, assign, scaledBy]

theorem slot?_assign_of_ne {s : Scaling} {g : ScaleGroup.Geometry} {destination cp : Codepoint}
    {box : BoundingBox} {entry : AttributeEntry} (hne : destination ≠ cp) :
    (s.assign g destination box entry).slot? cp = s.slot? cp := by
  have hcompare : (compare destination cp == .eq) = false := by simpa using hne
  simp [slot?, assign, Std.ExtTreeMap.getElem?_insert, Std.ExtTreeMap.contains_insert, hne,
    hcompare]

def assignMember (g : ScaleGroup.Geometry) (s : Scaling) (member : Codepoint × BoundingBox) :
    Scaling :=
  match s.entries[member.1]? with
  | none => s
  | some entry => if s.grouped.contains member.1 then s else s.assign g member.1 member.2 entry

/-- The policy for members of several groups leaves no error to them. -/
theorem assignMembers_eq (patchSet : String) (g : ScaleGroup.Geometry) (s : Scaling)
    (members : List (Codepoint × BoundingBox)) :
    assignMembers patchSet g s members = (members.foldl (assignMember g) s, none) := by
  induction members generalizing s with
  | nil => rfl
  | cons member rest ih =>
      obtain ⟨destination, box⟩ := member
      have hpolicy : overlapPolicy? patchSet .scaleGroupMembership = some .keepEarlier := rfl
      rw [List.foldl_cons, ← ih, assignMembers, assignMember]
      cases s.entries[destination]? with
      | none => rfl
      | some entry =>
          dsimp only
          rw [hpolicy]
          split <;> rfl

theorem slot?_assignMember (g : ScaleGroup.Geometry) (s : Scaling) (destination cp : Codepoint)
    (box : BoundingBox) :
    (s.assignMember g (destination, box)).slot? cp =
      (s.slot? cp).map (place (if destination = cp then some (g, box) else none)) := by
  -- Only at the member's own codepoint does the mark matter.
  by_cases heq : destination = cp
  · subst heq
    rw [if_pos rfl, assignMember]
    cases hentry : s.entries[destination]? with
    | none => simp [slot?, hentry]
    | some entry =>
        cases hgrouped : s.grouped.contains destination with
        | true => simp [slot?, hentry, hgrouped]
        | false =>
            have hslot : s.slot? destination = some (entry, false) := by
              simp [slot?, hentry, hgrouped]
            rw [hslot]
            exact slot?_assign_self
  · rw [if_neg heq, place_none, Option.map_id, id, assignMember]
    cases s.entries[destination]? with
    | none => rfl
    | some entry =>
        dsimp only
        split
        case isTrue => rfl
        case isFalse => exact slot?_assign_of_ne heq

theorem placement?_cons (g : ScaleGroup.Geometry) (destination cp : Codepoint)
    (box : BoundingBox) (rest : List (Codepoint × BoundingBox)) :
    g.placement? ((destination, box) :: rest) cp =
      (if destination = cp then some (g, box) else none).or (g.placement? rest cp) := by
  by_cases heq : destination = cp <;> simp [ScaleGroup.Geometry.placement?, heq]

theorem slot?_foldl_assignMember (g : ScaleGroup.Geometry) (s : Scaling)
    (members : List (Codepoint × BoundingBox)) (cp : Codepoint) :
    (members.foldl (assignMember g) s).slot? cp =
      (s.slot? cp).map (place (g.placement? members cp)) := by
  induction members generalizing s with
  | nil => simp [ScaleGroup.Geometry.placement?]
  | cons member rest ih =>
      rw [List.foldl_cons, ih, slot?_assignMember, Option.map_map, place_comp, placement?_cons]

theorem applyGroup_ends (font : Font) (patchSet : String) (crosswalk : Crosswalk)
    (group : ScaleGroup) (index : Nat) (s : Scaling) :
    (group.measured? font patchSet crosswalk = none ∧
      (applyGroup font patchSet crosswalk group index).Ends s (.ok ()) s) ∨
    ∃ g, group.measured? font patchSet crosswalk = some g ∧
      ((isDegenerate g.bounds = true ∧ (applyGroup font patchSet crosswalk group index).Ends s
          (.error (.geometry patchSet index g.bounds.width g.bounds.height)) s) ∨
        (isDegenerate g.bounds = false ∧ (applyGroup font patchSet crosswalk group index).Ends s
          (.ok ()) (g.members.foldl (assignMember g)
            { s with counts := { s.counts with groups := s.counts.groups + 1 } }))) := by
  have hmeasure : (Session.ofReport (group.measure font patchSet crosswalk)).Ends s
      (.ok (group.measured? font patchSet crosswalk)) s :=
    ⟨group.measure_eq_ok font patchSet crosswalk, rfl⟩
  unfold applyGroup
  cases hgeometry : group.measured? font patchSet crosswalk with
  | none =>
      rw [hgeometry] at hmeasure
      exact .inl ⟨rfl, hmeasure.bind (Session.ends_ofReport _ s)⟩
  | some g =>
      rw [hgeometry] at hmeasure
      refine .inr ⟨g, rfl, ?_⟩
      simp only [assignMembers_eq]
      cases hdegenerate : isDegenerate g.bounds with
      | true =>
          refine .inl ⟨rfl, hmeasure.bind ?_⟩
          simp only [hdegenerate, if_true]
          exact Session.ends_ofReport _ s
      | false =>
          refine .inr ⟨rfl, hmeasure.bind ?_⟩
          simp only [hdegenerate]
          exact (Session.ends_modify _ s).bind ((Session.ends_get _).bind
            ((Session.ends_modify _ _).bind (Session.ends_pure () _)))

theorem applyGroup_slot? {group : ScaleGroup} {index : Nat} {s t : Scaling}
    (h : (applyGroup font patchSet crosswalk group index).Ends s (.ok ()) t) (cp : Codepoint) :
    t.slot? cp = (s.slot? cp).map (place
      ((group.measured? font patchSet crosswalk).bind fun g => g.placement? g.members cp)) := by
  obtain rfl := h.state
  rcases applyGroup_ends font patchSet crosswalk group index s with
    ⟨hgeometry, hends⟩ | ⟨g, hgeometry, ⟨-, hends⟩ | ⟨-, hends⟩⟩
  · rw [hends.state, hgeometry]
    simp
  · have hcontra := h.outcome.symm.trans hends.outcome
    cases hcontra
  · rw [hends.state, hgeometry, slot?_foldl_assignMember]
    rfl

theorem applyGroups_slot? {index : Nat} {groups : List ScaleGroup} {s t : Scaling}
    (h : (applyGroups font patchSet crosswalk index groups).Ends s (.ok ()) t) (cp : Codepoint) :
    t.slot? cp =
      (s.slot? cp).map (place (ScaleGroup.placement? font patchSet crosswalk cp groups)) := by
  induction groups generalizing index s with
  | nil =>
      obtain rfl : s = t := h.state
      simp [ScaleGroup.placement?]
  | cons group rest ih =>
      obtain ⟨_, u, hgroup, hrest⟩ := h.exists_of_bind
      have hfirst : ScaleGroup.placement? font patchSet crosswalk cp (group :: rest) =
          ((group.measured? font patchSet crosswalk).bind fun g =>
            g.placement? g.members cp).or
          (ScaleGroup.placement? font patchSet crosswalk cp rest) := by
        rw [ScaleGroup.placement?, List.findSome?_cons]
        split
        case h_1 h => rw [h, Option.some_or]
        case h_2 h => rw [h, Option.none_or, ScaleGroup.placement?]
      rw [ih hrest, applyGroup_slot? hgroup, Option.map_map, place_comp, hfirst]

theorem applyGroups_entries {index : Nat} {groups : List ScaleGroup}
    {entries : CodepointMap AttributeEntry} {t : Scaling}
    (h : (applyGroups font patchSet crosswalk index groups).Ends (.start entries) (.ok ()) t)
    (cp : Codepoint) : t.entries[cp]? = entries[cp]?.map
      (scaledBy (ScaleGroup.placement? font patchSet crosswalk cp groups)) := by
  have hentries : ∀ s : Scaling, s.entries[cp]? = (s.slot? cp).map (·.1) := by
    intro s
    simp [slot?, Function.comp_def]
  rw [hentries, applyGroups_slot? h, slot?]
  simp [start, place_start, Function.comp_def]

/-- A patch set's own scale groups alone decide what becomes of its entries. -/
theorem apply_entries {p : PatchSet} {entries : CodepointMap AttributeEntry} {t : Scaling}
    (h : (Scaling.apply font p crosswalk).Ends (.start entries) (.ok ()) t) (cp : Codepoint) :
    t.entries[cp]? = entries[cp]?.map (scaledBy (p.placement? font crosswalk cp)) := by
  unfold Scaling.apply at h
  unfold PatchSet.placement?
  cases hrules : p.scaleRules with
  | none =>
      rw [hrules] at h
      obtain rfl : start entries = t := h.state
      cases hentry : entries[cp]? <;> simp [start, hentry, scaledBy]
  | some rules =>
      rw [hrules] at h
      exact applyGroups_entries h cp

end Scaling

end IconConstraints
