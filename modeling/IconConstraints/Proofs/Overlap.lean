import IconConstraints.Proofs.Claims

/-!
# Overlaps are settled before patch sets are merged

A mapping is accepted only if every destination that two patch sets share has a
policy.  The owners that the attribute table knows are among the patch sets added
before, so the table meets no overlap that the mapping has not looked at, and
among the members of scale groups the earlier group always stays.
-/

namespace IconConstraints

/-- Whether the error is an overlap that no policy settles. -/
def Error.IsOverlap : Error → Prop
  | .overlap .. => True
  | _ => False

abbrev Error.NotOverlap (e : Error) : Prop :=
  ¬ e.IsOverlap

/-! ## Scale groups -/

namespace Scaling

variable (font : Font) (patchSet : String) (crosswalk : Crosswalk)

theorem applyGroup_failsOnly (group : ScaleGroup) (index : Nat) :
    (applyGroup font patchSet crosswalk group index).FailsOnly Error.NotOverlap := by
  intro s e he
  rcases applyGroup_ends font patchSet crosswalk group index s with
    ⟨-, hends⟩ | ⟨g, -, ⟨-, hends⟩ | ⟨-, hends⟩⟩
  · rw [hends.outcome] at he
    cases he
  · rw [hends.outcome] at he
    cases he
    exact id
  · rw [hends.outcome] at he
    cases he

theorem applyGroups_failsOnly (index : Nat) (groups : List ScaleGroup) :
    (applyGroups font patchSet crosswalk index groups).FailsOnly Error.NotOverlap := by
  induction groups generalizing index with
  | nil => exact Session.failsOnly_of_ok fun _ => ⟨(), rfl⟩
  | cons group rest ih =>
      unfold applyGroups
      exact (applyGroup_failsOnly font patchSet crosswalk group index).bind fun _ _ _ =>
        ih (index + 1)

/-- Members of several scale groups are no overlap without a policy. -/
theorem apply_failsOnly (p : PatchSet) :
    (Scaling.apply font p crosswalk).FailsOnly Error.NotOverlap := by
  unfold Scaling.apply
  cases p.scaleRules with
  | none => exact Session.failsOnly_of_ok fun _ => ⟨(), rfl⟩
  | some rules => exact applyGroups_failsOnly font p.name crosswalk 0 rules.groups

end Scaling

/-! ## Adding patch sets -/

namespace AttributeTable

/-- Every owned codepoint is reached by one of the given crosswalks. -/
def OwnedBy (t : AttributeTable) (earlier : List Crosswalk) : Prop :=
  ∀ cp, t.owner? cp ≠ none → ∃ c ∈ earlier, c.Reaches cp

theorem empty_ownedBy : empty.OwnedBy [] := by
  simp [OwnedBy, owner?, empty]

theorem collect_eq_error {t : AttributeTable} {p : PatchSet} {c : Crosswalk} {e : Error}
    (h : (t.collect p c).outcome = .error e) :
    overlapPolicy? p.name .patchSetMerge = none ∧
      ∃ cp, c.Reaches cp ∧ t.owner? cp ≠ none := by
  unfold collect at h
  dsimp only at h
  split at h
  case h_1 => cases h
  case h_2 => cases h
  case h_3 hpolicy =>
    split at h
    case h_1 => simp at h
    case h_2 cp owner rest hoverlaps =>
      refine ⟨hpolicy, cp, ?_⟩
      have hmem : (cp, owner) ∈ t.overlaps c.pairs := by simp [hoverlaps]
      obtain ⟨pair, hpair, howner⟩ := List.mem_filterMap.mp hmem
      obtain ⟨name, hname, heq⟩ := Option.map_eq_some_iff.mp howner
      cases heq
      exact ⟨⟨pair, hpair, rfl⟩, by simp [hname]⟩

theorem add_ownedBy {t t' : AttributeTable} {font : Font} {p : PatchSet} {c : Crosswalk}
    {earlier : List Crosswalk} (howned : t.OwnedBy earlier)
    (h : (t.add font p c).outcome = .ok t') : t'.OwnedBy (earlier ++ [c]) := by
  intro cp hcp
  by_cases hreaches : c.Reaches cp
  · exact ⟨c, by simp, hreaches⟩
  · have hkept : t'.claims[cp]? = t.claims[cp]? := by
      rw [add_eq_ok h, claimOf?_eq_none.mpr hreaches, ite_self, Option.none_or]
    have hearlier : t.owner? cp ≠ none := by
      rwa [ne_eq, owner?_eq_none, ← hkept, ← owner?_eq_none]
    obtain ⟨d, hd, hreaches⟩ := howned cp hearlier
    exact ⟨d, by simp [hd], hreaches⟩

theorem add_failsOnly {t : AttributeTable} {font : Font} {p : PatchSet} {c : Crosswalk}
    {earlier : List Crosswalk} (howned : t.OwnedBy earlier)
    (hsettled : ∀ d ∈ earlier, ∀ cp, c.Reaches cp → d.Reaches cp →
      (overlapPolicy? p.name .patchSetMerge).isSome = true) :
    (t.add font p c).FailsOnly Error.NotOverlap := by
  unfold add
  refine (Report.failsOnly_of_ok rfl).bind fun _ _ => ?_
  refine Report.FailsOnly.bind ?_ fun collected _ => ?_
  · intro e he
    obtain ⟨hpolicy, cp, hcp, howner⟩ := collect_eq_error he
    obtain ⟨d, hd, hreaches⟩ := howned cp howner
    have hsome := hsettled d hd cp hcp hreaches
    simp [hpolicy] at hsome
  · have hscaling : (Scaling.apply font p c (.start collected)).report.FailsOnly
        Error.NotOverlap := Scaling.apply_failsOnly font c p (.start collected)
    exact hscaling.bind fun _ _ => Report.failsOnly_of_ok rfl

theorem addAll_failsOnly {font : Font} {rest : List (PatchSet × Crosswalk)}
    {t : AttributeTable} {earlier : List Crosswalk} (howned : t.OwnedBy earlier)
    (hname : ∀ q ∈ rest, q.2.patchSet = q.1.name)
    (hsettled : (earlier ++ rest.map (·.2)).Pairwise fun c d =>
      ∀ cp, d.Reaches cp → c.Reaches cp →
        (overlapPolicy? d.patchSet .patchSetMerge).isSome = true) :
    (addAll font t rest).FailsOnly Error.NotOverlap := by
  induction rest generalizing t earlier with
  | nil => exact Report.failsOnly_of_ok rfl
  | cons q rest ih =>
      obtain ⟨p, c⟩ := q
      have hp : c.patchSet = p.name := hname (p, c) (by simp)
      unfold addAll
      refine Report.FailsOnly.bind (add_failsOnly howned ?_) fun t' ht' => ?_
      · intro d hd cp hc hdReaches
        rw [← hp]
        exact (List.pairwise_append.mp hsettled).2.2 d hd c (by simp) cp hc hdReaches
      · refine ih (add_ownedBy howned ht') (fun q hq => hname q (by simp [hq])) ?_
        simpa using hsettled

/-- Once a mapping is accepted, no overlap is left to the attribute table. -/
theorem addAll_accepted {σ : Type} {destination : Font} {origins : OriginFonts σ}
    {version : String} {patchSets : List PatchSet} {previous : Option Snapshot} {s : σ}
    {mapping : Mapping}
    (h : (Mapping.ofPatchSets destination origins version patchSets previous s).report.outcome =
      .ok mapping) :
    (addAll destination .empty (patchSets.zip mapping.crosswalks)).FailsOnly
      Error.NotOverlap := by
  obtain ⟨done, haccepted, hcrosswalks, -⟩ := Mapping.ofPatchSets_eq_ok h
  rw [hcrosswalks]
  refine addAll_failsOnly empty_ownedBy ?_ ?_
  · intro q hq
    obtain ⟨i, hi, hget⟩ := List.getElem_of_mem hq
    have hzip : (patchSets.zip done.crosswalks.reverse)[i]? = some q := by
      rw [List.getElem?_eq_getElem hi, hget]
    obtain ⟨hp, hc⟩ := List.getElem?_zip_eq_some.mp hzip
    exact (haccepted.supplied i q.2 q.1 hc hp).isFor.patchSet
  · have hlength : done.crosswalks.reverse.length ≤ patchSets.length := by
      simp [haccepted.length]
    rw [List.nil_append, List.map_snd_zip hlength]
    exact List.pairwise_reverse.mpr haccepted.settled

end AttributeTable

end IconConstraints
