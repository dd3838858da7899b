import IconConstraints.Proofs.GroupOrder
import IconConstraints.Proofs.Ownership

/-!
# Patch sets that land apart

What comes of adding a patch set depends only on the claims at its own destinations, and
no other claim is changed by it.  So patch sets without a common destination can be added
in any order, whatever the table holds before: the table comes out the same, with its
owners and its counts.
-/

namespace IconConstraints

namespace Crosswalk

/-- No codepoint is a destination of both crosswalks. -/
def Apart (c d : Crosswalk) : Prop :=
  ∀ cp, ¬ (c.Reaches cp ∧ d.Reaches cp)

theorem Apart.symm {c d : Crosswalk} (h : c.Apart d) : d.Apart c :=
  fun cp hcp => h cp hcp.symm

theorem apart_iff {c d : Crosswalk} :
    c.Apart d ↔ ∀ pair ∈ c.pairs, ∀ other ∈ d.pairs, pair.2 ≠ other.2 := by
  constructor
  · intro h pair hpair other hother heq
    exact h pair.2 ⟨⟨pair, hpair, rfl⟩, other, hother, heq.symm⟩
  · rintro h cp ⟨⟨pair, hpair, rfl⟩, other, hother, heq⟩
    exact h pair hpair other hother heq.symm

instance (c d : Crosswalk) : Decidable (c.Apart d) :=
  decidable_of_iff _ apart_iff.symm

end Crosswalk

theorem ScaleCounts.add_right_comm (a b c : ScaleCounts) :
    (a.add b).add c = (a.add c).add b := by
  simp only [ScaleCounts.add, ScaleCounts.mk.injEq]
  omega

namespace AttributeTable

variable {font : Font} {t u v t' : AttributeTable} {p : PatchSet} {c : Crosswalk}
  {cp : Codepoint} {q r : PatchSet × Crosswalk} {added added' : List (PatchSet × Crosswalk)}

/-! ## What is read and what is written -/

/-- Only the owners at its own destinations matter to what a patch set collects. -/
theorem collect_congr (h : ∀ cp, c.Reaches cp → t.claims[cp]? = u.claims[cp]?) :
    t.collect p c = u.collect p c := by
  have howner : ∀ pair ∈ c.pairs, t.owner? pair.2 = u.owner? pair.2 := by
    intro pair hpair
    rw [owner?, owner?, h pair.2 ⟨pair, hpair, rfl⟩]
  have hoverlaps : t.overlaps c.pairs = u.overlaps c.pairs := by
    refine List.filterMap_congr fun pair hpair => ?_
    simp only [howner pair hpair]
  have hfree : (c.pairs.filter fun pair => (t.owner? pair.2).isNone) =
      c.pairs.filter fun pair => (u.owner? pair.2).isNone := by
    refine List.filter_congr fun pair hpair => ?_
    rw [howner pair hpair]
  simp only [collect, hoverlaps, hfree]

theorem reaches_of_scaled {collected : CodepointMap AttributeEntry} {s : Scaling}
    (hcollected : (t.collect p c).outcome = .ok collected)
    (happlied : (Scaling.apply font p c).Ends (.start collected) (.ok ()) s)
    (hentry : s.entries[cp]? ≠ none) : c.Reaches cp := by
  by_contra hnot
  apply hentry
  rw [Scaling.apply_entries happlied, collect_eq_ok hcollected,
    Crosswalk.greatestOrigin?_eq_none.mpr hnot, Option.map_none, ite_self, Option.map_none]

theorem add_keeps (h : (t.add font p c).outcome = .ok t') (hnot : ¬ c.Reaches cp) :
    t'.claims[cp]? = t.claims[cp]? := by
  rw [add_eq_ok h, claimOf?_eq_none.mpr hnot, ite_self, Option.none_or]

/-! ## Two patch sets -/

theorem take_right_comm {a b : String} {x y : Scaling}
    (hapart : ∀ cp : Codepoint, x.entries[cp]? = none ∨ y.entries[cp]? = none) :
    (t.take a x).take b y = (t.take b y).take a x := by
  have hclaims : ((t.take a x).take b y).claims = ((t.take b y).take a x).claims := by
    refine Std.ExtTreeMap.ext_getElem? fun cp => ?_
    simp only [getElem?_take]
    rcases hapart cp with hx | hy
    · rw [hx, Option.map_none, Option.none_or, Option.none_or]
    · rw [hy, Option.map_none, Option.none_or, Option.none_or]
  have hcounts : ((t.take a x).take b y).counts = ((t.take b y).take a x).counts :=
    t.counts.add_right_comm x.counts y.counts
  calc
    (t.take a x).take b y = ⟨((t.take a x).take b y).claims, ((t.take a x).take b y).counts⟩ := rfl
    _ = (t.take b y).take a x := by rw [hclaims, hcounts]

/-- Two patch sets that land apart find the same claims in either order. -/
theorem add_comm_of_apart (hapart : q.2.Apart r.2)
    (hq : (t.add font q.1 q.2).outcome = .ok u) (hr : (u.add font r.1 r.2).outcome = .ok v) :
    ∃ w, (t.add font r.1 r.2).outcome = .ok w ∧ (w.add font q.1 q.2).outcome = .ok v := by
  obtain ⟨collected, x, hcollected, hx, hu⟩ := add_eq_ok_iff.mp hq
  obtain ⟨collected', y, hcollected', hy, hv⟩ := add_eq_ok_iff.mp hr
  have hlater : u.collect r.1 r.2 = t.collect r.1 r.2 :=
    collect_congr fun cp hcp => add_keeps hq fun hreached => hapart cp ⟨hreached, hcp⟩
  rw [hlater] at hcollected'
  have hfirst : (t.add font r.1 r.2).outcome = .ok (t.take r.1.name y) :=
    add_eq_ok_iff.mpr ⟨collected', y, hcollected', hy, rfl⟩
  have hearlier : (t.take r.1.name y).collect q.1 q.2 = t.collect q.1 q.2 :=
    collect_congr fun cp hcp => add_keeps hfirst fun hreached => hapart cp ⟨hcp, hreached⟩
  refine ⟨t.take r.1.name y, hfirst, add_eq_ok_iff.mpr ⟨collected, x, ?_, hx, ?_⟩⟩
  · rw [hearlier, hcollected]
  · rw [hv, hu]
    refine take_right_comm fun cp => ?_
    by_contra hboth
    obtain ⟨hxs, hys⟩ := not_or.mp hboth
    exact hapart cp ⟨reaches_of_scaled hcollected hx hxs, reaches_of_scaled hcollected' hy hys⟩

/-! ## Many patch sets -/

theorem addAll_cons_eq_ok : (addAll font t (q :: added)).outcome = .ok t' ↔
    ∃ u, (t.add font q.1 q.2).outcome = .ok u ∧ (addAll font u added).outcome = .ok t' :=
  Report.bind_eq_ok

theorem outcome_addAll_append (font : Font) (t : AttributeTable)
    (added later : List (PatchSet × Crosswalk)) :
    (addAll font t (added ++ later)).outcome =
      (addAll font t added).outcome >>= fun u => (addAll font u later).outcome := by
  induction added generalizing t with
  | nil => rfl
  | cons q added ih =>
      simp only [List.cons_append, addAll, Report.outcome_bind, ih, bind_assoc]

theorem addAll_of_perm (hapart : added.Pairwise fun q r => q.2.Apart r.2)
    (hperm : added.Perm added') (h : (addAll font t added).outcome = .ok t') :
    (addAll font t added').outcome = .ok t' := by
  -- A permutation is made of swaps of neighbours, and landing apart survives each of them.
  induction hperm generalizing t with
  | nil => exact h
  | cons q _ ih =>
      obtain ⟨u, hq, hrest⟩ := addAll_cons_eq_ok.mp h
      exact addAll_cons_eq_ok.mpr ⟨u, hq, ih (List.pairwise_cons.mp hapart).2 hrest⟩
  | swap r q rest =>
      obtain ⟨u, hq, h⟩ := addAll_cons_eq_ok.mp h
      obtain ⟨v, hr, hrest⟩ := addAll_cons_eq_ok.mp h
      have happartHead := (List.pairwise_cons.mp hapart).1 r List.mem_cons_self
      obtain ⟨w, hw, hv⟩ := add_comm_of_apart happartHead hq hr
      exact addAll_cons_eq_ok.mpr ⟨w, hw, addAll_cons_eq_ok.mpr ⟨v, hv, hrest⟩⟩
  | trans hfirst _ ih ih' =>
      have hmiddle := (hfirst.pairwise_iff fun hqr => hqr.symm).mp hapart
      exact ih' hmiddle (ih hapart h)

/-- Patch sets that land apart can be added in any order: it succeeds alike and gives the
same table, in which every later patch set meets the same owners. -/
theorem addAll_perm_of_apart (font : Font) (t : AttributeTable)
    (hapart : added.Pairwise fun q r => q.2.Apart r.2) (hperm : added.Perm added')
    (h : (addAll font t added).outcome = .ok t') :
    (addAll font t added').outcome = .ok t' ∧
      ∀ later, (addAll font t (added' ++ later)).outcome =
        (addAll font t (added ++ later)).outcome := by
  have h' := addAll_of_perm hapart hperm h
  refine ⟨h', fun later => ?_⟩
  rw [outcome_addAll_append, outcome_addAll_append, h, h']

/-- Font Awesome finds one of its destinations owned, Octicons takes one over, and the third
patch set has a scale group. -/
def scatteredSets : List (PatchSet × Crosswalk) :=
  [(Mapping.sampleSet "Font Awesome" 3 4, .ofPairs "Font Awesome" 1 true [(3, 6), (4, 9)]),
   (Mapping.sampleSet "Octicons" 8 8, .ofPairs "Octicons" 2 true [(8, 5)]),
   (Scaling.flatIcons.withGroups ⟨[.list [7]], none⟩, Scaling.flatCrosswalk)]

def firstSets : List (PatchSet × Crosswalk) :=
  [(Mapping.sampleSet "Pomicons" 1 2, .ofPairs "Pomicons" 0 true [(1, 5), (2, 6)])]

theorem scatteredSets_reversed : ∃ t t',
    (addAll Scaling.flatFont .empty firstSets).outcome = .ok t ∧
    (scatteredSets.Pairwise fun q r => q.2.Apart r.2) ∧
    scatteredSets.Perm scatteredSets.reverse ∧
    (addAll Scaling.flatFont t scatteredSets).outcome = .ok t' ∧
    (addAll Scaling.flatFont t scatteredSets.reverse).outcome = .ok t' ∧
    [5, 6, 7, 9].map t'.owner? =
      [some "Octicons", some "Pomicons", some "A", some "Font Awesome"] ∧
    t'.counts = ⟨1, 1⟩ := by
  have hapart : scatteredSets.Pairwise fun q r => q.2.Apart r.2 := by decide
  have hperm : scatteredSets.Perm scatteredSets.reverse := (List.reverse_perm _).symm
  exact ⟨_, _, rfl, hapart, hperm, rfl,
    (addAll_perm_of_apart Scaling.flatFont _ hapart hperm rfl).1, by decide +kernel,
    by decide +kernel⟩

end AttributeTable

end IconConstraints
