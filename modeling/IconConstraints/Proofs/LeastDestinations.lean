import Mathlib.Data.Nat.Find
import Mathlib.Order.Bounds.Basic
import IconConstraints.Proofs.Crosswalk

/-!
# Least destinations

A crosswalk is made from pairs in any order, in which an origin may stand more than once.
Sorted, the pairs of an origin are neighbours and begin with the least destination, which is
the one that stays.  So a crosswalk depends on which pairs there are and on nothing else.
-/

namespace IconConstraints

namespace CodepointPair

variable {pair other : CodepointPair} {pairs kept : List CodepointPair}

theorem Precedes.antisymm (h : pair.Precedes other) (h' : other.Precedes pair) : pair = other := by
  unfold Precedes at *
  exact Prod.ext (by lia) (by lia)

theorem Precedes.destination_le (h : pair.Precedes other) (hsame : other.1 = pair.1) :
    pair.2 ≤ other.2 := by
  unfold Precedes at h
  lia

theorem mem_keepFirst (hpair : ∀ other ∈ kept, pair.1 ≤ other.1)
    (h : kept.Pairwise fun a b => a.1 < b.1) :
    other ∈ keepFirst pair kept ↔ other = pair ∨ other ∈ kept ∧ other.1 ≠ pair.1 := by
  cases kept with
  | nil => simp [keepFirst]
  | cons next rest =>
      obtain ⟨hnext, -⟩ := List.pairwise_cons.mp h
      have hfirst := hpair next List.mem_cons_self
      have hbehind : ∀ {later}, later ∈ rest → later.1 ≠ pair.1 := by
        intro later hlater
        have hlt := hnext later hlater
        lia
      rw [keepFirst]
      split
      case isTrue hsame =>
        rw [List.mem_cons, List.mem_cons]
        refine or_congr_right ⟨fun hmem => ⟨.inr hmem, hbehind hmem⟩, ?_⟩
        rintro ⟨rfl | hmem, hne⟩
        · exact absurd hsame.symm hne
        · exact hmem
      case isFalse hother =>
        rw [List.mem_cons]
        refine or_congr_right ⟨fun hmem => ⟨hmem, ?_⟩, And.left⟩
        rcases List.mem_cons.mp hmem with rfl | hmem
        · exact Ne.symm hother
        · exact hbehind hmem

/-- What stays of a sorted list is the pair with the least destination of each origin. -/
theorem mem_firsts (h : pairs.Pairwise Precedes) : pair ∈ firsts pairs ↔
    pair ∈ pairs ∧ ∀ other ∈ pairs, other.1 = pair.1 → pair.2 ≤ other.2 := by
  induction pairs with
  | nil => simp [firsts]
  | cons first pairs ih =>
      obtain ⟨hfirst, hpairs⟩ := List.pairwise_cons.mp h
      have hkept : ∀ other ∈ firsts pairs, first.1 ≤ other.1 := by
        intro other hother
        exact (hfirst other (mem_of_mem_firsts hother)).elim Nat.le_of_lt
          fun hsame => Nat.le_of_eq hsame.1
      change pair ∈ keepFirst first (firsts pairs) ↔ _
      rw [mem_keepFirst hkept (firsts_ascending hpairs), ih hpairs]
      constructor
      · rintro (rfl | ⟨⟨hmem, hleast⟩, hne⟩)
        · refine ⟨List.mem_cons_self, fun other hother hsame => ?_⟩
          rcases List.mem_cons.mp hother with rfl | hother
          · exact Nat.le_refl _
          · exact (hfirst other hother).destination_le hsame
        · refine ⟨List.mem_cons_of_mem _ hmem, fun other hother hsame => ?_⟩
          rcases List.mem_cons.mp hother with rfl | hother
          · exact absurd hsame.symm hne
          · exact hleast other hother hsame
      · rintro ⟨hmem, hleast⟩
        by_cases hsame : pair.1 = first.1
        · left
          rcases List.mem_cons.mp hmem with rfl | hmem
          · rfl
          · have hle := hleast first List.mem_cons_self hsame.symm
            exact Precedes.antisymm (.inr ⟨hsame, hle⟩) (hfirst pair hmem)
        · have hother : pair ∈ pairs := (List.mem_cons.mp hmem).resolve_left fun heq => hsame (heq ▸ rfl)
          exact .inr ⟨⟨hother, fun other hmem => hleast other (List.mem_cons_of_mem _ hmem)⟩, hsame⟩

theorem ascending_ext (h : pairs.Pairwise fun a b => a.1 < b.1)
    (h' : kept.Pairwise fun a b => a.1 < b.1) (hsame : ∀ pair, pair ∈ pairs ↔ pair ∈ kept) :
    pairs = kept := by
  have hne : ∀ {a b : CodepointPair}, a.1 < b.1 → a ≠ b := fun hlt heq => Nat.ne_of_lt hlt (heq ▸ rfl)
  have hperm : pairs.Perm kept := (List.perm_ext_iff_of_nodup (h.imp hne) (h'.imp hne)).mpr hsame
  exact hperm.eq_of_pairwise (fun _ _ _ _ hlt hgt => absurd hgt (Nat.lt_asymm hlt)) h h'

end CodepointPair

namespace Crosswalk

variable {given given' : List CodepointPair} {patchSet : String} {index : Nat} {exact : Bool}

theorem mem_pairs_ofPairs {origin cp : Codepoint} :
    (origin, cp) ∈ (ofPairs patchSet index exact given).pairs ↔
      IsLeast {d | (origin, d) ∈ given} cp := by
  rw [pairs_ofPairs, CodepointPair.mem_firsts (CodepointPair.sort_sorted given)]
  simp only [CodepointPair.mem_sort]
  constructor
  · rintro ⟨hmem, hleast⟩
    exact ⟨hmem, fun d hd => hleast (origin, d) hd rfl⟩
  · rintro ⟨hmem, hleast⟩
    refine ⟨hmem, fun other hother hsame => hleast ?_⟩
    subst hsame
    exact hother

theorem ofPairs_congr (h : ∀ pair, pair ∈ given' ↔ pair ∈ given) :
    ofPairs patchSet index exact given' = ofPairs patchSet index exact given := by
  refine ext_pairs rfl rfl rfl (CodepointPair.ascending_ext (pairs_ordered _) (pairs_ordered _) ?_)
  rintro ⟨origin, cp⟩
  simp only [mem_pairs_ofPairs, h]

theorem exists_isLeast {origin cp : Codepoint} (h : (origin, cp) ∈ given) :
    ∃ d, IsLeast {d | (origin, d) ∈ given} d := by
  have hnonempty : ∃ d, (origin, d) ∈ given := ⟨cp, h⟩
  exact ⟨Nat.find hnonempty, Nat.find_spec hnonempty, fun d hd => Nat.find_min' hnonempty hd⟩

/-- A crosswalk has the least destination of each origin, in ascending order of the origins.  It
is made again from the same pairs in another order, from its own pairs, and from its snapshot. -/
theorem ofPairs_canonical (patchSet : String) (index : Nat) (exact : Bool)
    (given : List (Codepoint × Codepoint)) :
    let c := ofPairs patchSet index exact given
    c.pairs.Pairwise (fun a b => a.1 < b.1) ∧
      (∀ origin cp, (origin, cp) ∈ c.pairs ↔ c.destination? origin = some cp) ∧
      (∀ origin cp, c.destination? origin = some cp ↔ IsLeast {d | (origin, d) ∈ given} cp) ∧
      (∀ origin, c.destination? origin = none ↔ ∀ cp, (origin, cp) ∉ given) ∧
      (∀ given', (∀ pair, pair ∈ given' ↔ pair ∈ given) →
        ofPairs patchSet index exact given' = c) ∧
      ofPairs patchSet index exact c.pairs = c ∧ (SnapshotEntry.ofCrosswalk c).toCrosswalk = c := by
  intro c
  have hleast : ∀ {origin cp}, c.destination? origin = some cp ↔ IsLeast {d | (origin, d) ∈ given} cp :=
    mem_pairs.symm.trans mem_pairs_ofPairs
  refine ⟨c.pairs_ordered, fun origin cp => mem_pairs, fun origin cp => hleast, fun origin => ?_,
    fun given' hsame => ofPairs_congr hsame, c.ofPairs_pairs, SnapshotEntry.toCrosswalk_ofCrosswalk c⟩
  constructor
  · intro hnone cp hmem
    obtain ⟨d, hd⟩ := exists_isLeast hmem
    cases hnone.symm.trans (hleast.mpr hd)
  · intro hnot
    cases hfound : c.destination? origin with
    | none => rfl
    | some cp => exact absurd (hleast.mp hfound).1 (hnot cp)

end Crosswalk

end IconConstraints
