import Mathlib.Data.List.Pairwise
import Mathlib.Data.List.Perm.Subperm
import IconConstraints.Proofs.Coalescing

/-!
# The fewest ranges

Which codepoints coalesced ranges hold says which ranges they are.  Other ranges that hold the
same codepoints are at least as many: none of them reaches over a gap, so each range needs one
of them for itself.
-/

namespace IconConstraints.CodepointRange

variable {cps : List Codepoint} {ranges others rest rest' : List CodepointRange}
  {r s : CodepointRange}

def Holds (ranges : List CodepointRange) (x : Codepoint) : Prop :=
  ∃ r ∈ ranges, r.contains x = true

/-- Together the ranges hold exactly the given codepoints. -/
def Covers (ranges : List CodepointRange) (cps : List Codepoint) : Prop :=
  ∀ x, Holds ranges x ↔ x ∈ cps

theorem Covers.holds_iff (h : Covers ranges cps) (h' : Covers others cps) (x : Codepoint) :
    Holds ranges x ↔ Holds others x :=
  (h x).trans (h' x).symm

namespace Coalesced

/-! ## Gaps -/

theorem apart (h : Coalesced ranges) (hr : r ∈ ranges) (hs : s ∈ ranges) (hne : r ≠ s) :
    r.last + 1 < s.first ∨ s.last + 1 < r.first := by
  have hsymm : Std.Symm fun r s : CodepointRange =>
      r.last + 1 < s.first ∨ s.last + 1 < r.first := ⟨fun _ _ => Or.symm⟩
  have hapart : ranges.Pairwise fun r s => r.last + 1 < s.first ∨ s.last + 1 < r.first :=
    h.separated.imp Or.inl
  exact hapart.forall hr hs hne

theorem not_holds_next (h : Coalesced ranges) (hr : r ∈ ranges) : ¬ Holds ranges (r.last + 1) := by
  rintro ⟨s, hs, hcontains⟩
  obtain ⟨hfirst, hlast⟩ := contains_iff.mp hcontains
  have hinhabited := h.inhabited r hr
  by_cases hne : r = s
  · subst hne
    lia
  · have hapart := h.apart hr hs hne
    lia

theorem holds_first (h : Coalesced ranges) (hr : r ∈ ranges) : Holds ranges r.first :=
  ⟨r, hr, contains_iff.mpr ⟨Nat.le_refl _, h.inhabited r hr⟩⟩

theorem holds_last (h : Coalesced ranges) (hr : r ∈ ranges) : Holds ranges r.last :=
  ⟨r, hr, contains_iff.mpr ⟨h.inhabited r hr, Nat.le_refl _⟩⟩

/-! ## The ranges for given codepoints -/

theorem first_le {x : Codepoint} (h : Coalesced (r :: rest)) (hx : Holds (r :: rest) x) :
    r.first ≤ x := by
  obtain ⟨s, hs, hcontains⟩ := hx
  obtain ⟨hfirst, -⟩ := contains_iff.mp hcontains
  rcases List.mem_cons.mp hs with rfl | hrest
  · exact hfirst
  · have hgap := (List.pairwise_cons.mp h.separated).1 s hrest
    have hinhabited := h.inhabited r (by simp)
    lia

theorem holds_tail_iff (h : Coalesced (r :: rest)) (x : Codepoint) :
    Holds rest x ↔ Holds (r :: rest) x ∧ r.last < x := by
  unfold Holds
  rw [List.exists_mem_cons_iff, contains_iff]
  constructor
  · rintro ⟨s, hs, hcontains⟩
    have hgap := (List.pairwise_cons.mp h.separated).1 s hs
    have hfirst := (contains_iff.mp hcontains).1
    exact ⟨.inr ⟨s, hs, hcontains⟩, by lia⟩
  · rintro ⟨hr | hrest, hlast⟩
    · lia
    · exact hrest

theorem head_last_le (h : Coalesced (r :: rest)) (hfirst : r.first = s.first)
    (hsame : ∀ x, Holds (r :: rest) x ↔ Holds (s :: rest') x) : s.last ≤ r.last := by
  by_contra hlonger
  have hinhabited := h.inhabited r (by simp)
  have hnext : s.contains (r.last + 1) = true := contains_iff.mpr ⟨by lia, by lia⟩
  exact h.not_holds_next (by simp) ((hsame _).mpr ⟨s, by simp, hnext⟩)

theorem eq_of_holds_iff (h : Coalesced ranges) (h' : Coalesced others)
    (hsame : ∀ x, Holds ranges x ↔ Holds others x) : ranges = others := by
  induction ranges generalizing others with
  | nil =>
      cases others with
      | nil => rfl
      | cons s rest => simpa [Holds] using (hsame _).mpr (h'.holds_first (List.mem_cons_self ..))
  | cons r rest ih =>
      cases others with
      | nil => simpa [Holds] using (hsame _).mp (h.holds_first (List.mem_cons_self ..))
      | cons s rest' =>
          have hfirst : r.first = s.first :=
            Nat.le_antisymm (h.first_le ((hsame _).mpr (h'.holds_first (by simp))))
              (h'.first_le ((hsame _).mp (h.holds_first (by simp))))
          have hlast : r.last = s.last :=
            Nat.le_antisymm (h'.head_last_le hfirst.symm fun x => (hsame x).symm)
              (h.head_last_le hfirst hsame)
          obtain rfl : r = s := by
            cases r
            cases s
            cases hfirst
            cases hlast
            rfl
          have hrest : rest = rest' := ih h.tail h'.tail fun x => by
            rw [h.holds_tail_iff, h'.holds_tail_iff, hsame]
          rw [hrest]

/-! ## Other ranges -/

/-- Each range has one of the other ranges that holds its first codepoint.  No two have the same
one, as that would hold the codepoint between them that is left out. -/
theorem length_le (h : Coalesced ranges) (hsame : ∀ x, Holds ranges x ↔ Holds others x) :
    ranges.length ≤ others.length := by
  have hholder : ∀ r ∈ ranges, ∃ s, s ∈ others ∧ s.contains r.first = true :=
    fun r hr => (hsame _).mp (h.holds_first hr)
  have : Nonempty CodepointRange := ⟨single 0⟩
  choose! holder hmem hcontains using hholder
  have hdistinct : (ranges.map holder).Nodup := by
    rw [List.Nodup, List.pairwise_map]
    refine h.separated.imp_of_mem fun {r s} hr hs hgap heq => ?_
    obtain ⟨hfirst, -⟩ := contains_iff.mp (hcontains r hr)
    obtain ⟨-, hlast⟩ := contains_iff.mp (hcontains s hs)
    have hinhabited := h.inhabited r hr
    rw [← heq] at hlast
    have hover : (holder r).contains (r.last + 1) = true := contains_iff.mpr ⟨by lia, by lia⟩
    exact h.not_holds_next hr ((hsame _).mpr ⟨holder r, hmem r hr, hover⟩)
  have hsub : ranges.map holder ⊆ others := by
    intro s hs
    obtain ⟨r, hr, rfl⟩ := List.mem_map.mp hs
    exact hmem r hr
  calc ranges.length = (ranges.map holder).length := (List.length_map _).symm
    _ ≤ others.length := (hdistinct.subperm hsub).length_le

end Coalesced

/-- The ends of the ranges are among the codepoints, so no range goes beyond the greatest of them,
whether or not there is another codepoint after it. -/
theorem coalesce_fewest (cps : List Codepoint) :
    Coalesced (coalesce cps) ∧ Covers (coalesce cps) cps ∧
      (∀ r ∈ coalesce cps, r.first ∈ cps ∧ r.last ∈ cps) ∧
      (∀ cps', (∀ x, x ∈ cps' ↔ x ∈ cps) → coalesce cps' = coalesce cps) ∧
      ∀ others, Covers others cps → (coalesce cps).length ≤ others.length := by
  have hcoalesced := coalesce_coalesced cps
  have hcovers : Covers (coalesce cps) cps := contains_coalesce cps
  refine ⟨hcoalesced, hcovers, fun r hr => ⟨?_, ?_⟩, fun cps' hsame => ?_, fun others hothers => ?_⟩
  · exact (hcovers _).mp (hcoalesced.holds_first hr)
  · exact (hcovers _).mp (hcoalesced.holds_last hr)
  · have hcovers' : Covers (coalesce cps') cps :=
      fun x => (contains_coalesce cps' x).trans (hsame x)
    exact (coalesce_coalesced cps').eq_of_holds_iff hcoalesced (hcovers'.holds_iff hcovers)
  · exact hcoalesced.length_le (hcovers.holds_iff hothers)

-- The greatest numbers of 32 bits; there is no next one to look for.
example : coalesce [0xffffffff, 7, 0xfffffffe, 7] = [⟨7, 7⟩, ⟨0xfffffffe, 0xffffffff⟩] := by
  cbv

end IconConstraints.CodepointRange
