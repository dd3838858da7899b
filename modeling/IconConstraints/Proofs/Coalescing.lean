import Mathlib.Data.List.Basic
import IconConstraints.Codepoint

/-!
# Coalesced ranges

Coalescing gives ranges that hold exactly the codepoints that were given.  No
range is empty, and between two neighbours at least one codepoint is left out, so
that no two of them could be joined.
-/

namespace IconConstraints.CodepointRange

/-- Ranges in ascending order, none empty, with a gap after each but the last. -/
structure Coalesced (ranges : List CodepointRange) : Prop where
  inhabited : ∀ r ∈ ranges, r.first ≤ r.last
  separated : ranges.Pairwise fun r s => r.last + 1 < s.first

theorem contains_iff {r : CodepointRange} {cp : Codepoint} :
    r.contains cp = true ↔ r.first ≤ cp ∧ cp ≤ r.last := by
  simp [contains]

theorem Coalesced.tail {r : CodepointRange} {rest : List CodepointRange}
    (h : Coalesced (r :: rest)) : Coalesced rest :=
  ⟨fun s hs => h.inhabited s (List.mem_cons_of_mem r hs),
    (List.pairwise_cons.mp h.separated).2⟩

/-! ## One codepoint -/

theorem first_mem_of_mem_attach {cp : Codepoint} {ranges : List CodepointRange}
    {r : CodepointRange} (h : r ∈ attach cp ranges) :
    r.first = cp ∨ ∃ s ∈ ranges, s.first = r.first := by
  fun_cases attach cp ranges <;> grind [attach, single]

theorem attach_coalesced {cp : Codepoint} {ranges : List CodepointRange}
    (hsmallest : ∀ r ∈ ranges, cp ≤ r.first) (h : Coalesced ranges) :
    Coalesced (attach cp ranges) := by
  cases ranges with
  | nil => exact ⟨by simp [attach, single], by simp [attach]⟩
  | cons r rest =>
      have hcp := hsmallest r (by simp)
      have hr := h.inhabited r (by simp)
      obtain ⟨hgap, hrest⟩ := List.pairwise_cons.mp h.separated
      rw [attach]
      split
      case isTrue => exact h
      case isFalse hne =>
        split
        case isTrue hnext =>
          constructor
          · intro s hs
            rcases List.mem_cons.mp hs with rfl | hs
            · change cp ≤ r.last
              lia
            · exact h.tail.inhabited s hs
          · exact List.pairwise_cons.mpr ⟨hgap, hrest⟩
        case isFalse hfar =>
          constructor
          · intro s hs
            rcases List.mem_cons.mp hs with rfl | hs
            · exact Nat.le_refl cp
            · exact h.inhabited s hs
          · refine List.pairwise_cons.mpr ⟨?_, h.separated⟩
            intro s hs
            change cp + 1 < s.first
            rcases List.mem_cons.mp hs with rfl | hs
            · lia
            · have := hgap s hs
              lia

theorem contains_attach {cp : Codepoint} {ranges : List CodepointRange}
    (h : Coalesced ranges) (x : Codepoint) :
    (∃ r ∈ attach cp ranges, r.contains x = true) ↔
      x = cp ∨ ∃ r ∈ ranges, r.contains x = true := by
  cases ranges with
  | nil => simp [attach, single, contains_iff]; lia
  | cons r rest =>
      have hr := h.inhabited r (by simp)
      rw [attach]
      split
      case isTrue heq =>
        have : r.contains cp = true := contains_iff.mpr (by lia)
        constructor
        · exact Or.inr
        · rintro (rfl | hx)
          · exact ⟨r, by simp, this⟩
          · exact hx
      case isFalse =>
        split
        case isTrue hnext =>
          have hjoined : (CodepointRange.mk cp r.last).contains x = true ↔
              x = cp ∨ r.contains x = true := by
            simp only [contains_iff]
            lia
          simp only [List.exists_mem_cons_iff, hjoined, or_assoc]
        case isFalse =>
          have hsingle : (single cp).contains x = true ↔ x = cp := by
            simp only [contains_iff, single]
            lia
          simp only [List.exists_mem_cons_iff, hsingle]

/-! ## All codepoints -/

/-- What attaching ascending codepoints from the greatest to the least keeps. -/
theorem foldr_attach {cps : List Codepoint} (hsorted : cps.Pairwise (· ≤ ·)) :
    Coalesced (cps.foldr attach []) ∧
      (∀ r ∈ cps.foldr attach [], r.first ∈ cps) ∧
      ∀ x, (∃ r ∈ cps.foldr attach [], r.contains x = true) ↔ x ∈ cps := by
  induction cps with
  | nil => exact ⟨⟨by simp, by simp⟩, by simp, by simp⟩
  | cons cp rest ih =>
      obtain ⟨hcp, hrest⟩ := List.pairwise_cons.mp hsorted
      obtain ⟨hcoalesced, hfirst, hcontains⟩ := ih hrest
      refine ⟨?_, ?_, ?_⟩
      · exact attach_coalesced (fun r hr => hcp _ (hfirst r hr)) hcoalesced
      · intro r hr
        rcases first_mem_of_mem_attach hr with heq | ⟨s, hs, heq⟩
        · simp [heq]
        · exact List.mem_cons_of_mem cp (heq ▸ hfirst s hs)
      · intro x
        rw [List.foldr_cons, contains_attach hcoalesced, hcontains, List.mem_cons]

private theorem mergeSort_codepoints (cps : List Codepoint) :
    (cps.mergeSort fun a b => decide (a ≤ b)).Pairwise (· ≤ ·) := by
  have h : (cps.mergeSort fun a b => decide (a ≤ b)).Pairwise
      fun a b => decide (a ≤ b) = true :=
    List.pairwise_mergeSort
      (fun a b c => by simp only [decide_eq_true_eq]; exact Nat.le_trans)
      (fun a b => by simpa using Nat.le_total a b) cps
  exact h.imp of_decide_eq_true

theorem coalesce_coalesced (cps : List Codepoint) : Coalesced (coalesce cps) :=
  (foldr_attach (mergeSort_codepoints cps)).1

theorem contains_coalesce (cps : List Codepoint) (x : Codepoint) :
    (∃ r ∈ coalesce cps, r.contains x = true) ↔ x ∈ cps := by
  rw [coalesce, (foldr_attach (mergeSort_codepoints cps)).2.2]
  exact List.mem_mergeSort

end IconConstraints.CodepointRange
