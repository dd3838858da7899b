import Mathlib.Data.List.Induction
import IconConstraints.AttributeTable
import IconConstraints.Proofs.Mapping
import IconConstraints.Proofs.Scaling

/-!
# One codepoint when a patch set is added

Adding a patch set is seen from one codepoint of the destination font.  The patch set
has a claim to it if some origin lands there; the greatest such origin decides the
entry.  The claim counts if nobody owns the codepoint or if the patch set is the one
that may overwrite, and otherwise nothing changes.
-/

namespace IconConstraints

namespace CodepointMap

variable {α β : Type}

/-- In a map made by inserting one value after another the last value for a key counts. -/
theorem getElem?_foldl_insert (key : α → Codepoint) (value : α → β) (l : List α)
    (found : CodepointMap β) (cp : Codepoint) :
    (l.foldl (fun found a => found.insert (key a) (value a)) found)[cp]? =
      ((l.reverse.find? (key · == cp)).map value).or found[cp]? := by
  induction l using List.reverseRecOn with
  | nil => simp
  | append_singleton l a ih =>
      rw [List.foldl_append, List.foldl_cons, List.foldl_nil, Std.ExtTreeMap.getElem?_insert, ih,
        List.reverse_append, List.reverse_singleton, List.singleton_append, List.find?_cons]
      by_cases heq : key a = cp
      · simp [heq]
      · have hbeq : (key a == cp) = false := by simpa using heq
        simp [heq, hbeq]

theorem find?_toList (m : CodepointMap α) (cp : Codepoint) :
    m.toList.reverse.find? (·.1 == cp) = m[cp]?.map fun a => (cp, a) := by
  -- Keys are distinct, so it does not matter from which end one is looked for.
  have hkey : ∀ pair ∈ m.toList, pair.1 = cp → m[cp]? = some pair.2 := by
    rintro ⟨_, a⟩ hpair rfl
    exact Std.ExtTreeMap.mem_toList_iff_getElem?_eq_some.mp hpair
  cases hfound : m.toList.reverse.find? (·.1 == cp) with
  | none =>
      have hnone : m[cp]? = none := by
        by_contra hsome
        obtain ⟨a, ha⟩ := Option.ne_none_iff_exists'.mp hsome
        have hmem := Std.ExtTreeMap.mem_toList_iff_getElem?_eq_some.mpr ha
        simpa using List.find?_eq_none.mp hfound (cp, a) (by simpa using hmem)
      rw [hnone, Option.map_none]
  | some pair =>
      have heq : pair.1 = cp := by simpa using List.find?_some hfound
      have hmem : pair ∈ m.toList := by simpa using List.mem_of_find?_eq_some hfound
      rw [hkey pair hmem heq, Option.map_some, ← heq]

end CodepointMap

theorem find?_filter_key {α : Type} (key : α → Codepoint) (keep : Codepoint → Bool) (l : List α)
    (cp : Codepoint) :
    (l.filter fun a => keep (key a)).find? (key · == cp) =
      if keep cp then l.find? (key · == cp) else none := by
  rw [List.find?_filter]
  cases hkeep : keep cp with
  | true =>
      congr 1
      funext a
      by_cases heq : key a = cp <;> simp [heq, hkeep]
  | false =>
      rw [if_neg (by simp), List.find?_eq_none]
      intro a _
      by_cases heq : key a = cp <;> simp [heq, hkeep]

/-! ## Origins of a destination -/

namespace Crosswalk

/-- The greatest origin that lands at a codepoint. -/
def greatestOrigin? (c : Crosswalk) (cp : Codepoint) : Option Codepoint :=
  (c.pairs.reverse.find? (·.2 == cp)).map (·.1)

theorem greatestOrigin?_eq_none {c : Crosswalk} {cp : Codepoint} :
    c.greatestOrigin? cp = none ↔ ¬ c.Reaches cp := by
  simp only [greatestOrigin?, Reaches, Option.map_eq_none_iff, List.find?_eq_none,
    List.mem_reverse, beq_iff_eq, not_exists, not_and]

theorem greatestOrigin?_eq_some {c : Crosswalk} {cp origin : Codepoint}
    (h : c.greatestOrigin? cp = some origin) :
    (origin, cp) ∈ c.pairs ∧ ∀ o, (o, cp) ∈ c.pairs → o ≤ origin := by
  obtain ⟨⟨last, d⟩, hlast, rfl⟩ := Option.map_eq_some_iff.mp h
  obtain ⟨hd, after, before, hpairs, hafter⟩ := List.find?_eq_some_iff_append.mp hlast
  obtain rfl : d = cp := by simpa using hd
  have hmem : ∀ pair, pair ∈ c.pairs ↔ pair ∈ after ++ (last, d) :: before := by
    intro pair
    rw [← hpairs, List.mem_reverse]
  have hordered : (after ++ (last, d) :: before).Pairwise fun a b => b.1 < a.1 := by
    rw [← hpairs]
    exact List.pairwise_reverse.mpr c.pairs_ordered
  refine ⟨(hmem _).mpr (by simp), fun o ho => ?_⟩
  rcases List.mem_append.mp ((hmem _).mp ho) with hlater | hrest
  · simpa using hafter _ hlater
  · rcases List.mem_cons.mp hrest with heq | hearlier
    · cases heq
      exact Nat.le_refl _
    · exact Nat.le_of_lt ((List.pairwise_cons.mp (List.pairwise_append.mp hordered).2.1).1 _
        hearlier)

end Crosswalk

theorem overlapPolicy?_eq_overwrite {name : String} :
    overlapPolicy? name .patchSetMerge = some .overwrite ↔ name = "Octicons" := by
  unfold overlapPolicy?
  by_cases hfont : name = "Font Awesome"
  · subst hfont
    decide
  · by_cases hocticons : name = "Octicons" <;> simp [hfont, hocticons]

namespace AttributeTable

variable {t t' : AttributeTable} {font : Font} {p : PatchSet} {c : Crosswalk} {cp : Codepoint}

theorem getElem?_entriesOf (attributes : PatchSetAttributes)
    (pairs : List (Codepoint × Codepoint)) (cp : Codepoint) :
    (entriesOf attributes pairs)[cp]? =
      (pairs.reverse.find? (·.2 == cp)).map fun pair => attributes.entryFor pair.1 := by
  have hfold := CodepointMap.getElem?_foldl_insert (fun pair : Codepoint × Codepoint => pair.2)
    (fun pair => attributes.entryFor pair.1) pairs ∅ cp
  rw [Std.ExtTreeMap.getElem?_empty, Option.or_none] at hfold
  exact hfold

theorem owner?_eq_none : t.owner? cp = none ↔ t.claims[cp]? = none :=
  Option.map_eq_none_iff

/-- Whether a claim of the patch set to a codepoint counts. -/
def Admits (t : AttributeTable) (p : PatchSet) (cp : Codepoint) : Prop :=
  t.claims[cp]? = none ∨ p.name = "Octicons"

instance : Decidable (t.Admits p cp) :=
  inferInstanceAs (Decidable (_ ∨ _))

/-- Only Octicons is collected for a codepoint that is owned. -/
theorem not_admits {t : AttributeTable} {p : PatchSet} {cp : Codepoint}
    (howned : t.claims[cp]? ≠ none)
    (hpolicy : overlapPolicy? p.name .patchSetMerge ≠ some .overwrite) : ¬ t.Admits p cp := by
  rintro (hfree | hname)
  · exact howned hfree
  · exact hpolicy (overlapPolicy?_eq_overwrite.mpr hname)

theorem collect_eq_ok {collected : CodepointMap AttributeEntry}
    (h : (t.collect p c).outcome = .ok collected) (cp : Codepoint) :
    collected[cp]? =
      if t.Admits p cp then (c.greatestOrigin? cp).map p.attributes.entryFor else none := by
  have hall : (entriesOf p.attributes c.pairs)[cp]? =
      (c.greatestOrigin? cp).map p.attributes.entryFor := by
    rw [getElem?_entriesOf, Crosswalk.greatestOrigin?, Option.map_map, Function.comp_def]
  unfold collect at h
  dsimp only at h
  -- One case for each policy.  Without one the work goes on only if nothing reached is
  -- owned, so that the condition in the statement makes no difference.
  split at h
  case h_1 hpolicy =>
    obtain ⟨-, -, h⟩ := Report.bind_eq_ok.mp h
    cases h
    have hfind := find?_filter_key (fun pair : Codepoint × Codepoint => pair.2)
      (fun d => (t.owner? d).isNone) c.pairs.reverse cp
    rw [getElem?_entriesOf, ← List.filter_reverse, hfind]
    by_cases hfree : t.claims[cp]? = none
    · rw [if_pos (by simp [owner?_eq_none.mpr hfree]), if_pos (.inl hfree), ← hall,
        getElem?_entriesOf]
    · rw [if_neg (by simpa [owner?_eq_none] using hfree),
        if_neg (not_admits hfree (by simp [hpolicy])), Option.map_none]
  case h_2 hpolicy =>
    obtain ⟨-, -, h⟩ := Report.bind_eq_ok.mp h
    cases h
    rw [if_pos (.inr (overlapPolicy?_eq_overwrite.mp hpolicy)), hall]
  case h_3 hpolicy =>
    split at h
    case h_1 hoverlaps =>
      cases h
      rw [hall]
      split
      case isTrue => rfl
      case isFalse hrefused =>
        have hnot : ¬ c.Reaches cp := by
          rintro ⟨pair, hpair, rfl⟩
          have hfree := List.filterMap_eq_nil_iff.mp hoverlaps pair hpair
          exact hrefused (.inl (owner?_eq_none.mp (Option.map_eq_none_iff.mp hfree)))
        rw [Crosswalk.greatestOrigin?_eq_none.mpr hnot, Option.map_none]
    case h_2 => simp at h

theorem getElem?_merge (t : AttributeTable) (patchSet : String)
    (entries : CodepointMap AttributeEntry) (cp : Codepoint) :
    (t.merge patchSet entries.toList).claims[cp]? =
      (entries[cp]?.map (Claim.mk patchSet)).or t.claims[cp]? := by
  have hfold := CodepointMap.getElem?_foldl_insert
    (fun pair : Codepoint × AttributeEntry => pair.1) (fun pair => Claim.mk patchSet pair.2)
    entries.toList t.claims cp
  rw [CodepointMap.find?_toList, Option.map_map, Function.comp_def] at hfold
  exact hfold

/-! ## The claim of a patch set -/

/-- The claim that a patch set has to a codepoint: the entry for the greatest origin,
with the geometry from its own scale groups. -/
def claimOf? (font : Font) (cp : Codepoint) (p : PatchSet) (c : Crosswalk) : Option Claim :=
  (c.greatestOrigin? cp).map fun origin =>
    ⟨p.name, Scaling.scaledBy (p.placement? font c cp) (p.attributes.entryFor origin)⟩

theorem claimOf?_eq_none : claimOf? font cp p c = none ↔ ¬ c.Reaches cp := by
  rw [claimOf?, Option.map_eq_none_iff, Crosswalk.greatestOrigin?_eq_none]

/-- The table with what a patch set has brought: its scaled entries and their counts. -/
def take (t : AttributeTable) (patchSet : String) (s : Scaling) : AttributeTable :=
  { t.merge patchSet s.entries.toList with counts := t.counts.add s.counts }

theorem getElem?_take (t : AttributeTable) (patchSet : String) (s : Scaling) (cp : Codepoint) :
    (t.take patchSet s).claims[cp]? =
      (s.entries[cp]?.map (Claim.mk patchSet)).or t.claims[cp]? :=
  t.getElem?_merge patchSet s.entries cp

theorem add_eq_ok_iff : (t.add font p c).outcome = .ok t' ↔
    ∃ collected s, (t.collect p c).outcome = .ok collected ∧
      (Scaling.apply font p c).Ends (.start collected) (.ok ()) s ∧ t' = t.take p.name s := by
  unfold add
  constructor
  · intro h
    obtain ⟨-, -, h⟩ := Report.bind_eq_ok.mp h
    obtain ⟨collected, hcollected, h⟩ := Report.bind_eq_ok.mp h
    obtain ⟨_, hscaled, h⟩ := Report.bind_eq_ok.mp h
    cases h
    exact ⟨collected, _, hcollected, ⟨hscaled, rfl⟩, rfl⟩
  · rintro ⟨collected, s, hcollected, ⟨hscaled, rfl⟩, rfl⟩
    exact Report.bind_eq_ok.mpr ⟨(), rfl, Report.bind_eq_ok.mpr ⟨collected, hcollected,
      Report.bind_eq_ok.mpr ⟨(), hscaled, rfl⟩⟩⟩

theorem add_eq_ok (h : (t.add font p c).outcome = .ok t') (cp : Codepoint) :
    t'.claims[cp]? =
      (if t.Admits p cp then claimOf? font cp p c else none).or t.claims[cp]? := by
  obtain ⟨collected, s, hcollected, happlied, rfl⟩ := add_eq_ok_iff.mp h
  rw [getElem?_take, Scaling.apply_entries happlied cp, collect_eq_ok hcollected cp]
  split
  case isTrue => simp [claimOf?, Function.comp_def]
  case isFalse => rfl

end AttributeTable

end IconConstraints
