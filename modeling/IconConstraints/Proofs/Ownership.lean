import IconConstraints.Proofs.Claims
import IconConstraints.Proofs.RuleTable

/-!
# Who owns a codepoint

Among all patch sets that land at a codepoint the last one named Octicons owns it, and
if there is none the first.  The table has an entry for exactly the codepoints at which
some patch set lands, and it is the owner's.
-/

namespace IconConstraints

instance (c : Crosswalk) (cp : Codepoint) : Decidable (c.Reaches cp) :=
  inferInstanceAs (Decidable (∃ pair ∈ c.pairs, pair.2 = cp))

theorem PatchSetAttributes.entryFor_eq_getD (attributes : PatchSetAttributes) (origin : Codepoint) :
    attributes.entryFor origin = attributes.overrides[origin]?.getD attributes.default :=
  rfl

/-- Two entries agree in all that scale groups leave alone. -/
structure AttributeEntry.SameButRelative (a b : AttributeEntry) : Prop where
  align : a.align = b.align
  valign : a.valign = b.valign
  stretch : a.stretch = b.stretch
  overlap : a.overlap = b.overlap
  xyRatio : a.xyRatio = b.xyRatio
  yPadding : a.yPadding = b.yPadding

theorem Scaling.scaledBy_sameButRelative (a : Option ScaleGroup.Placement)
    (entry : AttributeEntry) : (scaledBy a entry).SameButRelative entry := by
  cases a with
  | none => exact ⟨rfl, rfl, rfl, rfl, rfl, rfl⟩
  | some placement =>
      unfold scaledBy relative
      dsimp only
      split
      · exact ⟨rfl, rfl, rfl, rfl, rfl, rfl⟩
      · exact ⟨rfl, rfl, rfl, rfl, rfl, rfl⟩

namespace AttributeTable

variable {font : Font} {added : List (PatchSet × Crosswalk)} {cp : Codepoint}
  {t t' : AttributeTable} {p : PatchSet} {c : Crosswalk}

/-! ## Claimants -/

def claimants (added : List (PatchSet × Crosswalk)) (cp : Codepoint) :
    List (PatchSet × Crosswalk) :=
  added.filter fun q => q.2.Reaches cp

/-- The last claimant named Octicons, or else the first claimant. -/
def rightful? (added : List (PatchSet × Crosswalk)) (cp : Codepoint) :
    Option (PatchSet × Crosswalk) :=
  ((claimants added cp).reverse.find? (·.1.name == "Octicons")).or (claimants added cp).head?

theorem rightful?_reaches {q : PatchSet × Crosswalk} (h : rightful? added cp = some q) :
    q ∈ added ∧ q.2.Reaches cp := by
  have hmem : q ∈ claimants added cp := by
    rcases Option.or_eq_some_iff.mp h with hlast | ⟨-, hfirst⟩
    · simpa using List.mem_of_find?_eq_some hlast
    · exact List.mem_of_mem_head? hfirst
  simpa [claimants] using hmem

theorem rightful?_eq_none : rightful? added cp = none ↔ ¬ ∃ q ∈ added, q.2.Reaches cp := by
  constructor
  · rintro h ⟨q, hq, hreaches⟩
    have hempty : claimants added cp = [] :=
      List.head?_eq_none_iff.mp (Option.or_eq_none_iff.mp h).2
    have hmem : q ∈ claimants added cp := by simpa [claimants] using ⟨hq, hreaches⟩
    simp [hempty] at hmem
  · intro h
    by_contra hsome
    obtain ⟨q, hq⟩ := Option.ne_none_iff_exists'.mp hsome
    exact h ⟨q, rightful?_reaches hq⟩

/-! ## From one patch set to all -/

/-- What becomes of a claim when a patch set is added. -/
def settle (font : Font) (cp : Codepoint) (claim : Option Claim) (q : PatchSet × Crosswalk) :
    Option Claim :=
  (if claim = none ∨ q.1.name = "Octicons" then claimOf? font cp q.1 q.2 else none).or claim

theorem addAll_claims (h : (addAll font t added).outcome = .ok t') (cp : Codepoint) :
    t'.claims[cp]? = added.foldl (settle font cp) t.claims[cp]? := by
  induction added generalizing t with
  | nil =>
      cases h
      rfl
  | cons q rest ih =>
      obtain ⟨next, hnext, h⟩ := Report.bind_eq_ok.mp h
      rw [List.foldl_cons, ih h, add_eq_ok hnext]
      rfl

theorem rightful?_append (added : List (PatchSet × Crosswalk)) (q : PatchSet × Crosswalk)
    (cp : Codepoint) :
    rightful? (added ++ [q]) cp =
      if q.2.Reaches cp then
        if q.1.name = "Octicons" then some q else (rightful? added cp).or (some q)
      else rightful? added cp := by
  unfold rightful? claimants
  rw [List.filter_append]
  by_cases hreaches : q.2.Reaches cp
  · by_cases hname : q.1.name = "Octicons"
    · simp [hreaches, hname]
    · have hbeq : (q.1.name == "Octicons") = false := by simpa using hname
      simp [hreaches, hname, hbeq]
  · simp [hreaches]

/-- A claim made before stays unless it is Octicons that comes. -/
theorem foldl_settle (font : Font) (cp : Codepoint) (added : List (PatchSet × Crosswalk)) :
    added.foldl (settle font cp) none =
      (rightful? added cp).bind fun q => claimOf? font cp q.1 q.2 := by
  -- The last patch set is taken off: it owns the codepoint only if it may overwrite or
  -- finds no claim, and the invariant says whose claim it would find.
  induction added using List.reverseRecOn with
  | nil => rfl
  | append_singleton added q ih =>
      rw [List.foldl_append, List.foldl_cons, List.foldl_nil, ih, rightful?_append]
      by_cases hreaches : q.2.Reaches cp
      · obtain ⟨new, hnew⟩ : ∃ new, claimOf? font cp q.1 q.2 = some new :=
          Option.ne_none_iff_exists'.mp fun hnone => claimOf?_eq_none.mp hnone hreaches
        by_cases hname : q.1.name = "Octicons"
        · simp [settle, hreaches, hname, hnew]
        · cases howner : rightful? added cp with
          | none => simp [settle, hreaches, hname, hnew]
          | some r =>
              have hr := (rightful?_reaches howner).2
              obtain ⟨old, hold⟩ : ∃ old, claimOf? font cp r.1 r.2 = some old :=
                Option.ne_none_iff_exists'.mp fun hnone => claimOf?_eq_none.mp hnone hr
              simp [settle, hreaches, hname, hold]
      · simp [settle, hreaches, claimOf?_eq_none.mpr hreaches]

theorem claims_of_addAll (h : (addAll font .empty added).outcome = .ok t) (cp : Codepoint) :
    t.claims[cp]? = (rightful? added cp).bind fun q => claimOf? font cp q.1 q.2 := by
  have hempty : (AttributeTable.empty).claims[cp]? = none := Std.ExtTreeMap.getElem?_empty
  rw [addAll_claims h, hempty, foldl_settle]

theorem exists_claim (h : (addAll font .empty added).outcome = .ok t)
    (hreached : ∃ q ∈ added, q.2.Reaches cp) :
    ∃ p c origin, rightful? added cp = some (p, c) ∧ c.greatestOrigin? cp = some origin ∧
      t.claims[cp]? = some
        ⟨p.name, Scaling.scaledBy (p.placement? font c cp) (p.attributes.entryFor origin)⟩ := by
  obtain ⟨⟨p, c⟩, howner⟩ := Option.ne_none_iff_exists'.mp fun hnone =>
    rightful?_eq_none.mp hnone hreached
  have hreaches : c.Reaches cp := (rightful?_reaches howner).2
  obtain ⟨origin, horigin⟩ := Option.ne_none_iff_exists'.mp fun hnone =>
    Crosswalk.greatestOrigin?_eq_none.mp hnone hreaches
  refine ⟨p, c, origin, howner, horigin, ?_⟩
  rw [claims_of_addAll h, howner, Option.bind_some, claimOf?, horigin, Option.map_some]

theorem exists_entry_iff_reached (h : (addAll font .empty added).outcome = .ok t) :
    (∃ entry, (cp, entry) ∈ t.entries) ↔ ∃ q ∈ added, q.2.Reaches cp := by
  constructor
  · rintro ⟨entry, hentry⟩
    obtain ⟨claim, hclaim, -⟩ := mem_entries.mp hentry
    by_contra hnone
    rw [claims_of_addAll h, rightful?_eq_none.mpr hnone] at hclaim
    cases hclaim
  · intro hreached
    obtain ⟨p, c, origin, -, -, hclaim⟩ := exists_claim h hreached
    exact ⟨_, mem_entries.mpr ⟨_, hclaim, rfl⟩⟩

theorem claims_kept (hname : p.name ≠ "Octicons") (h : (t.add font p c).outcome = .ok t')
    {claim : Claim} (hclaim : t.claims[cp]? = some claim) : t'.claims[cp]? = some claim := by
  have hrefused : ¬ t.Admits p cp := by simp [Admits, hclaim, hname]
  rw [add_eq_ok h, if_neg hrefused, hclaim, Option.none_or]

/-! ## Ownership -/

/-- What a table holds that got the given patch sets, and what it keeps. -/
structure Settled (font : Font) (added : List (PatchSet × Crosswalk)) (t : AttributeTable) :
    Prop where
  /-- Exactly the destinations of the crosswalks have entries. -/
  keys : ∀ cp, (∃ entry, (cp, entry) ∈ t.entries) ↔ ∃ q ∈ added, q.2.Reaches cp
  /-- The one entry is the rightful owner's for the greatest of its origins there, the override if
  there is one and else the default, with the geometry from the owner's own scale groups. -/
  owned : ∀ cp, (∃ q ∈ added, q.2.Reaches cp) → ∃ p c origin entry,
    rightful? added cp = some (p, c) ∧ t.owner? cp = some p.name ∧
    (origin, cp) ∈ c.pairs ∧ (∀ o, (o, cp) ∈ c.pairs → o ≤ origin) ∧
    (∀ e, (cp, e) ∈ t.entries ↔ e = entry) ∧
    entry = Scaling.scaledBy (p.placement? font c cp)
      (p.attributes.overrides[origin]?.getD p.attributes.default) ∧
    entry.SameButRelative (p.attributes.overrides[origin]?.getD p.attributes.default)
  /-- Patch sets not named Octicons change nothing that the table has. -/
  kept : ∀ (p : PatchSet) (c : Crosswalk) (t' : AttributeTable), p.name ≠ "Octicons" →
    (t.add font p c).outcome = .ok t' →
    ∀ (cp : Codepoint) (claim : Claim), t.claims[cp]? = some claim → t'.claims[cp]? = some claim

/-- Adding patch sets one after another settles who owns what, whatever their names,
crosswalks and scale groups are. -/
theorem addAll_settled (font : Font) (added : List (PatchSet × Crosswalk)) (t : AttributeTable)
    (h : (addAll font .empty added).outcome = .ok t) : Settled font added t := by
  constructor
  case keys => exact fun cp => exists_entry_iff_reached h
  case owned =>
    intro cp hreached
    obtain ⟨p, c, origin, howner, horigin, hclaim⟩ := exists_claim h hreached
    obtain ⟨hmem, hgreatest⟩ := Crosswalk.greatestOrigin?_eq_some horigin
    rw [PatchSetAttributes.entryFor_eq_getD] at hclaim
    refine ⟨p, c, origin, _, howner, by simp [owner?, hclaim], hmem, hgreatest, fun e => ?_, rfl,
      Scaling.scaledBy_sameButRelative _ _⟩
    simp [mem_entries, hclaim, eq_comm]
  case kept => exact fun p c t' hname hadd cp claim => claims_kept hname hadd

/-- Three patch sets, of which the second and the third land where the first does. -/
def contested : List (PatchSet × Crosswalk) :=
  [(Mapping.sampleSet "Pomicons" 1 2, .ofPairs "Pomicons" 0 true [(1, 5), (2, 6)]),
   (Mapping.sampleSet "Font Awesome" 3 3, .ofPairs "Font Awesome" 1 true [(3, 6)]),
   (Mapping.sampleSet "Octicons" 7 8, .ofPairs "Octicons" 2 true [(7, 5), (8, 5)])]

theorem contested_settled : ∃ t, (addAll Mapping.sharedFont .empty contested).outcome = .ok t ∧
    Settled Mapping.sharedFont contested t ∧
    t.owner? 5 = some "Octicons" ∧ t.owner? 6 = some "Pomicons" :=
  ⟨_, rfl, addAll_settled Mapping.sharedFont contested _ rfl, by decide, by decide⟩

end AttributeTable

end IconConstraints
