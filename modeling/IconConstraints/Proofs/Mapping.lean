import IconConstraints.Mapping
import IconConstraints.Proofs.Crosswalk
import IconConstraints.Proofs.Session

/-!
# Accepted mappings

A mapping is accepted patch set by patch set.  After any number of them each
crosswalk made so far is for its own patch set, reaches only codepoints of the
destination font, each at most once, and shares one with an earlier crosswalk
only where a policy settles it.
-/

namespace IconConstraints

variable {σ : Type}

/-! ## One crosswalk -/

namespace Crosswalk

/-- Whether a crosswalk belongs to the patch set at a place of the table. -/
structure IsFor (c : Crosswalk) (index : Nat) (p : PatchSet) : Prop where
  patchSet : c.patchSet = p.name
  index : c.index = index
  exact : c.exact = p.exact

/-- Whether some origin lands at a codepoint. -/
def Reaches (c : Crosswalk) (cp : Codepoint) : Prop :=
  ∃ pair ∈ c.pairs, pair.2 = cp

theorem originMap_exact {origins : OriginFonts σ} {version : String} {p : PatchSet} {s : σ}
    (h : (originMap origins version p s).report.outcome = .ok none) : p.exact = true := by
  unfold originMap at h
  obtain ⟨answer, -, h⟩ := Session.bind_eq_ok.mp h
  rcases answer with e | font | font
  · by_cases hexact : p.exact
    · exact hexact
    · simp [hexact] at h
  · by_cases hexact : p.exact
    · exact hexact
    · simp [hexact] at h
  · simp at h

theorem ofDestination_outcome (destination : Font) (index : Nat) (p : PatchSet) :
    (ofDestination destination index p).outcome = .ok (.ofPairs p.name index true
      ((p.span.filter destination.has).map fun cp => (cp, cp))) := by
  unfold ofDestination
  dsimp only
  split <;> rfl

theorem ofPatchSet_isFor {destination : Font} {origins : OriginFonts σ} {version : String}
    {index : Nat} {p : PatchSet} {s : σ} {c : Crosswalk}
    (h : (ofPatchSet destination origins version index p s).report.outcome = .ok c) :
    c.IsFor index p := by
  unfold ofPatchSet at h
  obtain ⟨origin, horigin, h⟩ := Session.bind_eq_ok.mp h
  cases origin with
  | none =>
      have hexact := originMap_exact horigin
      simp only [Session.outcome_ofReport, ofDestination_outcome] at h
      cases h
      exact ⟨rfl, rfl, hexact.symm⟩
  | some font =>
      simp only [Session.outcome_ofReport, ofOrigin, Report.bind_eq_ok] at h
      obtain ⟨pairs, -, -, -, h⟩ := h
      cases h
      exact ⟨rfl, rfl, rfl⟩

/-- All that the crosswalk of a patch set is computed from. -/
theorem ofPatchSet_congr {destination destination' : Font} {origins : OriginFonts σ}
    {version : String} {index : Nat} {p q : PatchSet}
    (hfont : destination.has = destination'.has) (hname : p.name = q.name)
    (hexact : p.exact = q.exact) (hfilename : p.filename = q.filename)
    (hspan : p.span = q.span) (hstart : p.srcStart = q.srcStart) :
    ofPatchSet destination origins version index p =
      ofPatchSet destination' origins version index q := by
  have hleft : isLeftToStandIn destination p = isLeftToStandIn destination' q := by
    funext pair
    simp only [isLeftToStandIn, hname, hfont]
  simp only [ofPatchSet, originMap, ofDestination, ofOrigin, layOut, hleft, hfont, hname,
    hexact, hfilename, hspan, hstart]

end Crosswalk

theorem SnapshotEntry.toCrosswalk_isFor {entry : SnapshotEntry} {index : Nat} {p : PatchSet}
    (h : entry.isFor index p.name p.exact = true) : entry.toCrosswalk.IsFor index p := by
  simp only [isFor, Bool.and_eq_true, beq_iff_eq] at h
  obtain ⟨⟨hindex, hname⟩, hexact⟩ := h
  exact ⟨hname, hindex, hexact⟩

theorem Snapshot.reusable?_eq_some {s : Snapshot} {version : String} {index : Nat}
    {name : String} {exact : Bool} {entry : SnapshotEntry}
    (h : s.reusable? version index name exact = some entry) :
    s.version = version ∧ entry ∈ s.entries ∧ entry.isFor index name exact = true := by
  unfold reusable? at h
  split at h
  case isTrue hversion =>
    have hisFor := List.find?_some (p := fun e : SnapshotEntry => e.isFor index name exact) h
    exact ⟨hversion, List.mem_of_find?_eq_some h, hisFor⟩
  case isFalse => simp at h

namespace Mapping

variable {destination : Font} {origins : OriginFonts σ} {version : String}
  {patchSets : List PatchSet} {previous : Option Snapshot}

/-- Where the crosswalk of a patch set comes from: the stored snapshot, or else
its origin font. -/
def Supplied (destination : Font) (origins : OriginFonts σ) (version : String)
    (previous : Option Snapshot) (index : Nat) (p : PatchSet) (c : Crosswalk) : Prop :=
  (∃ entry, previous.bind (·.reusable? version index p.name p.exact) = some entry ∧
    c = entry.toCrosswalk) ∨
  ∃ s, (Crosswalk.ofPatchSet destination origins version index p s).report.outcome = .ok c

theorem Supplied.isFor {index : Nat} {p : PatchSet} {c : Crosswalk}
    (h : Supplied destination origins version previous index p c) : c.IsFor index p := by
  rcases h with ⟨entry, hentry, rfl⟩ | ⟨s, hs⟩
  · obtain ⟨snapshot, -, hreusable⟩ := Option.bind_eq_some_iff.mp hentry
    exact SnapshotEntry.toCrosswalk_isFor (Snapshot.reusable?_eq_some hreusable).2.2
  · exact Crosswalk.ofPatchSet_isFor hs

/-- How a run comes by the crosswalk of a patch set, with the mark whether it was
stored. -/
inductive Obtained (destination : Font) (origins : OriginFonts σ) (version : String)
    (previous : Option Snapshot) (index : Nat) (p : PatchSet) : Crosswalk × Bool → Prop
  | stored {entry : SnapshotEntry}
      (hentry : previous.bind (·.reusable? version index p.name p.exact) = some entry) :
      Obtained destination origins version previous index p (entry.toCrosswalk, true)
  | computed {c : Crosswalk} {s : σ}
      (hmissing : previous.bind (·.reusable? version index p.name p.exact) = none)
      (hmade : (Crosswalk.ofPatchSet destination origins version index p s).report.outcome =
        .ok c) :
      Obtained destination origins version previous index p (c, false)

theorem Obtained.supplied {index : Nat} {p : PatchSet} {made : Crosswalk × Bool}
    (h : Obtained destination origins version previous index p made) :
    Supplied destination origins version previous index p made.1 := by
  cases h with
  | stored hentry => exact .inl ⟨_, hentry, rfl⟩
  | computed _ hmade => exact .inr ⟨_, hmade⟩

theorem nextCrosswalk_eq_ok {index : Nat} {p : PatchSet} {s : σ} {made : Crosswalk × Bool}
    (h : (nextCrosswalk destination origins version previous index p s).report.outcome =
      .ok made) :
    Obtained destination origins version previous index p made := by
  unfold nextCrosswalk at h
  cases hstored : previous.bind (·.reusable? version index p.name p.exact) with
  | some entry =>
      rw [hstored] at h
      obtain ⟨-, -, h⟩ := Session.bind_eq_ok.mp h
      cases h
      exact .stored hstored
  | none =>
      rw [hstored] at h
      obtain ⟨c, hc, h⟩ := Session.bind_eq_ok.mp h
      cases h
      exact .computed hstored hc

/-! ## Properties of all stages -/

section Closed

variable {P : ∀ ⦃α : Type⦄, Session σ α → Prop} (hP : Session.Closed P)
  (hrequest : ∀ filename, P (origins.request version filename).attempt)

include hP hrequest

theorem originMap_closed (p : PatchSet) : P (Crosswalk.originMap origins version p) := by
  unfold Crosswalk.originMap
  refine hP.bind (hrequest p.filename) fun answer => ?_
  rcases answer with e | font | font
  · dsimp only
    split
    case isTrue => exact hP.bind (hP.ofReport _) fun _ => hP.pure _
    case isFalse => exact hP.ofReport _
  · dsimp only
    split
    case isTrue => exact hP.bind (hP.ofReport _) fun _ => hP.pure _
    case isFalse => exact hP.ofReport _
  · exact hP.pure _

theorem ofPatchSet_closed (index : Nat) (p : PatchSet) :
    P (Crosswalk.ofPatchSet destination origins version index p) := by
  unfold Crosswalk.ofPatchSet
  refine hP.bind (originMap_closed hP hrequest p) fun origin => ?_
  cases origin with
  | none => exact hP.ofReport _
  | some font => exact hP.ofReport _

theorem nextCrosswalk_closed (index : Nat) (p : PatchSet) :
    P (nextCrosswalk destination origins version previous index p) := by
  unfold nextCrosswalk
  split
  case h_1 => exact hP.bind (hP.ofReport _) fun _ => hP.pure _
  case h_2 => exact hP.bind (ofPatchSet_closed hP hrequest index p) fun _ => hP.pure _

theorem step_closed (index : Nat) (p : PatchSet) (done : Progress) :
    P (step destination origins version patchSets previous index p done) := by
  unfold step
  refine hP.bind (nextCrosswalk_closed hP hrequest index p) fun made => ?_
  exact hP.bind (hP.ofReport _) fun _ => hP.bind (hP.ofReport _) fun _ => hP.pure _

theorem steps_closed (index : Nat) (rest : List PatchSet) (done : Progress) :
    P (steps destination origins version patchSets previous index rest done) := by
  induction rest generalizing index done with
  | nil => exact hP.pure done
  | cons p rest ih =>
      unfold steps
      exact hP.bind (step_closed hP hrequest index p done) fun next => ih (index + 1) next

theorem ofPatchSets_closed :
    P (ofPatchSets destination origins version patchSets previous) := by
  unfold ofPatchSets
  exact hP.bind (steps_closed hP hrequest 0 patchSets .start) fun _ => hP.pure _

end Closed

/-! ## Claims -/

/-- What it takes for a crosswalk to claim the destinations of its pairs, and
what is claimed afterwards. -/
structure Claims (destination : Font) (c : Crosswalk) (claimed : Claimed)
    (pairs : List (Codepoint × Codepoint)) (after : Claimed) : Prop where
  present : ∀ pair ∈ pairs, destination.has pair.2 = true
  distinct : pairs.Pairwise fun a b => a.2 ≠ b.2
  foreign : ∀ pair ∈ pairs, claimed[pair.2]? ≠ some c.index
  settled : ∀ pair ∈ pairs, claimed[pair.2]? ≠ none →
    (overlapPolicy? c.patchSet .patchSetMerge).isSome = true
  kept : ∀ cp, (∀ pair ∈ pairs, pair.2 ≠ cp) → after[cp]? = claimed[cp]?
  taken : ∀ pair ∈ pairs, after[pair.2]? = some c.index

theorem Claims.cons {c : Crosswalk} {claimed after : Claimed} {origin cp : Codepoint}
    {rest : List (Codepoint × Codepoint)}
    (h : Claims destination c (claimed.insert cp c.index) rest after)
    (hpresent : destination.has cp = true) (hforeign : claimed[cp]? ≠ some c.index)
    (hsettled : claimed[cp]? ≠ none →
      (overlapPolicy? c.patchSet .patchSetMerge).isSome = true) :
    Claims destination c claimed ((origin, cp) :: rest) after := by
  have hnot : ∀ pair ∈ rest, cp ≠ pair.2 := by
    intro pair hpair heq
    apply h.foreign pair hpair
    simp [heq]
  have hsame : ∀ pair ∈ rest, (claimed.insert cp c.index)[pair.2]? = claimed[pair.2]? := by
    intro pair hpair
    simp [Std.ExtTreeMap.getElem?_insert, hnot pair hpair]
  constructor
  case present => simpa using ⟨hpresent, fun a b hab => h.present (a, b) hab⟩
  case distinct => exact List.pairwise_cons.mpr ⟨hnot, h.distinct⟩
  case foreign =>
    intro pair hpair
    rcases List.mem_cons.mp hpair with rfl | hpair
    · exact hforeign
    · rw [← hsame pair hpair]
      exact h.foreign pair hpair
  case settled =>
    intro pair hpair
    rcases List.mem_cons.mp hpair with rfl | hpair
    · exact hsettled
    · rw [← hsame pair hpair]
      exact h.settled pair hpair
  case kept =>
    intro x hx
    have hne : cp ≠ x := hx (origin, cp) (by simp)
    rw [h.kept x fun pair hpair => hx pair (by simp [hpair])]
    simp [Std.ExtTreeMap.getElem?_insert, hne]
  case taken =>
    intro pair hpair
    rcases List.mem_cons.mp hpair with rfl | hpair
    · rw [h.kept cp fun pair hpair => (hnot pair hpair).symm]
      simp
    · exact h.taken pair hpair

theorem claim_eq_ok {c : Crosswalk} {pairs : List (Codepoint × Codepoint)}
    {claimed after : Claimed} {events : List Event}
    (h : (claim destination patchSets c claimed events pairs).outcome = .ok after) :
    Claims destination c claimed pairs after := by
  induction pairs generalizing claimed events with
  | nil =>
      cases h
      exact ⟨by simp, .nil, by simp, by simp, by simp, by simp⟩
  | cons pair rest ih =>
      obtain ⟨origin, cp⟩ := pair
      unfold claim at h
      dsimp only at h
      split at h
      case isFalse => simp at h
      case isTrue hpresent =>
        split at h
        case h_1 hfree => exact (ih h).cons hpresent (by simp [hfree]) (by simp [hfree])
        case h_2 earlier htaken =>
          split at h
          case isFalse => simp at h
          case isTrue hpolicy =>
            refine (ih h).cons hpresent ?_ fun _ => hpolicy.2
            rw [htaken]
            simpa using hpolicy.1

/-! ## All crosswalks -/

/-- What holds of the crosswalks made for the first patch sets of a table. -/
structure Accepted (destination : Font) (origins : OriginFonts σ) (version : String)
    (patchSets : List PatchSet) (previous : Option Snapshot) (made : Nat) (done : Progress) :
    Prop where
  length : done.crosswalks.length = made
  supplied : ∀ i c p, done.crosswalks.reverse[i]? = some c → patchSets[i]? = some p →
    Supplied destination origins version previous i p c
  present : ∀ c ∈ done.crosswalks, ∀ cp, c.Reaches cp → destination.has cp = true
  distinct : ∀ c ∈ done.crosswalks, c.pairs.Pairwise fun a b => a.2 ≠ b.2
  claimed : ∀ c ∈ done.crosswalks, ∀ cp, c.Reaches cp → done.claimed[cp]? ≠ none
  settled : done.crosswalks.Pairwise fun later earlier =>
    ∀ cp, later.Reaches cp → earlier.Reaches cp →
      (overlapPolicy? later.patchSet .patchSetMerge).isSome = true

theorem Accepted.start :
    Accepted destination origins version patchSets previous 0 .start :=
  ⟨rfl, by simp [Progress.start], by simp [Progress.start], by simp [Progress.start],
    by simp [Progress.start], .nil⟩

theorem step_eq_ok {index : Nat} {p : PatchSet} {done next : Progress} {s : σ}
    (h : (step destination origins version patchSets previous index p done s).report.outcome =
      .ok next) :
    ∃ c stored, Obtained destination origins version previous index p (c, stored) ∧
      (claim destination patchSets c done.claimed [] c.pairs).outcome = .ok next.claimed ∧
      next.crosswalks = c :: done.crosswalks ∧
      next.reused = (if stored then done.reused + 1 else done.reused) ∧
      next.computed = if stored then done.computed else done.computed + 1 := by
  unfold step at h
  obtain ⟨⟨c, stored⟩, hc, h⟩ := Session.bind_eq_ok.mp h
  obtain ⟨claimed, hclaimed, h⟩ := Session.bind_eq_ok.mp h
  obtain ⟨-, -, h⟩ := Session.bind_eq_ok.mp h
  cases h
  exact ⟨c, stored, nextCrosswalk_eq_ok hc, hclaimed, rfl, rfl, rfl⟩

theorem Accepted.step {made : Nat} {p : PatchSet} {done next : Progress} {s : σ}
    (haccepted : Accepted destination origins version patchSets previous made done)
    (hp : patchSets[made]? = some p)
    (h : (step destination origins version patchSets previous made p done s).report.outcome =
      .ok next) :
    Accepted destination origins version patchSets previous (made + 1) next := by
  obtain ⟨c, stored, hobtained, hclaim, hcrosswalks, -⟩ := step_eq_ok h
  have hclaims := claim_eq_ok hclaim
  constructor
  case length => simp [hcrosswalks, haccepted.length]
  case supplied =>
    intro i d q hd hq
    rw [hcrosswalks, List.reverse_cons] at hd
    rcases Nat.lt_or_ge i made with hi | hi
    · rw [List.getElem?_append_left (by simpa [haccepted.length] using hi)] at hd
      exact haccepted.supplied i d q hd hq
    · rw [List.getElem?_append_right (by simpa [haccepted.length] using hi)] at hd
      obtain ⟨hlast, rfl⟩ : i = made ∧ c = d := by
        simp [haccepted.length, List.getElem?_singleton] at hd
        exact ⟨by omega, hd.2⟩
      subst hlast
      rw [hp] at hq
      cases hq
      exact hobtained.supplied
  case present =>
    intro d hd cp hcp
    rw [hcrosswalks] at hd
    rcases List.mem_cons.mp hd with rfl | hd
    · obtain ⟨pair, hpair, rfl⟩ := hcp
      exact hclaims.present pair hpair
    · exact haccepted.present d hd cp hcp
  case distinct =>
    intro d hd
    rw [hcrosswalks] at hd
    rcases List.mem_cons.mp hd with rfl | hd
    · exact hclaims.distinct
    · exact haccepted.distinct d hd
  case claimed =>
    intro d hd cp hcp
    rw [hcrosswalks] at hd
    by_cases hreached : c.Reaches cp
    · obtain ⟨pair, hpair, rfl⟩ := hreached
      simp [hclaims.taken pair hpair]
    · have hkept : next.claimed[cp]? = done.claimed[cp]? :=
        hclaims.kept cp fun pair hpair heq => hreached ⟨pair, hpair, heq⟩
      rw [hkept]
      rcases List.mem_cons.mp hd with rfl | hd
      · exact absurd hcp hreached
      · exact haccepted.claimed d hd cp hcp
  case settled =>
    rw [hcrosswalks]
    refine List.pairwise_cons.mpr ⟨?_, haccepted.settled⟩
    rintro d hd cp ⟨pair, hpair, rfl⟩ hcp
    exact hclaims.settled pair hpair (haccepted.claimed d hd pair.2 hcp)

theorem Accepted.steps {rest : List PatchSet} {made : Nat} {done last : Progress} {s : σ}
    (haccepted : Accepted destination origins version patchSets previous made done)
    (hrest : patchSets.drop made = rest)
    (h : (steps destination origins version patchSets previous made rest done s).report.outcome =
      .ok last) :
    Accepted destination origins version patchSets previous (made + rest.length) last := by
  induction rest generalizing made done s with
  | nil =>
      cases h
      exact haccepted
  | cons p rest ih =>
      have hp : patchSets[made]? = some p := by
        rw [← List.head?_drop, hrest]
        rfl
      have hdrop : patchSets.drop (made + 1) = rest := by
        rw [← List.drop_drop, hrest]
        rfl
      unfold Mapping.steps at h
      obtain ⟨next, hnext, h⟩ := Session.bind_eq_ok.mp h
      have hlast := ih (haccepted.step hp hnext) hdrop h
      rwa [Nat.add_right_comm] at hlast

theorem ofPatchSets_eq_ok {s : σ} {mapping : Mapping}
    (h : (ofPatchSets destination origins version patchSets previous s).report.outcome =
      .ok mapping) :
    ∃ done, Accepted destination origins version patchSets previous patchSets.length done ∧
      mapping.crosswalks = done.crosswalks.reverse ∧
      ∀ snapshot, mapping.snapshot = some snapshot →
        snapshot = .ofCrosswalks version mapping.crosswalks := by
  unfold ofPatchSets at h
  obtain ⟨done, hdone, h⟩ := Session.bind_eq_ok.mp h
  cases h
  refine ⟨done, ?_, rfl, ?_⟩
  · simpa using Accepted.start.steps (List.drop_zero) hdone
  · intro snapshot hsnapshot
    dsimp only at hsnapshot
    split at hsnapshot
    case isTrue => exact (Option.some.inj hsnapshot).symm
    case isFalse => cases hsnapshot

/-- What an accepted mapping promises of its crosswalks. -/
structure Sound (destination : Font) (patchSets : List PatchSet) (m : Mapping) : Prop where
  length : m.crosswalks.length = patchSets.length
  isFor : ∀ (i : Nat) (c : Crosswalk) (p : PatchSet), m.crosswalks[i]? = some c →
    patchSets[i]? = some p → c.IsFor i p
  present : ∀ c ∈ m.crosswalks, ∀ pair ∈ c.pairs, destination.has pair.2 = true
  ascending : ∀ c ∈ m.crosswalks, c.pairs.Pairwise fun a b => a.1 < b.1
  distinct : ∀ c ∈ m.crosswalks, c.pairs.Pairwise fun a b => a.2 ≠ b.2
  /-- Of two crosswalks that share a destination the later one's patch set has a policy. -/
  settled : ∀ (i j : Nat) (c d : Crosswalk) (q : PatchSet), i < j →
    m.crosswalks[i]? = some c → m.crosswalks[j]? = some d → patchSets[j]? = some q →
    ∀ cp, c.Reaches cp → d.Reaches cp →
      (overlapPolicy? q.name .patchSetMerge).isSome = true

theorem Accepted.sound {done : Progress} {m : Mapping}
    (haccepted : Accepted destination origins version patchSets previous patchSets.length done)
    (hcrosswalks : m.crosswalks = done.crosswalks.reverse) : Sound destination patchSets m := by
  have hmem : ∀ c ∈ m.crosswalks, c ∈ done.crosswalks := by
    intro c hc
    simpa [hcrosswalks] using hc
  have hisFor : ∀ (i : Nat) (c : Crosswalk) (p : PatchSet), m.crosswalks[i]? = some c →
      patchSets[i]? = some p → c.IsFor i p := by
    intro i c p hc hp
    rw [hcrosswalks] at hc
    exact (haccepted.supplied i c p hc hp).isFor
  constructor
  case length => rw [hcrosswalks, List.length_reverse, haccepted.length]
  case isFor => exact hisFor
  case present =>
    intro c hc pair hpair
    exact haccepted.present c (hmem c hc) pair.2 ⟨pair, hpair, rfl⟩
  case ascending => exact fun c _ => c.pairs_ordered
  case distinct => exact fun c hc => haccepted.distinct c (hmem c hc)
  case settled =>
    intro i j c d q hij hc hd hq cp hcp hdcp
    have hpairwise := List.pairwise_reverse.mpr haccepted.settled
    rw [← hcrosswalks, List.pairwise_iff_getElem] at hpairwise
    obtain ⟨hi, rfl⟩ := List.getElem?_eq_some_iff.mp hc
    obtain ⟨hj, rfl⟩ := List.getElem?_eq_some_iff.mp hd
    rw [← (hisFor j _ q hd hq).patchSet]
    exact hpairwise i j hi hj hij cp hdcp hcp

/-- Whatever the origin fonts answer and whatever snapshot is found, a mapping that
is accepted is sound. -/
theorem ofPatchSets_sound (destination : Font) (origins : OriginFonts σ) (version : String)
    (patchSets : List PatchSet) (previous : Option Snapshot) (s : σ) (m : Mapping)
    (h : (ofPatchSets destination origins version patchSets previous s).report.outcome = .ok m) :
    Sound destination patchSets m := by
  obtain ⟨_, haccepted, hcrosswalks, -⟩ := ofPatchSets_eq_ok h
  exact haccepted.sound hcrosswalks

/-- An exact patch set with the span from `first` to `last`. -/
def sampleSet (name : String) (first last : Codepoint) : PatchSet :=
  ⟨name, name, true, first, last, none, none, ⟨.unset, ∅⟩⟩

/-- Two patch sets that share a codepoint, which Octicons may overwrite. -/
def sharingSets : List PatchSet :=
  [sampleSet "Pomicons" 1 2, sampleSet "Octicons" 2 3]

def sharedFont : Font :=
  .ofGlyphs (Std.ExtTreeMap.ofList ([1, 2, 3].map fun cp => (cp, Font.Glyph.mk none none)))

/-- Both patch sets have the destination font for their origin font. -/
def sharedOrigins : OriginFonts Unit :=
  ⟨fun _ _ => pure (some sharedFont)⟩

theorem sharing_sound : ∃ m,
    (ofPatchSets sharedFont sharedOrigins "1" sharingSets none ()).report.outcome = .ok m ∧
      m.crosswalks.map Crosswalk.pairs = [[(1, 1), (2, 2)], [(2, 2), (3, 3)]] ∧
      Sound sharedFont sharingSets m :=
  ⟨_, rfl, by decide, ofPatchSets_sound sharedFont sharedOrigins "1" sharingSets none () _ rfl⟩

end Mapping

end IconConstraints
