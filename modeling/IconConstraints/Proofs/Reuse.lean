import Mathlib.Data.List.Forall2
import IconConstraints.Proofs.Mapping

/-!
# Mappings from stored crosswalks

A mapping is the list of the crosswalks that it came by, each taken from the
snapshot or computed, and the claims of their destinations.  After an accepted
mapping the snapshot to be found in the store is current: it offers each of these
crosswalks again.  A mapping that finds a current snapshot takes all crosswalks from
it and does not look at origin fonts.
-/

namespace IconConstraints

variable {σ : Type}

namespace Mapping

variable {destination : Font} {origins : OriginFonts σ} {version : String}
  {patchSets rest : List PatchSet} {previous : Option Snapshot} {crosswalks : List Crosswalk}
  {index : Nat} {done last : Progress} {claimed : Claimed} {m : Mapping}

/-- The claims of several crosswalks, one after another. -/
def claimAll (destination : Font) (patchSets : List PatchSet) :
    Claimed → List Crosswalk → Except Error Claimed
  | claimed, [] => .ok claimed
  | claimed, c :: rest =>
    match (claim destination patchSets c claimed [] c.pairs).outcome with
    | .error e => .error e
    | .ok claimed => claimAll destination patchSets claimed rest

/-! ## What a mapping is made of -/

theorem steps_eq_ok {s : σ}
    (h : (steps destination origins version patchSets previous index rest done s).report.outcome =
      .ok last) :
    ∃ made, List.Forall₂ (fun q => Obtained destination origins version previous q.2 q.1)
        (rest.zipIdx index) made ∧
      claimAll destination patchSets done.claimed (made.map (·.1)) = .ok last.claimed ∧
      last.crosswalks.reverse = done.crosswalks.reverse ++ made.map (·.1) ∧
      last.reused = done.reused + made.countP (·.2) ∧
      last.computed = done.computed + made.countP (!·.2) := by
  induction rest generalizing index done s with
  | nil =>
      cases h
      exact ⟨[], .nil, rfl, by simp, rfl, rfl⟩
  | cons p rest ih =>
      unfold steps at h
      obtain ⟨next, hnext, h⟩ := Session.bind_eq_ok.mp h
      obtain ⟨c, stored, hobtained, hclaim, hcrosswalks, hreused, hcomputed⟩ := step_eq_ok hnext
      obtain ⟨made, hmade, hclaims, hlast, hlastReused, hlastComputed⟩ := ih h
      refine ⟨(c, stored) :: made, .cons hobtained hmade, ?_, ?_, ?_, ?_⟩
      · simp only [List.map_cons, claimAll, hclaim]
        exact hclaims
      · simp [hlast, hcrosswalks]
      · cases stored <;> simp [hlastReused, hreused, Nat.add_assoc, Nat.add_comm]
      · cases stored <;> simp [hlastComputed, hcomputed, Nat.add_assoc, Nat.add_comm]

theorem isStale_eq_false (h : isStale version previous done = false) :
    done.computed = 0 ∧ ∃ s, previous = some s ∧ s.version = version ∧
      s.entries.length = done.crosswalks.length := by
  simp only [isStale, Bool.or_eq_false_iff, decide_eq_false_iff_not, Nat.not_lt,
    Nat.le_zero] at h
  obtain ⟨hcomputed, h⟩ := h
  cases previous with
  | none => cases h
  | some s =>
      simp only [Bool.or_eq_false_iff, bne_eq_false_iff_eq] at h
      exact ⟨hcomputed, s, rfl, h.1, h.2⟩

/-- A mapping keeps the snapshot that it found only if it is of the same version and
size and every crosswalk was taken from it. -/
theorem ofPatchSets_made {s : σ}
    (h : (ofPatchSets destination origins version patchSets previous s).report.outcome = .ok m) :
    ∃ made, List.Forall₂ (fun q => Obtained destination origins version previous q.2 q.1)
        patchSets.zipIdx made ∧
      (∃ claimed, claimAll destination patchSets ∅ m.crosswalks = .ok claimed) ∧
      m.crosswalks = made.map (·.1) ∧
      m.reused = made.countP (·.2) ∧ m.computed = made.countP (!·.2) ∧
      (m.snapshot = some (.ofCrosswalks version m.crosswalks) ∨
        m.snapshot = none ∧ m.computed = 0 ∧ ∃ stored, previous = some stored ∧
          stored.version = version ∧ stored.entries.length = m.crosswalks.length) := by
  unfold ofPatchSets at h
  obtain ⟨done, hdone, h⟩ := Session.bind_eq_ok.mp h
  cases h
  obtain ⟨made, hmade, hclaims, hcrosswalks, hreused, hcomputed⟩ := steps_eq_ok hdone
  simp only [Progress.start, List.reverse_nil, List.nil_append] at hcrosswalks
  simp only [Progress.start, Nat.zero_add] at hreused hcomputed
  refine ⟨made, hmade, ⟨done.claimed, hcrosswalks ▸ hclaims⟩, hcrosswalks, hreused, hcomputed, ?_⟩
  cases hstale : isStale version previous done with
  | true => exact .inl rfl
  | false =>
      obtain ⟨hzero, stored, hprevious, hversion, hlength⟩ := isStale_eq_false hstale
      exact .inr ⟨rfl, hzero, stored, hprevious, hversion, by simp [hlength]⟩

end Mapping

/-! ## Current snapshots -/

namespace Snapshot

variable {version : String} {index : Nat} {patchSets rest : List PatchSet}
  {crosswalks : List Crosswalk} {stored : Snapshot}

/-- The snapshot gives these crosswalks for the patch sets of a table, the first of
which is at `index`. -/
def Offers (stored : Snapshot) (version : String) (index : Nat) (rest : List PatchSet)
    (crosswalks : List Crosswalk) : Prop :=
  List.Forall₂ (fun q c => ∃ entry,
    stored.reusable? version q.2 q.1.name q.1.exact = some entry ∧ entry.toCrosswalk = c)
    (rest.zipIdx index) crosswalks

/-- The snapshot is that of a run which used these crosswalks, as far as later runs
can tell. -/
structure IsCurrent (stored : Snapshot) (version : String) (patchSets : List PatchSet)
    (crosswalks : List Crosswalk) : Prop where
  offers : stored.Offers version 0 patchSets crosswalks
  version : stored.version = version
  length : stored.entries.length = patchSets.length

theorem Offers.exists_entry (h : stored.Offers version index rest crosswalks) {i : Nat}
    {p : PatchSet} (hp : rest[i]? = some p) :
    ∃ entry, stored.reusable? version (index + i) p.name p.exact = some entry ∧
      crosswalks[i]? = some entry.toCrosswalk := by
  obtain ⟨hlength, hget⟩ := List.forall₂_iff_get.mp h
  obtain ⟨hi, rfl⟩ := List.getElem?_eq_some_iff.mp hp
  have hzip : i < (rest.zipIdx index).length := by rwa [List.length_zipIdx]
  obtain ⟨entry, hentry, hc⟩ := hget i hzip (hlength ▸ hzip)
  refine ⟨entry, by simpa using hentry, ?_⟩
  rw [hc]
  exact List.getElem?_eq_getElem _

/-- An entry is found by its place alone, so no other one is found in its stead. -/
theorem reusable?_ofCrosswalks {p : PatchSet} {c : Crosswalk}
    (hindex : ∀ (i : Nat) (c : Crosswalk), crosswalks[i]? = some c → c.index = i)
    (hc : crosswalks[index]? = some c) (hisFor : c.IsFor index p) :
    (ofCrosswalks version crosswalks).reusable? version index p.name p.exact =
      some (.ofCrosswalk c) := by
  have hfound : ((crosswalks.map SnapshotEntry.ofCrosswalk).find?
      (·.isFor index p.name p.exact)).isSome = true := by
    rw [List.find?_isSome]
    refine ⟨.ofCrosswalk c, List.mem_map.mpr ⟨c, List.mem_of_getElem? hc, rfl⟩, ?_⟩
    simp [SnapshotEntry.isFor, SnapshotEntry.ofCrosswalk, hisFor.index, hisFor.patchSet,
      hisFor.exact]
  obtain ⟨entry, hentry⟩ := Option.isSome_iff_exists.mp hfound
  obtain ⟨d, hd, rfl⟩ := List.mem_map.mp (List.mem_of_find?_eq_some hentry)
  have hfor : (SnapshotEntry.ofCrosswalk d).isFor index p.name p.exact = true :=
    List.find?_some (p := fun e : SnapshotEntry => e.isFor index p.name p.exact) hentry
  have hplace : d.index = index := (SnapshotEntry.toCrosswalk_isFor hfor).index
  obtain ⟨i, hi⟩ := List.getElem?_of_mem hd
  have heq : i = index := (hindex i d hi).symm.trans hplace
  rw [heq, hc] at hi
  cases hi
  unfold reusable?
  exact (if_pos rfl).trans hentry

end Snapshot

namespace Mapping

variable {destination : Font} {origins : OriginFonts σ} {version : String}
  {patchSets rest : List PatchSet} {previous : Option Snapshot} {crosswalks : List Crosswalk}
  {index : Nat} {done : Progress} {claimed : Claimed} {m : Mapping} {stored : Snapshot}

theorem Sound.ofCrosswalks_isCurrent (h : Sound destination patchSets m) :
    (Snapshot.ofCrosswalks version m.crosswalks).IsCurrent version patchSets m.crosswalks := by
  have hindex : ∀ (i : Nat) (c : Crosswalk), m.crosswalks[i]? = some c → c.index = i := by
    intro i c hc
    have hi : i < patchSets.length := h.length ▸ (List.getElem?_eq_some_iff.mp hc).1
    exact (h.isFor i c _ hc (List.getElem?_eq_getElem hi)).index
  refine ⟨?_, rfl, by simp [Snapshot.ofCrosswalks, h.length]⟩
  refine List.forall₂_iff_get.mpr ⟨by simp [h.length], ?_⟩
  intro i hi hi'
  rw [List.length_zipIdx] at hi
  have hp : patchSets[i]? = some patchSets[i] := List.getElem?_eq_getElem hi
  have hc : m.crosswalks[i]? = some m.crosswalks[i] := List.getElem?_eq_getElem hi'
  refine ⟨.ofCrosswalk m.crosswalks[i], ?_, by simp⟩
  simpa using Snapshot.reusable?_ofCrosswalks hindex hc (h.isFor i _ _ hc hp)

theorem offers_of_obtained {made : List (Crosswalk × Bool)}
    (hmade : List.Forall₂ (fun q => Obtained destination origins version (some stored) q.2 q.1)
      (rest.zipIdx index) made)
    (hstored : made.countP (!·.2) = 0) :
    stored.Offers version index rest (made.map (·.1)) := by
  have hall : ∀ c ∈ made, c.2 = true := by simpa [List.countP_eq_zero] using hstored
  clear hstored
  unfold Snapshot.Offers
  generalize rest.zipIdx index = places at hmade ⊢
  induction hmade with
  | nil => exact .nil
  | cons hobtained _ ih =>
      refine .cons ?_ (ih fun c hc => hall c (by simp [hc]))
      cases hobtained with
      | stored hentry => exact ⟨_, hentry, rfl⟩
      | computed => simp at hall

/-- What a later run finds after an accepted mapping. -/
theorem ofPatchSets_isCurrent {s : σ}
    (h : (ofPatchSets destination origins version patchSets previous s).report.outcome = .ok m) :
    ∃ stored, m.snapshot.or previous = some stored ∧
      stored.IsCurrent version patchSets m.crosswalks := by
  obtain ⟨_, haccepted, hlast, -⟩ := ofPatchSets_eq_ok h
  have hsound := haccepted.sound hlast
  obtain ⟨made, hmade, -, hcrosswalks, -, hcomputed, hsnapshot⟩ := ofPatchSets_made h
  -- A new snapshot offers what it was made of.  The one found stays only if nothing was
  -- computed, and then it has offered every crosswalk already.
  rcases hsnapshot with hnew | ⟨hkept, hzero, stored, rfl, hversion, hlength⟩
  · exact ⟨_, by rw [hnew]; rfl, hsound.ofCrosswalks_isCurrent⟩
  · refine ⟨stored, by rw [hkept]; rfl, ?_, hversion, hlength.trans hsound.length⟩
    rw [hcrosswalks]
    exact offers_of_obtained hmade (hcomputed.symm.trans hzero)

/-! ## Mapping again -/

theorem step_of_stored {p : PatchSet} {entry : SnapshotEntry}
    (hentry : stored.reusable? version index p.name p.exact = some entry)
    (hclaim : (claim destination patchSets entry.toCrosswalk done.claimed []
      entry.toCrosswalk.pairs).outcome = .ok claimed) (s : σ) :
    (step destination origins version patchSets (some stored) index p done).Ends s
      (.ok ⟨entry.toCrosswalk :: done.crosswalks, claimed, done.reused + 1, done.computed⟩) s := by
  have hnext : (nextCrosswalk destination origins version (some stored) index p).Ends s
      (.ok (entry.toCrosswalk, true)) s := by
    have hsome : (some stored).bind (·.reusable? version index p.name p.exact) = some entry :=
      hentry
    unfold nextCrosswalk
    rw [hsome]
    exact (Session.ends_ofReport _ s).bind (Session.ends_pure _ s)
  unfold step
  exact hnext.bind (Session.Ends.bind ⟨hclaim, rfl⟩
    ((Session.ends_ofReport _ s).bind (Session.ends_pure _ s)))

theorem steps_of_offers (origins : OriginFonts σ) (done : Progress)
    (hoffers : stored.Offers version index rest crosswalks)
    (hclaims : claimAll destination patchSets done.claimed crosswalks = .ok claimed) (s : σ) :
    (steps destination origins version patchSets (some stored) index rest done).Ends s
      (.ok ⟨crosswalks.reverse ++ done.crosswalks, claimed, done.reused + rest.length,
        done.computed⟩) s := by
  induction rest generalizing index crosswalks done with
  | nil =>
      cases hoffers
      cases hclaims
      exact Session.ends_pure done s
  | cons p rest ih =>
      unfold Snapshot.Offers at hoffers
      rw [List.zipIdx_cons] at hoffers
      cases hoffers with
      | cons hfirst hrest =>
          obtain ⟨entry, hentry, rfl⟩ := hfirst
          unfold claimAll at hclaims
          split at hclaims
          case h_1 => cases hclaims
          case h_2 next hclaim =>
            unfold steps
            refine (step_of_stored hentry hclaim s).bind ?_
            have hlast := ih ⟨entry.toCrosswalk :: done.crosswalks, next, done.reused + 1,
              done.computed⟩ hrest hclaims
            simpa [Nat.add_assoc, Nat.add_comm 1] using hlast

/-- With a current snapshot all crosswalks are reused and nothing is left to store;
the state of the origin fonts stays as it is. -/
theorem ofPatchSets_of_isCurrent (origins : OriginFonts σ)
    (hcurrent : stored.IsCurrent version patchSets crosswalks)
    (hclaims : claimAll destination patchSets ∅ crosswalks = .ok claimed) (s : σ) :
    (ofPatchSets destination origins version patchSets (some stored)).Ends s
      (.ok ⟨crosswalks, none, patchSets.length, 0⟩) s := by
  have hsteps := steps_of_offers origins .start hcurrent.offers hclaims s
  have hlength : crosswalks.length = patchSets.length := by
    simpa using hcurrent.offers.length_eq.symm
  unfold ofPatchSets
  refine hsteps.bind ?_
  simpa [isStale, Progress.start, hcurrent.version, hcurrent.length, hlength] using
    Session.ends_pure _ s

end Mapping

end IconConstraints
