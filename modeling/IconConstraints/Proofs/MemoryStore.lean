import IconConstraints.Compilation
import IconConstraints.Proofs.Mapping

/-!
# Mapping on a store in memory

With fixed answers to the requests for origin fonts, the mapping comes to the
same on every store and leaves the snapshot alone.  A snapshot is faithful if
whatever it offers is what would be computed; then the crosswalks are those made
without a snapshot.
-/

namespace IconConstraints

namespace MemoryStore

variable {α β : Type}

/-! ## Sessions that do not depend on the store -/

/-- What a session comes to on an empty store. -/
def result (session : Session MemoryStore α) : Except Error α :=
  (session .empty).report.outcome

/-- The session comes to the same on every store and leaves the snapshot alone. -/
structure Steady (session : Session MemoryStore α) : Prop where
  outcome : ∀ s, (session s).report.outcome = result session
  snapshot : ∀ s, (session s).state.snapshot = s.snapshot

theorem Steady.ofReport (r : Report α) : Steady (Session.ofReport r) :=
  ⟨fun _ => rfl, fun _ => rfl⟩

theorem Steady.pure (a : α) : Steady (Pure.pure a) :=
  ⟨fun _ => rfl, fun _ => rfl⟩

theorem Steady.bind {session : Session MemoryStore α} {next : α → Session MemoryStore β}
    (hsession : Steady session) (hnext : ∀ a, Steady (next a)) :
    Steady (session >>= next) := by
  have hrun : ∀ s, ((session >>= next) s).report.outcome =
      (result session >>= fun a => result (next a)) ∧
      ((session >>= next) s).state.snapshot = s.snapshot := by
    intro s
    cases hresult : result session with
    | error e =>
        have he := (hsession.outcome s).trans hresult
        rw [(Session.bind_of_error _ he).1, (Session.bind_of_error _ he).2]
        exact ⟨rfl, hsession.snapshot s⟩
    | ok a =>
        have ha := (hsession.outcome s).trans hresult
        rw [(Session.bind_of_ok _ ha).1, (Session.bind_of_ok _ ha).2]
        exact ⟨(hnext a).outcome _, ((hnext a).snapshot _).trans (hsession.snapshot s)⟩
  exact ⟨fun s => (hrun s).1.trans (hrun .empty).1.symm, fun s => (hrun s).2⟩

theorem result_bind {session : Session MemoryStore α} {next : α → Session MemoryStore β}
    (hnext : ∀ a, Steady (next a)) :
    result (session >>= next) = result session >>= fun a => result (next a) := by
  unfold result
  cases houtcome : (session .empty).report.outcome with
  | error e => exact (Session.bind_of_error _ houtcome).1
  | ok a => exact (Session.bind_of_ok _ houtcome).1.trans ((hnext a).outcome _)

variable {answer : (version filename : String) → Except Error (Option Font)}
  {destination : Font} {version : String} {patchSets : List PatchSet}
  {previous : Option Snapshot}

theorem steady_closed : Session.Closed fun _ session => Steady session :=
  ⟨Steady.ofReport, Steady.bind⟩

theorem request_steady (version filename : String) :
    Steady ((origins answer).request version filename).attempt :=
  ⟨fun _ => rfl, fun _ => rfl⟩

theorem ofPatchSet_steady (index : Nat) (p : PatchSet) :
    Steady (Crosswalk.ofPatchSet destination (origins answer) version index p) :=
  Mapping.ofPatchSet_closed steady_closed (request_steady version) index p

theorem steps_steady (index : Nat) (rest : List PatchSet) (done : Mapping.Progress) :
    Steady (Mapping.steps destination (origins answer) version patchSets previous index rest
      done) :=
  Mapping.steps_closed steady_closed (request_steady version) index rest done

theorem ofPatchSets_steady :
    Steady (Mapping.ofPatchSets destination (origins answer) version patchSets previous) :=
  Mapping.ofPatchSets_closed steady_closed (request_steady version)

/-! ## Faithful snapshots -/

/-- Whatever the snapshot offers for a patch set is what would be computed. -/
def Faithful (answer : (version filename : String) → Except Error (Option Font))
    (destination : Font) (version : String) (patchSets : List PatchSet)
    (previous : Option Snapshot) : Prop :=
  ∀ i p entry, patchSets[i]? = some p →
    previous.bind (·.reusable? version i p.name p.exact) = some entry →
    result (Crosswalk.ofPatchSet destination (origins answer) version i p) =
      .ok entry.toCrosswalk

theorem nextCrosswalk_faithful {index : Nat} {p : PatchSet}
    (hfaithful : Faithful answer destination version patchSets previous)
    (hp : patchSets[index]? = some p) :
    (result (Mapping.nextCrosswalk destination (origins answer) version previous index p)).map
        Prod.fst =
      result (Crosswalk.ofPatchSet destination (origins answer) version index p) := by
  unfold Mapping.nextCrosswalk
  cases hstored : previous.bind (·.reusable? version index p.name p.exact) with
  | some entry => exact (hfaithful index p entry hp hstored).symm
  | none =>
      dsimp only
      rw [result_bind fun _ => .pure _]
      cases result (Crosswalk.ofPatchSet destination (origins answer) version index p) <;> rfl

/-- The part of the progress that later patch sets and the table depend on. -/
def view (done : Mapping.Progress) : List Crosswalk × Mapping.Claimed :=
  (done.crosswalks, done.claimed)

theorem step_view {index : Nat} {p : PatchSet} (done : Mapping.Progress)
    (hfaithful : Faithful answer destination version patchSets previous)
    (hp : patchSets[index]? = some p) :
    (result (Mapping.step destination (origins answer) version patchSets previous index p
        done)).map view =
      (result (Crosswalk.ofPatchSet destination (origins answer) version index p) >>= fun c =>
        (Mapping.claim destination patchSets c (view done).2 [] c.pairs).outcome.map
          fun claimed => (c :: (view done).1, claimed)) := by
  rw [← nextCrosswalk_faithful hfaithful hp]
  unfold Mapping.step result
  cases hmade : (Mapping.nextCrosswalk destination (origins answer) version previous index p
      .empty).report.outcome with
  | error e =>
      rw [(Session.bind_of_error _ hmade).1]
      rfl
  | ok made =>
      rw [(Session.bind_of_ok _ hmade).1]
      cases hclaim : (Mapping.claim destination patchSets made.1 done.claimed []
          made.1.pairs).outcome with
      | error e =>
          simp only [Session.bind_apply, Session.outcome_ofReport, hclaim]
          simp [view, bind, Except.bind, Except.map, hclaim]
      | ok claimed =>
          simp only [Session.bind_apply, Session.outcome_ofReport, Session.outcome_tell, hclaim]
          simp [view, bind, Except.bind, Except.map, hclaim]

theorem map_eq_map {x y : Except Error α} {f : α → β} (h : x.map f = y.map f) :
    (∃ e, x = .error e ∧ y = .error e) ∨ ∃ a b, x = .ok a ∧ y = .ok b ∧ f a = f b := by
  cases x with
  | error e =>
      cases y with
      | error e' =>
          cases h
          exact .inl ⟨e, rfl, rfl⟩
      | ok b => cases h
  | ok a =>
      cases y with
      | error e => cases h
      | ok b => exact .inr ⟨a, b, rfl, rfl, Except.ok.inj h⟩

theorem steps_view {index : Nat} {rest : List PatchSet} {done done' : Mapping.Progress}
    (hfaithful : Faithful answer destination version patchSets previous)
    (hrest : patchSets.drop index = rest) (hview : view done = view done') :
    (result (Mapping.steps destination (origins answer) version patchSets previous index rest
        done)).map view =
      (result (Mapping.steps destination (origins answer) version patchSets none index rest
        done')).map view := by
  induction rest generalizing index done done' with
  | nil =>
      change Except.ok (view done) = Except.ok (view done')
      rw [hview]
  | cons p rest ih =>
      have hp : patchSets[index]? = some p := by
        rw [← List.head?_drop, hrest]
        rfl
      have hdrop : patchSets.drop (index + 1) = rest := by
        rw [← List.drop_drop, hrest]
        rfl
      have hnone : Faithful answer destination version patchSets none := by
        intro i q entry _ hentry
        cases hentry
      have hstep := (step_view done hfaithful hp).trans
        (hview ▸ (step_view done' hnone hp).symm)
      unfold Mapping.steps
      rw [result_bind fun next => steps_steady _ _ next,
        result_bind fun next => steps_steady _ _ next]
      rcases map_eq_map hstep with ⟨e, he, he'⟩ | ⟨next, next', hnext, hnext', hsame⟩
      · rw [he, he']
        rfl
      · rw [hnext, hnext']
        exact ih hdrop hsame

theorem ofPatchSets_faithful
    (hfaithful : Faithful answer destination version patchSets previous) :
    (result (Mapping.ofPatchSets destination (origins answer) version patchSets previous)).map
        Mapping.crosswalks =
      (result (Mapping.ofPatchSets destination (origins answer) version patchSets none)).map
        Mapping.crosswalks := by
  have hstart : view .start = view .start := rfl
  have hsteps := steps_view hfaithful List.drop_zero hstart
  unfold Mapping.ofPatchSets
  rw [result_bind fun _ => .pure _, result_bind fun _ => .pure _]
  rcases map_eq_map hsteps with ⟨e, he, he'⟩ | ⟨done, done', hdone, hdone', hsame⟩
  · rw [he, he']
    rfl
  · rw [hdone, hdone']
    have hcrosswalks : done.crosswalks = done'.crosswalks := congrArg Prod.fst hsame
    change Except.ok done.crosswalks.reverse = Except.ok done'.crosswalks.reverse
    rw [hcrosswalks]

end MemoryStore

end IconConstraints
