import IconConstraints.Proofs.Outcomes
import IconConstraints.Report

/-!
# Outcomes of reports and sessions

How the outcome of a composed stage comes from the outcomes of its parts.  A
composed stage succeeds only if both parts do, and its error is the error of the
part that fails first.  Everything later proved of a whole run is taken apart
with these laws.
-/

namespace IconConstraints

/-! ## Reports -/

namespace Report

variable {α β : Type}

@[simp] theorem outcome_pure (a : α) : (pure a : Report α).outcome = .ok a :=
  rfl

@[simp] theorem outcome_tell (event : Event) : (tell event).outcome = .ok () :=
  rfl

@[simp] theorem outcome_tellAll (events : List Event) : (tellAll events).outcome = .ok () :=
  rfl

@[simp] theorem outcome_fail (e : Error) : (fail e : Report α).outcome = .error e :=
  rfl

@[simp] theorem outcome_ofExcept (outcome : Except Error α) :
    (ofExcept outcome).outcome = outcome :=
  rfl

theorem ofExcept_ok_bind (a : α) (next : α → Report β) : (ofExcept (.ok a) >>= next) = next a :=
  rfl

theorem ofExcept_error_bind (e : Error) (next : α → Report β) :
    (ofExcept (.error e) >>= next) = fail e :=
  rfl

@[simp] theorem outcome_bind (r : Report α) (next : α → Report β) :
    (r >>= next).outcome = r.outcome >>= fun a => (next a).outcome := by
  change (Report.bind r next).outcome = _
  unfold Report.bind
  cases r.outcome <;> rfl

theorem bind_eq_ok {r : Report α} {next : α → Report β} {b : β} :
    (r >>= next).outcome = .ok b ↔
      ∃ a, r.outcome = .ok a ∧ (next a).outcome = .ok b := by
  rw [outcome_bind]
  exact Outcome.bind_eq_ok

theorem bind_eq_error {r : Report α} {next : α → Report β} {e : Error} :
    (r >>= next).outcome = .error e ↔
      r.outcome = .error e ∨ ∃ a, r.outcome = .ok a ∧ (next a).outcome = .error e := by
  rw [outcome_bind]
  exact Outcome.bind_eq_error

end Report

/-! ## Sessions -/

namespace Session

variable {σ τ α β : Type} {s t : σ}

@[simp] theorem outcome_pure (a : α) (s : σ) :
    ((pure a : Session σ α) s).report.outcome = .ok a :=
  rfl

@[simp] theorem state_pure (a : α) (s : σ) : ((pure a : Session σ α) s).state = s :=
  rfl

@[simp] theorem outcome_ofReport (r : Report α) (s : σ) :
    (ofReport r s).report.outcome = r.outcome :=
  rfl

@[simp] theorem state_ofReport (r : Report α) (s : σ) : (ofReport r s).state = s :=
  rfl

@[simp] theorem outcome_tell (event : Event) (s : σ) :
    (tell event s).report.outcome = .ok () :=
  rfl

@[simp] theorem outcome_tellAll (events : List Event) (s : σ) :
    (tellAll events s).report.outcome = .ok () :=
  rfl

@[simp] theorem outcome_fail (e : Error) (s : σ) :
    ((fail e : Session σ α) s).report.outcome = .error e :=
  rfl

@[simp] theorem outcome_attempt (session : Session σ α) (s : σ) :
    (session.attempt s).report.outcome = .ok (session s).report.outcome :=
  rfl

@[simp] theorem state_attempt (session : Session σ α) (s : σ) :
    (session.attempt s).state = (session s).state :=
  rfl

theorem bind_apply (session : Session σ α) (next : α → Session σ β) (s : σ) :
    (session >>= next) s =
      match (session s).report.outcome with
      | .error e => ⟨(session s).state, ⟨(session s).report.events, .error e⟩⟩
      | .ok a =>
        ⟨(next a (session s).state).state,
          ⟨(session s).report.events ++ (next a (session s).state).report.events,
            (next a (session s).state).report.outcome⟩⟩ :=
  rfl

/-- A session goes on from the state and with the value of its first part. -/
theorem bind_of_ok {session : Session σ α} (next : α → Session σ β) {a : α}
    (ha : (session s).report.outcome = .ok a) :
    ((session >>= next) s).report.outcome = (next a (session s).state).report.outcome ∧
      ((session >>= next) s).state = (next a (session s).state).state := by
  rw [bind_apply, ha]
  exact ⟨rfl, rfl⟩

/-- A first part that tells nothing leaves no trace but its state and its value. -/
theorem bind_of_pure {session : Session σ α} (next : α → Session σ β) {a : α}
    (h : session s = ⟨t, .pure a⟩) : (session >>= next) s = next a t := by
  rw [bind_apply, h]
  rfl

theorem bind_of_error {session : Session σ α} (next : α → Session σ β) {e : Error}
    (he : (session s).report.outcome = .error e) :
    ((session >>= next) s).report.outcome = .error e ∧
      ((session >>= next) s).state = (session s).state := by
  rw [bind_apply, he]
  exact ⟨rfl, rfl⟩

theorem bind_eq_ok {session : Session σ α} {next : α → Session σ β} {b : β} :
    ((session >>= next) s).report.outcome = .ok b ↔
      ∃ a, (session s).report.outcome = .ok a ∧
        (next a (session s).state).report.outcome = .ok b := by
  cases h : (session s).report.outcome with
  | error e => simp [(bind_of_error next h).1]
  | ok a => simp [(bind_of_ok next h).1]

theorem bind_eq_error {session : Session σ α} {next : α → Session σ β} {e : Error} :
    ((session >>= next) s).report.outcome = .error e ↔
      (session s).report.outcome = .error e ∨
        ∃ a, (session s).report.outcome = .ok a ∧
          (next a (session s).state).report.outcome = .error e := by
  cases h : (session s).report.outcome with
  | error e' => simp [(bind_of_error next h).1]
  | ok a => simp [(bind_of_ok next h).1]

/-! ### Ends of a session -/

/-- From the state `s` the session comes to an outcome and leaves the state `t`. -/
structure Ends (session : Session σ α) (s : σ) (outcome : Except Error α) (t : σ) : Prop where
  outcome : (session s).report.outcome = outcome
  state : (session s).state = t

theorem ends_ofReport (r : Report α) (s : σ) : (ofReport r).Ends s r.outcome s :=
  ⟨rfl, rfl⟩

theorem ends_pure (a : α) (s : σ) : (pure a : Session σ α).Ends s (.ok a) s :=
  ⟨rfl, rfl⟩

theorem ends_get (s : σ) : (get : Session σ σ).Ends s (.ok s) s :=
  ⟨rfl, rfl⟩

theorem ends_modify (f : σ → σ) (s : σ) : (modify f).Ends s (.ok ()) (f s) :=
  ⟨rfl, rfl⟩

theorem Ends.bind {u : σ} {session : Session σ α} {next : α → Session σ β} {a : α}
    {outcome : Except Error β} (h : session.Ends s (.ok a) t)
    (hnext : (next a).Ends t outcome u) : (session >>= next).Ends s outcome u := by
  obtain ⟨houtcome, hstate⟩ := bind_of_ok next h.outcome
  rw [h.state] at houtcome hstate
  exact ⟨houtcome.trans hnext.outcome, hstate.trans hnext.state⟩

theorem Ends.bind_error {session : Session σ α} {next : α → Session σ β} {e : Error}
    (h : session.Ends s (.error e) t) : (session >>= next).Ends s (.error e) t := by
  obtain ⟨houtcome, hstate⟩ := bind_of_error next h.outcome
  exact ⟨houtcome, hstate.trans h.state⟩

theorem Ends.exists_of_bind {session : Session σ α} {next : α → Session σ β} {b : β}
    (h : (session >>= next).Ends s (.ok b) t) :
    ∃ a u, session.Ends s (.ok a) u ∧ (next a).Ends u (.ok b) t := by
  obtain ⟨a, ha, hnext⟩ := bind_eq_ok.mp h.outcome
  exact ⟨a, (session s).state, ⟨ha, rfl⟩, hnext, (bind_of_ok next ha).2.symm.trans h.state⟩

/-- The error of a composed session is that of the part which failed. -/
theorem Ends.cases_of_bind_error {session : Session σ α} {next : α → Session σ β} {e : Error}
    (h : (session >>= next).Ends s (.error e) t) :
    session.Ends s (.error e) t ∨
      ∃ a u, session.Ends s (.ok a) u ∧ (next a).Ends u (.error e) t := by
  rcases bind_eq_error.mp h.outcome with he | ⟨a, ha, he⟩
  · exact .inl ⟨he, (bind_of_error next he).2.symm.trans h.state⟩
  · exact .inr ⟨a, _, ⟨ha, rfl⟩, he, (bind_of_ok next ha).2.symm.trans h.state⟩

theorem Ends.within (part : τ → σ) (replace : σ → τ → τ) {session : Session σ α}
    {outcome : Except Error α} {c : τ} (h : session.Ends (part c) outcome t) :
    (session.within part replace).Ends c outcome (replace t c) :=
  ⟨h.outcome, congrArg (replace · c) h.state⟩

/-! ### Properties that a composed session has from its parts -/

/-- A property of every stage that leaves the state alone, and of a session that goes
on from one part with it to others with it. -/
structure Closed (P : ∀ ⦃α : Type⦄, Session σ α → Prop) : Prop where
  ofReport : ∀ {α : Type} (r : Report α), P (Session.ofReport r)
  bind : ∀ {α β : Type} {session : Session σ α} {next : α → Session σ β},
    P session → (∀ a, P (next a)) → P (session >>= next)

theorem Closed.pure {P : ∀ ⦃α : Type⦄, Session σ α → Prop} (hP : Closed P) (a : α) :
    P (Pure.pure a) :=
  hP.ofReport (.pure a)

/-- The session leaves a part of the state as it is. -/
def Keeps (session : Session σ α) (part : σ → τ) : Prop :=
  ∀ s, part (session s).state = part s

theorem keeps_closed (part : σ → τ) : Closed fun _ session => session.Keeps part := by
  constructor
  case ofReport => exact fun _ _ => rfl
  case bind =>
    intro α β session next hsession hnext s
    cases h : (session s).report.outcome with
    | error e => rw [(bind_of_error next h).2, hsession s]
    | ok a => rw [(bind_of_ok next h).2, hnext a, hsession s]

/-- The state before a session and the state after it are related. -/
def Moves (session : Session σ α) (R : σ → σ → Prop) : Prop :=
  ∀ s, R s (session s).state

theorem moves_closed {R : σ → σ → Prop} (hrefl : ∀ s, R s s)
    (htrans : ∀ {s t u}, R s t → R t u → R s u) :
    Closed fun _ session => session.Moves R := by
  constructor
  case ofReport => exact fun _ s => hrefl s
  case bind =>
    intro α β session next hsession hnext s
    cases h : (session s).report.outcome with
    | error e =>
        rw [(bind_of_error next h).2]
        exact hsession s
    | ok a =>
        rw [(bind_of_ok next h).2]
        exact htrans (hsession s) (hnext a _)

end Session

/-! ## Which errors can end a stage -/

variable {σ α β : Type} {P : Error → Prop}

def Report.FailsOnly (r : Report α) (P : Error → Prop) : Prop :=
  ∀ e, r.outcome = .error e → P e

def Session.FailsOnly (session : Session σ α) (P : Error → Prop) : Prop :=
  ∀ s e, (session s).report.outcome = .error e → P e

namespace Report

theorem failsOnly_of_ok {r : Report α} {a : α} (h : r.outcome = .ok a) : r.FailsOnly P := by
  intro e he
  rw [h] at he
  cases he

theorem failsOnly_fail {e : Error} (h : P e) : (fail e : Report α).FailsOnly P := by
  intro e' he
  cases he
  exact h

theorem FailsOnly.bind {r : Report α} {next : α → Report β} (hr : r.FailsOnly P)
    (hnext : ∀ a, r.outcome = .ok a → (next a).FailsOnly P) : (r >>= next).FailsOnly P := by
  intro e he
  rcases bind_eq_error.mp he with he | ⟨a, ha, he⟩
  · exact hr e he
  · exact hnext a ha e he

theorem FailsOnly.foldlM {f : β → α → Report β} (hf : ∀ b a, (f b a).FailsOnly P)
    (l : List α) (b : β) : (l.foldlM f b).FailsOnly P := by
  induction l generalizing b with
  | nil => exact failsOnly_of_ok rfl
  | cons a rest ih => exact (hf b a).bind fun b' _ => ih b'

end Report

namespace Session

theorem failsOnly_of_ok {session : Session σ α}
    (h : ∀ s, ∃ a, (session s).report.outcome = .ok a) : session.FailsOnly P := by
  intro s e he
  obtain ⟨a, ha⟩ := h s
  rw [ha] at he
  cases he

theorem failsOnly_fail {e : Error} (h : P e) : (fail e : Session σ α).FailsOnly P := by
  intro s e' he
  cases he
  exact h

theorem failsOnly_ofReport {r : Report α} (h : r.FailsOnly P) :
    (ofReport r : Session σ α).FailsOnly P :=
  fun _ => h

theorem FailsOnly.bind {session : Session σ α} {next : α → Session σ β}
    (hsession : session.FailsOnly P)
    (hnext : ∀ a s, (session s).report.outcome = .ok a → (next a).FailsOnly P) :
    (session >>= next).FailsOnly P := by
  intro s e he
  rcases bind_eq_error.mp he with he | ⟨a, ha, he⟩
  · exact hsession s e he
  · exact hnext a s ha _ e he

end Session

end IconConstraints
