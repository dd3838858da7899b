import IconConstraints.Event

/-!
# Reports and sessions

A stage tells events while it works and ends with a value or an error; that is a
`Report`.  A stage that also reads and changes a state, such as a file tree or a
cache, is a `Session`.  What was told and changed before an error stays.
-/

namespace IconConstraints

structure Report (α : Type) where
  events : List Event
  outcome : Except Error α

namespace Report

protected def pure {α : Type} (a : α) : Report α :=
  ⟨[], .ok a⟩

protected def bind {α β : Type} (r : Report α) (next : α → Report β) : Report β :=
  match r.outcome with
  | .error e => ⟨r.events, .error e⟩
  | .ok a =>
    let rest := next a
    ⟨r.events ++ rest.events, rest.outcome⟩

instance : Monad Report where
  pure := Report.pure
  bind := Report.bind

def tell (event : Event) : Report Unit :=
  ⟨[event], .ok ()⟩

def tellAll (events : List Event) : Report Unit :=
  ⟨events, .ok ()⟩

def fail {α : Type} (e : Error) : Report α :=
  ⟨[], .error e⟩

def ofExcept {α : Type} (outcome : Except Error α) : Report α :=
  ⟨[], outcome⟩

end Report

/-- The end of a session: the state it leaves and what it reports. -/
structure Step (σ α : Type) where
  state : σ
  report : Report α

def Session (σ α : Type) : Type :=
  σ → Step σ α

namespace Session

variable {σ α β : Type}

protected def pure (a : α) : Session σ α :=
  fun s => ⟨s, .pure a⟩

protected def bind (session : Session σ α) (next : α → Session σ β) : Session σ β :=
  fun s =>
    let first := session s
    match first.report.outcome with
    | .error e => ⟨first.state, ⟨first.report.events, .error e⟩⟩
    | .ok a =>
      let second := next a first.state
      ⟨second.state, ⟨first.report.events ++ second.report.events, second.report.outcome⟩⟩

instance : Monad (Session σ) where
  pure := Session.pure
  bind := Session.bind

/-- A stage that neither reads nor changes the state. -/
def ofReport (r : Report α) : Session σ α :=
  fun s => ⟨s, r⟩

def get : Session σ σ :=
  fun s => ⟨s, .pure s⟩

def modify (f : σ → σ) : Session σ Unit :=
  fun s => ⟨f s, .pure ()⟩

def tell (event : Event) : Session σ Unit :=
  ofReport (.tell event)

def tellAll (events : List Event) : Session σ Unit :=
  ofReport (.tellAll events)

def fail (e : Error) : Session σ α :=
  ofReport (.fail e)

def ofExcept (outcome : Except Error α) : Session σ α :=
  ofReport (.ofExcept outcome)

/-- A session on a part of the state. -/
def within {τ : Type} (part : σ → τ) (replace : τ → σ → σ) (session : Session τ α) : Session σ α :=
  fun s =>
    let step := session (part s)
    ⟨replace step.state s, step.report⟩

/-- The session with its error, if it ends with one, as a value. -/
def attempt (session : Session σ α) : Session σ (Except Error α) :=
  fun s =>
    let step := session s
    ⟨step.state, ⟨step.report.events, .ok step.report.outcome⟩⟩

end Session

end IconConstraints
