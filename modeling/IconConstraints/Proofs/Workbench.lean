import IconConstraints.Proofs.Claims

/-!
# Adding patch sets in place

A table can be worked on in place: the entries of a patch set are collected one after
another, scaled where they lie and then entered into the table one by one, and an error
ends the work wherever it has got to.  What is reported and what becomes of the table is
the same as when a whole new table is made, and a patch set that cannot be added leaves
half-made entries at hand but none in the table.
-/

namespace IconConstraints

/-- A table with what is at hand for the patch set that is added to it. -/
structure Workbench where
  table : AttributeTable
  scaling : Scaling

namespace Workbench

variable {font : Font} {p : PatchSet} {c : Crosswalk} {w w' : Workbench}

def start (t : AttributeTable) : Workbench :=
  ⟨t, .start ∅⟩

def putEntry (cp : Codepoint) (entry : AttributeEntry) (w : Workbench) : Workbench :=
  { w with scaling := { w.scaling with entries := w.scaling.entries.insert cp entry } }

def putClaim (patchSet : String) (pair : Codepoint × AttributeEntry) (w : Workbench) : Workbench :=
  { w with table := { w.table with claims := w.table.claims.insert pair.1 ⟨patchSet, pair.2⟩ } }

def putCounts (counts : ScaleCounts) (w : Workbench) : Workbench :=
  { w with table := { w.table with counts := w.table.counts.add counts } }

/-! ## The work -/

def put (p : PatchSet) (pair : Codepoint × Codepoint) : Session Workbench Unit :=
  Session.modify (putEntry pair.2 (p.attributes.entryFor pair.1))

/-- Takes an entry for the destination of a pair, as far as its owner allows. -/
def collectPair (p : PatchSet) (pair : Codepoint × Codepoint) : Option String → Session Workbench Unit
  | none => put p pair
  | some owner =>
    match overlapPolicy? p.name .patchSetMerge with
    | some .keepEarlier => Session.tell (.keptEarlier p.name pair.2 owner)
    | some .overwrite => do
      Session.tell (.overwritten p.name pair.2 owner)
      put p pair
    | none => Session.fail (.overlap p.name pair.2)

def collectPairs (p : PatchSet) : List (Codepoint × Codepoint) → Session Workbench Unit
  | [] => pure ()
  | pair :: rest => do
    collectPair p pair ((← Session.get).table.owner? pair.2)
    collectPairs p rest

/-- Collects into an empty map, whatever was left at hand. -/
def collect (p : PatchSet) (c : Crosswalk) : Session Workbench (CodepointMap AttributeEntry) := do
  Session.modify fun w => start w.table
  collectPairs p c.pairs
  return (← Session.get).scaling.entries

def mergeEntries (patchSet : String) : List (Codepoint × AttributeEntry) → Session Workbench Unit
  | [] => pure ()
  | pair :: rest => do
    Session.modify (putClaim patchSet pair)
    mergeEntries patchSet rest

def scale (font : Font) (p : PatchSet) (c : Crosswalk) : Session Workbench Unit :=
  (Scaling.apply font p c).within scaling fun s w => { w with scaling := s }

/-- Enters what is at hand into the table. -/
def enter (patchSet : String) : Session Workbench Unit := do
  let done := (← Session.get).scaling
  Session.modify (putCounts done.counts)
  mergeEntries patchSet done.entries.toList

def add (font : Font) (p : PatchSet) (c : Crosswalk) : Session Workbench Unit := do
  Session.tell (.patchSetAdded p.name)
  let _ ← collect p c
  scale font p c
  enter p.name

/-! ## What the work comes to -/

/-- The entries of pairs, put one after another into those there are. -/
def entriesFrom (p : PatchSet) (found : CodepointMap AttributeEntry)
    (pairs : List (Codepoint × Codepoint)) : CodepointMap AttributeEntry :=
  pairs.foldl (fun found pair => found.insert pair.2 (p.attributes.entryFor pair.1)) found

def putEntries (p : PatchSet) (pairs : List (Codepoint × Codepoint)) (w : Workbench) : Workbench :=
  { w with scaling := { w.scaling with entries := entriesFrom p w.scaling.entries pairs } }

theorem putEntries_append (before after : List (Codepoint × Codepoint)) :
    putEntries p (before ++ after) w = putEntries p after (putEntries p before w) := by
  simp [putEntries, entriesFrom, List.foldl_append]

section Pairs

variable {pair : Codepoint × Codepoint} {pairs rest : List (Codepoint × Codepoint)}
  {events : List Event} {cp : Codepoint} {owner : String} {more : List (Codepoint × String)}

theorem collectPairs_cons
    (h : collectPair p pair (w.table.owner? pair.2) w = ⟨w', ⟨events, .ok ()⟩⟩) :
    collectPairs p (pair :: rest) w = ⟨(collectPairs p rest w').state,
      ⟨events ++ (collectPairs p rest w').report.events,
        (collectPairs p rest w').report.outcome⟩⟩ := by
  change (collectPair p pair (w.table.owner? pair.2) >>= fun _ => collectPairs p rest) w = _
  rw [Session.bind_apply, h]

theorem collectPair_free (hfree : w.table.owner? pair.2 = none) :
    collectPair p pair (w.table.owner? pair.2) w = ⟨putEntries p [pair] w, ⟨[], .ok ()⟩⟩ := by
  rw [hfree]
  rfl

theorem overlaps_free (t : AttributeTable) (hfree : t.owner? pair.2 = none) :
    t.overlaps (pair :: rest) = t.overlaps rest := by
  simp [AttributeTable.overlaps, hfree]

theorem overlaps_owned (t : AttributeTable) (howner : t.owner? pair.2 = some owner) :
    t.overlaps (pair :: rest) = (pair.2, owner) :: t.overlaps rest := by
  simp [AttributeTable.overlaps, howner]

/-- Pairs whose owners end nothing are collected as each of them is. -/
theorem collectPairs_of_owned (told : Codepoint → String → Event) (taken : Bool)
    (howned : ∀ pair owner, (pair.2, owner) ∈ w.table.overlaps pairs → ∀ w,
      collectPair p pair (some owner) w =
        ⟨putEntries p ([pair].filter fun _ => taken) w, ⟨[told pair.2 owner], .ok ()⟩⟩) :
    collectPairs p pairs w =
      ⟨putEntries p (pairs.filter fun pair => taken || (w.table.owner? pair.2).isNone) w,
        .tellAll ((w.table.overlaps pairs).map fun (cp, owner) => told cp owner)⟩ := by
  induction pairs generalizing w with
  | nil => rfl
  | cons pair rest ih =>
      cases howner : w.table.owner? pair.2 with
      | none =>
          rw [overlaps_free _ howner] at howned ⊢
          rw [collectPairs_cons (collectPair_free howner), ih (w := putEntries p [pair] w) howned,
            List.filter_cons_of_pos (by simp [howner])]
          rfl
      | some owner =>
          rw [overlaps_owned _ howner] at howned ⊢
          have hstep := howned pair owner List.mem_cons_self w
          rw [← howner] at hstep
          rw [collectPairs_cons hstep, ih (w := putEntries p ([pair].filter fun _ => taken) w)
            fun pair owner hmem => howned pair owner (List.mem_cons_of_mem _ hmem)]
          have hfirst : (pair :: rest).filter (fun pair => taken || (w.table.owner? pair.2).isNone) =
              [pair].filter (fun _ => taken) ++
                rest.filter fun pair => taken || (w.table.owner? pair.2).isNone := by
            cases taken <;> simp [howner]
          rw [hfirst, putEntries_append]
          rfl

theorem collectPairs_keepEarlier
    (hpolicy : overlapPolicy? p.name .patchSetMerge = some .keepEarlier) :
    collectPairs p pairs w =
      ⟨putEntries p (pairs.filter fun pair => (w.table.owner? pair.2).isNone) w,
        .tellAll ((w.table.overlaps pairs).map fun (cp, owner) => .keptEarlier p.name cp owner)⟩ := by
  refine collectPairs_of_owned (.keptEarlier p.name) false fun pair owner _ w => ?_
  rw [collectPair, hpolicy]
  rfl

theorem collectPairs_overwrite
    (hpolicy : overlapPolicy? p.name .patchSetMerge = some .overwrite) :
    collectPairs p pairs w =
      ⟨putEntries p pairs w,
        .tellAll ((w.table.overlaps pairs).map fun (cp, owner) => .overwritten p.name cp owner)⟩ := by
  have hall : collectPairs p pairs w = _ := collectPairs_of_owned (.overwritten p.name) true
    fun pair owner _ w => by
      rw [collectPair, hpolicy]
      rfl
  rwa [List.filter_eq_self.mpr fun _ _ => Bool.true_or _] at hall

theorem collectPairs_free (hfree : w.table.overlaps pairs = []) :
    collectPairs p pairs w = ⟨putEntries p pairs w, .pure ()⟩ := by
  have hall : collectPairs p pairs w = _ := collectPairs_of_owned (.overwritten p.name) true
    fun pair owner hmem => by
      rw [hfree] at hmem
      cases hmem
  rwa [List.filter_eq_self.mpr fun _ _ => Bool.true_or _, hfree] at hall

theorem collectPairs_refused (hpolicy : overlapPolicy? p.name .patchSetMerge = none)
    (howned : w.table.overlaps pairs = (cp, owner) :: more) :
    (collectPairs p pairs w).report = .fail (.overlap p.name cp) := by
  induction pairs generalizing w with
  | nil => cases howned
  | cons pair rest ih =>
      cases howner : w.table.owner? pair.2 with
      | none =>
          rw [overlaps_free _ howner] at howned
          rw [collectPairs_cons (collectPair_free howner), ih (w := putEntries p [pair] w) howned]
          rfl
      | some first =>
          rw [overlaps_owned _ howner] at howned
          cases howned
          have hfails : collectPair p pair (w.table.owner? pair.2) w =
              ⟨w, ⟨[], .error (.overlap p.name pair.2)⟩⟩ := by
            rw [howner, collectPair, hpolicy]
            rfl
          change ((collectPair p pair (w.table.owner? pair.2) >>= fun _ =>
            collectPairs p rest) w).report = _
          rw [Session.bind_apply, hfails]
          rfl

end Pairs

theorem collect_apply (p : PatchSet) (c : Crosswalk) (w : Workbench) :
    collect p c w = ⟨(collectPairs p c.pairs (start w.table)).state,
      do
        (collectPairs p c.pairs (start w.table)).report
        return (collectPairs p c.pairs (start w.table)).state.scaling.entries⟩ := by
  change (collectPairs p c.pairs >>= fun _ => _) (start w.table) = _
  rw [Session.bind_apply]
  cases h : (collectPairs p c.pairs (start w.table)).report with
  | mk events outcome => cases outcome <;> rfl

theorem collect_eq (p : PatchSet) (c : Crosswalk) (w : Workbench) :
    (collect p c w).report = w.table.collect p c ∧
      ∀ collected, (w.table.collect p c).outcome = .ok collected →
        (collect p c w).state = ⟨w.table, .start collected⟩ := by
  rw [collect_apply]
  unfold AttributeTable.collect
  dsimp only
  split
  case h_1 hpolicy =>
    rw [collectPairs_keepEarlier hpolicy]
    refine ⟨rfl, ?_⟩
    rintro collected ⟨⟩
    rfl
  case h_2 hpolicy =>
    rw [collectPairs_overwrite hpolicy]
    refine ⟨rfl, ?_⟩
    rintro collected ⟨⟩
    rfl
  case h_3 hpolicy =>
    split
    case h_1 hfree =>
      rw [collectPairs_free (w := start w.table) hfree]
      refine ⟨rfl, ?_⟩
      rintro collected ⟨⟩
      rfl
    case h_2 howned =>
      rw [collectPairs_refused (w := start w.table) hpolicy howned]
      exact ⟨rfl, fun _ h => by cases h⟩

theorem mergeEntries_apply (patchSet : String) (entries : List (Codepoint × AttributeEntry))
    (w : Workbench) :
    mergeEntries patchSet entries w =
      ⟨{ w with table := w.table.merge patchSet entries }, .pure ()⟩ := by
  induction entries generalizing w with
  | nil => rfl
  | cons pair rest ih =>
      rw [mergeEntries, Session.bind_of_pure (t := putClaim patchSet pair w) _ rfl, ih]
      rfl

theorem enter_apply (patchSet : String) (w : Workbench) :
    enter patchSet w = ⟨⟨w.table.take patchSet w.scaling, w.scaling⟩, .pure ()⟩ := by
  rw [enter, Session.bind_of_pure (a := w) (t := w) _ rfl,
    Session.bind_of_pure (t := putCounts w.scaling.counts w) _ rfl, mergeEntries_apply]
  rfl

theorem collect_keeps (p : PatchSet) (c : Crosswalk) : (collect p c).Keeps table := by
  have hclosed := Session.keeps_closed table
  have hpair : ∀ pair owner, (collectPair p pair owner).Keeps table := by
    intro pair owner
    unfold collectPair
    split
    · exact fun _ => rfl
    · split
      · exact fun _ => rfl
      · exact hclosed.bind (hclosed.ofReport _) fun _ _ => rfl
      · exact fun _ => rfl
  have hpairs : ∀ pairs, (collectPairs p pairs).Keeps table := by
    intro pairs
    induction pairs with
    | nil => exact fun _ => rfl
    | cons pair rest ih =>
        exact hclosed.bind (fun _ => rfl) fun w => hclosed.bind (hpair pair _) fun _ => ih
  exact hclosed.bind (fun _ => rfl) fun _ => hclosed.bind (hpairs c.pairs) fun _ =>
    hclosed.bind (fun _ => rfl) fun _ _ => rfl

/-! ## In place and as a whole -/

/-- The end of work on the table `t`, against a report of what comes of the table. -/
structure Carries (t : AttributeTable) (step : Step Workbench Unit) (r : Report AttributeTable) :
    Prop where
  events : step.report.events = r.events
  outcome : step.report.outcome = r.outcome.map fun _ => ()
  table : ∀ t', r.outcome = .ok t' → step.state.table = t'
  kept : ∀ e, r.outcome = .error e → step.state.table = t

/-- Work that leaves the table alone may come before work that is carried. -/
theorem Carries.bind {α : Type} {t : AttributeTable} {session : Session Workbench α}
    {r : Report α} {next : α → Session Workbench Unit} {rest : α → Report AttributeTable}
    (hreport : (session w).report = r) (hkept : (session w).state.table = t)
    (hnext : ∀ a, r.outcome = .ok a → Carries t (next a (session w).state) (rest a)) :
    Carries t ((session >>= next) w) (r >>= rest) := by
  obtain ⟨events, e | a⟩ := r
  · have hfailed : (session >>= next) w = ⟨(session w).state, ⟨events, .error e⟩⟩ := by
      rw [Session.bind_apply, hreport]
    rw [hfailed]
    exact ⟨rfl, rfl, fun _ h => (by cases h), fun _ _ => hkept⟩
  · have hcarries := hnext a rfl
    have hgoes : (session >>= next) w = ⟨(next a (session w).state).state,
        ⟨events ++ (next a (session w).state).report.events,
          (next a (session w).state).report.outcome⟩⟩ := by
      rw [Session.bind_apply, hreport]
    rw [hgoes]
    exact ⟨congrArg (events ++ ·) hcarries.events, hcarries.outcome, hcarries.table, hcarries.kept⟩

theorem enter_carries (t : AttributeTable) (patchSet : String) (w : Workbench) :
    Carries t (enter patchSet w) (pure (w.table.take patchSet w.scaling)) := by
  rw [enter_apply]
  refine ⟨rfl, rfl, ?_, fun _ h => (by cases h)⟩
  rintro t' ⟨⟩
  rfl

/-- A patch set is added in place as it is added to make a new table, and the table is not
touched before everything that can fail is done. -/
theorem add_carries (font : Font) (p : PatchSet) (c : Crosswalk) (w : Workbench) :
    Carries w.table (add font p c w) (w.table.add font p c) := by
  obtain ⟨hreport, hstate⟩ := collect_eq p c w
  refine Carries.bind rfl rfl fun _ _ => Carries.bind hreport (collect_keeps p c w) ?_
  intro collected hcollected
  change Carries _ ((scale font p c >>= fun _ => enter p.name) (collect p c w).state) _
  rw [hstate collected hcollected]
  exact Carries.bind rfl rfl fun _ _ => enter_carries w.table p.name _

end Workbench

end IconConstraints
