import IconConstraints.Proofs.Workbench

/-!
# Patch sets that cannot be added

A patch set that is refused by an owner or that has a scale group without extent leaves
work half done, at any of its pairs or groups.  None of it is seen later: the table is as it
was, every call that collects begins anew, and so any further calls are answered as if the
patch set had not been tried.
-/

namespace IconConstraints

/-- What can be asked of a table that is worked on in place. -/
inductive Call where
  | add (p : PatchSet) (c : Crosswalk)
  | collect (p : PatchSet) (c : Crosswalk)
  | merge (patchSet : String) (entries : CodepointMap AttributeEntry)
  | entries
  | counts
  | compile

inductive Answer where
  | done
  | collected (entries : CodepointMap AttributeEntry)
  | entries (entries : List (Codepoint × AttributeEntry))
  | counts (counts : ScaleCounts)
  | rules (table : RuleTable)

namespace Workbench

variable {font : Font} {w w' : Workbench}

def answer (font : Font) : Call → Session Workbench Answer
  | .add p c => do
    add font p c
    return .done
  | .collect p c => do return .collected (← collect p c)
  | .merge patchSet entries => do
    mergeEntries patchSet entries.toList
    return .done
  | .entries => do return .entries (← Session.get).table.entries
  | .counts => do return .counts (← Session.get).table.counts
  | .compile => do
    let table := (← Session.get).table
    Session.tellAll table.compileEvents
    return .rules table.compile

/-- What is reported of calls that are made one after another, failed ones among them. -/
def answers (font : Font) : List Call → Workbench → List (Report Answer)
  | [], _ => []
  | call :: rest, w => (answer font call w).report :: answers font rest (answer font call w).state

/-! ## Only the table is seen -/

/-- Every call is answered as by a table with nothing at hand. -/
theorem answer_start (font : Font) (call : Call) (w : Workbench) :
    (answer font call w).report = (answer font call (start w.table)).report ∧
      (answer font call w).state.table = (answer font call (start w.table)).state.table := by
  cases call with
  | merge patchSet entries =>
      have hmerge : ∀ w, answer font (.merge patchSet entries) w =
          ⟨{ w with table := w.table.merge patchSet entries.toList }, .pure .done⟩ := fun w =>
        Session.bind_of_pure _ (mergeEntries_apply patchSet entries.toList w)
      rw [hmerge, hmerge]
      exact ⟨rfl, rfl⟩
  -- The others collect anew or read the table.
  | _ => exact ⟨rfl, rfl⟩

theorem answers_start (font : Font) (calls : List Call) (w : Workbench) :
    answers font calls w = answers font calls (start w.table) := by
  induction calls generalizing w with
  | nil => rfl
  | cons call rest ih =>
      obtain ⟨hreport, htable⟩ := answer_start font call w
      rw [answers, answers, hreport, ih (answer font call w).state, htable, ← ih]

/-! ## Failed calls -/

theorem Carries.fails {t : AttributeTable} {step : Step Workbench Unit}
    {r : Report AttributeTable} {e : Error} (h : Carries t step r)
    (he : step.report.outcome = .error e) : r.outcome = .error e ∧ step.state.table = t := by
  obtain ⟨events, e' | t'⟩ := r
  · cases he.symm.trans h.outcome
    exact ⟨rfl, h.kept e rfl⟩
  · cases he.symm.trans h.outcome

/-- A patch set that cannot be added, whatever stands in its way and however late, changes
nothing that is answered from then on. -/
theorem add_failed {p : PatchSet} {c : Crosswalk} {e : Error}
    (h : (add font p c w).report.outcome = .error e) :
    (w.table.add font p c).outcome = .error e ∧ (add font p c w).state.table = w.table ∧
      ∀ calls, answers font calls (add font p c w).state = answers font calls w := by
  obtain ⟨hfails, hkept⟩ := (add_carries font p c w).fails h
  refine ⟨hfails, hkept, fun calls => ?_⟩
  rw [answers_start, hkept, ← answers_start]

/-- A font whose glyphs but one have no height. -/
def mostlyFlatFont : Font where
  glyph? := some
  bounds? glyph := some (if glyph = 7 then ⟨0.0, 0.0, 2.0, 4.0⟩ else ⟨0.0, 0.0, 2.0, 0.0⟩)
  advance? _ := none

/-- The second of its scale groups has no extent. -/
def mostlyFlatIcons : PatchSet :=
  ⟨"A", "a", true, 7, 8, none, some ⟨[.list [7], .list [8]], none⟩, ⟨.unset, ∅⟩⟩

def mostlyFlatCrosswalk : Crosswalk :=
  .ofPairs "A" 0 true [(7, 7), (8, 8)]

def smallTable : AttributeTable :=
  AttributeTable.empty.merge "Pomicons" [(5, .unset)]

/-- The first group has been applied when the second one fails. -/
theorem mostlyFlatIcons_refused :
    ∃ step, step = add mostlyFlatFont mostlyFlatIcons mostlyFlatCrosswalk (start smallTable) ∧
      step.report.outcome = .error (.geometry "A" 1 2.0 0.0) ∧
      step.state.scaling.counts = ⟨1, 1⟩ ∧
      (smallTable.add mostlyFlatFont mostlyFlatIcons mostlyFlatCrosswalk).outcome =
        .error (.geometry "A" 1 2.0 0.0) ∧
      step.state.table = smallTable ∧
      ∀ calls, answers mostlyFlatFont calls step.state =
        answers mostlyFlatFont calls (start smallTable) := by
  have hfails : (add mostlyFlatFont mostlyFlatIcons mostlyFlatCrosswalk
      (start smallTable)).report.outcome = .error (.geometry "A" 1 2.0 0.0) := by rfl
  exact ⟨_, rfl, hfails, by decide +kernel, add_failed hfails⟩

end Workbench

end IconConstraints
