import IconConstraints.PatchSet.Reading
import IconConstraints.Proofs.Session

/-!
# The order of fields in a display

The fields of a display are read one after another, and two kinds of fields end the reading: a
value that cannot be evaluated is an error, and an `Enabled` that is false drops the display.  All
other fields are looked up by their keys.  So it only matters which of the two kinds comes first:
displays with the same fields are read alike unless one of them alone has a value that cannot be
evaluated before an `Enabled` that is false.
-/

namespace IconConstraints

namespace PatchSet

variable {symbols : Symbols} {options : ExtractOptions} {field : String × Expr}
  {rest fields fields' : List (String × Expr)} {name : String} {index : Nat} {found found' : Fields}

/-- A display whose keys are string constants. -/
def display (fields : List (String × Expr)) : List DictItem :=
  fields.map fun field => .pair (.str field.1) field.2

theorem display_cons (field : String × Expr) (rest : List (String × Expr)) :
    display (field :: rest) = .pair (.str field.1) field.2 :: display rest := by
  simp [display]

/-! ## Verdicts on fields -/

/-- What a field does to the reading of its display. -/
inductive Verdict where
  | skipped
  | unevaluable
  | disabling
  | collected (v : Value)

def verdict (symbols : Symbols) (options : ExtractOptions) (field : String × Expr) : Verdict :=
  if options.ignoredKeys.contains field.1 then .skipped
  else if field.1 = "Enabled" then
    match evaluate options.switches field.2 with
    | .error _ => .unevaluable
    | .ok v => if v.truthy then .skipped else .disabling
  else
    match evaluate options.switches (substitute symbols field.2) with
    | .error _ => .unevaluable
    | .ok v => .collected v

/-- Some value cannot be evaluated. -/
def Failing (symbols : Symbols) (options : ExtractOptions)
    (fields : List (String × Expr)) : Prop :=
  ∃ field ∈ fields, verdict symbols options field = .unevaluable

/-- `Enabled` is false. -/
def Disabled (symbols : Symbols) (options : ExtractOptions)
    (fields : List (String × Expr)) : Prop :=
  ∃ field ∈ fields, verdict symbols options field = .disabling

/-- Some value before an `Enabled` that is false cannot be evaluated. -/
def Masked (symbols : Symbols) (options : ExtractOptions)
    (fields : List (String × Expr)) : Prop :=
  ∃ before after, fields = before ++ after ∧
    Failing symbols options before ∧ Disabled symbols options after

/-- The values that a display gives to its keys. -/
def collected (symbols : Symbols) (options : ExtractOptions) (fields : List (String × Expr)) :
    Fields :=
  fields.filterMap fun field =>
    match verdict symbols options field with
    | .collected v => some (field.1, v)
    | _ => none

theorem key_of_disabling (h : verdict symbols options field = .disabling) :
    field.1 = "Enabled" := by
  unfold verdict at h
  split at h
  · cases h
  · split at h
    · assumption
    · split at h <;> cases h

@[simp] theorem failing_nil : ¬ Failing symbols options [] := by
  simp [Failing]

@[simp] theorem failing_cons :
    Failing symbols options (field :: rest) ↔
      verdict symbols options field = .unevaluable ∨ Failing symbols options rest := by
  simp [Failing]

@[simp] theorem disabled_nil : ¬ Disabled symbols options [] := by
  simp [Disabled]

@[simp] theorem disabled_cons :
    Disabled symbols options (field :: rest) ↔
      verdict symbols options field = .disabling ∨ Disabled symbols options rest := by
  simp [Disabled]

theorem Masked.disabled (h : Masked symbols options fields) : Disabled symbols options fields := by
  obtain ⟨before, after, rfl, -, field, hfield, hdisabling⟩ := h
  exact ⟨field, List.mem_append_right before hfield, hdisabling⟩

theorem collected_cons (field : String × Expr) (rest : List (String × Expr)) :
    collected symbols options (field :: rest) =
      match verdict symbols options field with
      | .collected v => (field.1, v) :: collected symbols options rest
      | _ => collected symbols options rest := by
  unfold collected
  rw [List.filterMap_cons]
  cases verdict symbols options field <;> rfl

@[simp] theorem masked_nil : ¬ Masked symbols options [] :=
  fun h => disabled_nil h.disabled

@[simp] theorem masked_cons :
    Masked symbols options (field :: rest) ↔
      verdict symbols options field = .unevaluable ∧ Disabled symbols options rest ∨
        Masked symbols options rest := by
  constructor
  · rintro ⟨before, after, hfields, hfailing, hdisabled⟩
    cases before with
    | nil => exact absurd hfailing failing_nil
    | cons head before =>
        obtain ⟨rfl, rfl⟩ := List.cons_eq_cons.mp hfields
        rcases failing_cons.mp hfailing with hhead | hbefore
        · obtain ⟨later, hlater, hdisabling⟩ := hdisabled
          exact .inl ⟨hhead, later, List.mem_append_right before hlater, hdisabling⟩
        · exact .inr ⟨before, after, rfl, hbefore, hdisabled⟩
  · rintro (⟨hhead, hdisabled⟩ | ⟨before, after, rfl, hfailing, hdisabled⟩)
    · exact ⟨[field], rest, rfl, ⟨field, List.mem_singleton_self field, hhead⟩, hdisabled⟩
    · exact ⟨field :: before, after, rfl, failing_cons.mpr (.inr hfailing), hdisabled⟩

/-! ## Reading field by field -/

theorem readItems_cons :
    (readItems symbols options name found (display (field :: rest))).outcome.toOption =
      match verdict symbols options field with
      | .skipped => (readItems symbols options name found (display rest)).outcome.toOption
      | .unevaluable => none
      | .disabling => some none
      | .collected v => (readItems symbols options name ((field.1, v) :: found)
          (display rest)).outcome.toOption := by
  obtain ⟨key, value⟩ := field
  simp only [display_cons, readItems, key?, verdict]
  by_cases hignored : options.ignoredKeys.contains key = true
  · simp only [hignored, if_true]
  · simp only [hignored, Bool.false_eq_true, if_false]
    by_cases henabled : key = "Enabled"
    · simp only [henabled, if_true]
      cases evaluate options.switches value with
      | error => rfl
      | ok v =>
          dsimp only
          cases v.truthy <;> rfl
    · simp only [henabled, if_false]
      cases evaluate options.switches (substitute symbols value) <;> rfl

theorem readItems_of_collected (hfailing : ¬ Failing symbols options fields)
    (hdisabled : ¬ Disabled symbols options fields) :
    (readItems symbols options name found (display fields)).outcome.toOption =
      some (some ((collected symbols options fields).reverse ++ found)) := by
  induction fields generalizing found with
  | nil => rfl
  | cons field rest ih =>
      rw [failing_cons, not_or] at hfailing
      rw [disabled_cons, not_or] at hdisabled
      rw [readItems_cons, collected_cons]
      cases hverdict : verdict symbols options field with
      | skipped => exact ih hfailing.2 hdisabled.2
      | unevaluable => exact absurd hverdict hfailing.1
      | disabling => exact absurd hverdict hdisabled.1
      | collected v => simpa using ih hfailing.2 hdisabled.2

theorem readItems_of_failing (hfailing : Failing symbols options fields)
    (hdisabled : ¬ Disabled symbols options fields) :
    (readItems symbols options name found (display fields)).outcome.toOption = none := by
  induction fields generalizing found with
  | nil => exact absurd hfailing failing_nil
  | cons field rest ih =>
      rw [failing_cons] at hfailing
      rw [disabled_cons, not_or] at hdisabled
      rw [readItems_cons]
      cases hverdict : verdict symbols options field with
      | skipped => exact ih (hfailing.resolve_left (by simp [hverdict])) hdisabled.2
      | unevaluable => rfl
      | disabling => exact absurd hverdict hdisabled.1
      | collected v => exact ih (hfailing.resolve_left (by simp [hverdict])) hdisabled.2

/-- A false `Enabled` drops the display unless an error comes before it. -/
theorem readItems_of_disabled (hkeys : (fields.map Prod.fst).Nodup)
    (hdisabled : Disabled symbols options fields) :
    (Masked symbols options fields →
      (readItems symbols options name found (display fields)).outcome.toOption = none) ∧
    (¬ Masked symbols options fields →
      (readItems symbols options name found (display fields)).outcome.toOption = some none) := by
  induction fields generalizing found with
  | nil => exact absurd hdisabled disabled_nil
  | cons field rest ih =>
      rw [List.map_cons, List.nodup_cons] at hkeys
      rw [disabled_cons] at hdisabled
      rw [readItems_cons, masked_cons]
      cases hverdict : verdict symbols options field with
      | skipped =>
          simpa [hverdict] using ih hkeys.2 (hdisabled.resolve_left (by simp [hverdict]))
      | unevaluable =>
          have hrest := hdisabled.resolve_left (by simp [hverdict])
          simp [hrest]
      | disabling =>
          -- `Enabled` stands in a display once
          have hrest : ¬ Disabled symbols options rest := by
            rintro ⟨later, hlater, hdisabling⟩
            refine hkeys.1 (List.mem_map.mpr ⟨later, hlater, ?_⟩)
            rw [key_of_disabling hdisabling, key_of_disabling hverdict]
          simpa using fun hmasked : Masked symbols options rest => hrest hmasked.disabled
      | collected v =>
          simpa [hverdict] using ih hkeys.2 (hdisabled.resolve_left (by simp [hverdict]))

/-! ## Fields looked up by their keys -/

theorem lookup_perm {α β : Type} [BEq α] [LawfulBEq α] {l l' : List (α × β)} (h : l.Perm l')
    (hkeys : (l.map Prod.fst).Nodup) (k : α) : l.lookup k = l'.lookup k := by
  induction h with
  | nil => rfl
  | cons pair _ ih =>
      rw [List.map_cons, List.nodup_cons] at hkeys
      rw [List.lookup_cons, List.lookup_cons, ih hkeys.2]
  | swap first second rest =>
      obtain ⟨first, v⟩ := first
      obtain ⟨second, w⟩ := second
      have hne : second ≠ first := by
        rintro rfl
        simp at hkeys
      by_cases hfirst : k = first
      · simp [List.lookup_cons, hfirst, beq_false_of_ne hne.symm]
      · simp [List.lookup_cons, beq_false_of_ne hfirst]
  | trans h₁ _ ih₁ ih₂ => exact (ih₁ hkeys).trans (ih₂ ((h₁.map Prod.fst).nodup_iff.mp hkeys))

/-- A patch set depends on its fields through the values of their keys alone. -/
theorem ofFields_congr (h : ∀ key, found.lookup key = found'.lookup key) :
    ofFields found = ofFields found' := by
  simp only [ofFields, required, requiredString, h]

theorem keys_collected (fields : List (String × Expr)) :
    ((collected symbols options fields).map Prod.fst).Sublist (fields.map Prod.fst) := by
  induction fields with
  | nil => exact .slnil
  | cons field rest ih =>
      rw [collected_cons]
      cases verdict symbols options field with
      | collected => exact ih.cons_cons field.1
      | _ => exact ih.cons field.1

/-! ## Displays with the same fields -/

theorem failing_perm (h : fields.Perm fields') :
    Failing symbols options fields ↔ Failing symbols options fields' := by
  simp only [Failing, h.mem_iff]

theorem disabled_perm (h : fields.Perm fields') :
    Disabled symbols options fields ↔ Disabled symbols options fields' := by
  simp only [Disabled, h.mem_iff]

theorem collected_perm (h : fields.Perm fields') :
    (collected symbols options fields).Perm (collected symbols options fields') :=
  h.filterMap _

/-- What a display is read as, without the text of the error if there is one. -/
def reading? (symbols : Symbols) (options : ExtractOptions) (index : Nat)
    (fields : List (String × Expr)) : Option (Option PatchSet) :=
  (read symbols options index (display fields)).outcome.toOption

theorem reading?_eq :
    reading? symbols options index fields =
      (readItems symbols options (label index (display fields)) []
        (display fields)).outcome.toOption.bind fun
          | none => some none
          | some found => (ofFields found).toOption.map some := by
  unfold reading? read
  rw [Report.outcome_bind]
  cases (readItems symbols options (label index (display fields)) [] (display fields)).outcome with
  | error => rfl
  | ok found? =>
      cases found? with
      | none => rfl
      | some found =>
          change (((ofFields found).map some).mapError _).toOption =
            (ofFields found).toOption.map some
          cases ofFields found <;> rfl

theorem reading?_of_masked (hkeys : (fields.map Prod.fst).Nodup)
    (h : Masked symbols options fields) : reading? symbols options index fields = none := by
  rw [reading?_eq, (readItems_of_disabled hkeys h.disabled).1 h, Option.bind_none]

theorem reading?_of_disabled (hkeys : (fields.map Prod.fst).Nodup)
    (hdisabled : Disabled symbols options fields) (h : ¬ Masked symbols options fields) :
    reading? symbols options index fields = some none := by
  rw [reading?_eq, (readItems_of_disabled hkeys hdisabled).2 h, Option.bind_some]

theorem reading?_perm_of_not_disabled (hkeys : (fields.map Prod.fst).Nodup)
    (hperm : fields.Perm fields') (hdisabled : ¬ Disabled symbols options fields) :
    reading? symbols options index fields = reading? symbols options index fields' := by
  have hdisabled' : ¬ Disabled symbols options fields' := fun h =>
    hdisabled ((disabled_perm hperm).mpr h)
  rw [reading?_eq, reading?_eq]
  by_cases hfailing : Failing symbols options fields
  · rw [readItems_of_failing hfailing hdisabled,
      readItems_of_failing ((failing_perm hperm).mp hfailing) hdisabled']
  · have hfailing' : ¬ Failing symbols options fields' := fun h =>
      hfailing ((failing_perm hperm).mpr h)
    have hcollected : (collected symbols options fields).reverse.Perm
        (collected symbols options fields').reverse :=
      (List.reverse_perm _).trans ((collected_perm hperm).trans (List.reverse_perm _).symm)
    have hnodup : ((collected symbols options fields).reverse.map Prod.fst).Nodup := by
      rw [List.map_reverse, (List.reverse_perm _).nodup_iff]
      exact (keys_collected fields).nodup hkeys
    rw [readItems_of_collected hfailing hdisabled, readItems_of_collected hfailing' hdisabled',
      List.append_nil, List.append_nil]
    simp only [Option.bind_some, ofFields_congr (lookup_perm hcollected hnodup)]

/-- Displays with the same fields are read alike unless one of them alone fails before it is seen
to be disabled; a display that is disabled is dropped in every order in which it does not. -/
theorem read_alike_iff (index : Nat) (hkeys : (fields.map Prod.fst).Nodup)
    (hperm : fields.Perm fields') :
    (reading? symbols options index fields = reading? symbols options index fields' ↔
      (Masked symbols options fields ↔ Masked symbols options fields')) ∧
    (Masked symbols options fields → reading? symbols options index fields = none) ∧
    (Disabled symbols options fields → ¬ Masked symbols options fields →
      reading? symbols options index fields = some none) := by
  have hkeys' : (fields'.map Prod.fst).Nodup := (hperm.map Prod.fst).nodup_iff.mp hkeys
  refine ⟨?_, reading?_of_masked hkeys, reading?_of_disabled hkeys⟩
  by_cases hdisabled : Disabled symbols options fields
  case pos =>
    have hdisabled' : Disabled symbols options fields' := (disabled_perm hperm).mp hdisabled
    by_cases hmasked : Masked symbols options fields
    case pos =>
      rw [reading?_of_masked hkeys hmasked, iff_true_left hmasked]
      by_cases hmasked' : Masked symbols options fields'
      · simp [reading?_of_masked hkeys' hmasked', hmasked']
      · simp [reading?_of_disabled hkeys' hdisabled' hmasked', hmasked']
    case neg =>
      rw [reading?_of_disabled hkeys hdisabled hmasked, iff_false_left hmasked]
      by_cases hmasked' : Masked symbols options fields'
      · simp [reading?_of_masked hkeys' hmasked', hmasked']
      · simp [reading?_of_disabled hkeys' hdisabled' hmasked', hmasked']
  case neg =>
    have hmasked : ¬ Masked symbols options fields := fun h => hdisabled h.disabled
    have hmasked' : ¬ Masked symbols options fields' := fun h =>
      hdisabled ((disabled_perm hperm).mpr h.disabled)
    exact iff_of_true (reading?_perm_of_not_disabled hkeys hperm hdisabled)
      (iff_of_false hmasked hmasked')

/-- A display that is disabled, and of which one value names what nothing is bound to. -/
def draft : List (String × Expr) :=
  [("Enabled", .bool false), ("SymStart", .name "x"), ("Name", .str "A")]

def draftByName : List (String × Expr) :=
  [("Name", .str "A"), ("Enabled", .bool false), ("SymStart", .name "x")]

theorem drafts_read_alike :
    (draft.map Prod.fst).Nodup ∧ draft.Perm draftByName ∧
      reading? [] .standard 0 draft = reading? [] .standard 0 draftByName ∧
      reading? [] .standard 0 draft = some none := by
  have hkeys : (draft.map Prod.fst).Nodup := by decide
  have hperm : draft.Perm draftByName := by
    unfold draft draftByName
    exact List.perm_append_singleton _ [_, _]
  have hdisabled : Disabled [] .standard draft := ⟨_, .head _, rfl⟩
  have hname : verdict [] .standard ("Name", .str "A") = .collected (.str "A") := rfl
  have henabled : verdict [] .standard ("Enabled", .bool false) = .disabling := rfl
  have hmasked : ¬ Masked [] .standard draft := by
    simp [draft, hname, henabled]
  have hmasked' : ¬ Masked [] .standard draftByName := by
    simp [draftByName, hname, henabled]
  obtain ⟨hsame, -, hdropped⟩ := read_alike_iff 0 hkeys hperm
  exact ⟨hkeys, hperm, hsame.mpr (iff_of_false hmasked hmasked'), hdropped hdisabled hmasked⟩

/-- From the end, the value is met before `Enabled` is. -/
theorem draft_refused_from_end :
    draft.Perm draft.reverse ∧ Disabled [] .standard draft.reverse ∧
      reading? [] .standard 0 draft = some none ∧
      reading? [] .standard 0 draft.reverse = none := by
  exact ⟨draft.reverse_perm.symm, ⟨_, .tail _ (.tail _ (.head _)), rfl⟩, rfl, rfl⟩

end PatchSet

end IconConstraints
