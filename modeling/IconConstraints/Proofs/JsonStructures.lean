import IconConstraints.Json.Shapes
import IconConstraints.Proofs.JsonScalars

/-!
# Arrays and records of JSON texts

Every text of an array is read as the list of its elements, and every text of a record as
the record, since its members are read one after another.  From the scalars on, each shape
therefore reads all texts of its values.
-/

namespace IconConstraints.Json

variable {α ρ : Type}

/-! ## Arrays -/

section Arrays

variable {read : Input → Outcome (α × Input)} {first : Bool} {lead : Input}

/-- What stands before a part: nothing before the first one, else a comma, before which there may be
blanks. -/
inductive Leads : Bool → Input → Prop where
  | first : Leads true []
  | further {after : List Char} : (∀ c ∈ after, c ∈ blanks) →
      Leads false (input after ++ [some ','])

theorem nextElement_leads (hlead : Leads first lead) {before : List Char}
    (hbefore : ∀ c ∈ before, c ∈ blanks) {c : Char} (hc : Opening c) (rest : Input) :
    nextElement first (lead ++ (input before ++ some c :: rest)) = .ok (some (some c :: rest)) := by
  have hnext := skipBlanks_to hbefore hc.not_blank rest
  have hcomma : c ≠ ',' := by
    rintro rfl
    exact hc (by decide)
  have hclosing : c ≠ ']' := by
    rintro rfl
    exact hc (by decide)
  cases hlead with
  | first => simp [nextElement, hnext, hcomma, hclosing]
  | further hafter =>
      rw [List.append_assoc, List.singleton_append, nextElement,
        skipBlanks_to hafter (by decide)]
      simp [hnext, hclosing]

theorem nextElement_close {after : List Char} (hafter : ∀ c ∈ after, c ∈ blanks) (rest : Input) :
    nextElement first (input after ++ some ']' :: rest) = .ok none := by
  rw [nextElement, skipBlanks_to hafter (by decide)]
  rfl

theorem closeArray_close {after : List Char} (hafter : ∀ c ∈ after, c ∈ blanks) (rest : Input) :
    closeArray (input after ++ some ']' :: rest) = .ok rest := by
  rw [closeArray, skipBlanks_to hafter (by decide)]
  rfl

theorem elements_close {after : List Char} (hafter : ∀ c ∈ after, c ∈ blanks) (fuel : Nat)
    (rest : Input) :
    elements read (fuel + 1) first (input after ++ some ']' :: rest) = .ok ([], rest) := by
  rw [elements, nextElement_close hafter]
  dsimp only
  rw [closeArray_close hafter]
  rfl

/-- An element is read where it is the next one, and the blanks behind it are left. -/
theorem Reads.next {tree : Tree} {a : α} (h : Reads read tree a) (hlead : Leads first lead)
    {text : List Char} (htext : IsText tree text) {rest : Input} (hrest : Delimited rest) :
    ∃ start after, (∀ c ∈ after, c ∈ blanks) ∧
      nextElement first (lead ++ (input text ++ rest)) = .ok (some start) ∧
      read start = .ok (a, input after ++ rest) := by
  cases htext with
  | intro hvalue haround =>
      obtain ⟨before, after, hbefore, hafter, rfl⟩ := haround
      have hread := h.value hvalue (hrest.after hafter)
      obtain ⟨c, cs, rfl, hc⟩ := hvalue.opens
      refine ⟨_, after, hafter, ?_, hread⟩
      simp only [input_append, input_cons, List.cons_append, List.append_assoc]
      exact nextElement_leads hlead hbefore hc _

theorem elements_reads {tree : α → Tree} {a : α} {items : List α}
    (hread : ∀ b ∈ a :: items, Reads read (tree b) b) (hlead : Leads first lead) {text : List Char}
    (htext : AreItems (List.map tree (a :: items)) text) {fuel : Nat} (hfuel : items.length + 1 < fuel)
    (rest : Input) :
    elements read fuel first (lead ++ (input text ++ some ']' :: rest)) = .ok (a :: items, rest) := by
  induction items generalizing a first lead text fuel with
  | nil =>
      obtain ⟨fuel, rfl⟩ : ∃ n, fuel = n + 2 := Nat.exists_eq_add_of_le' hfuel
      cases htext with
      | last htext =>
          obtain ⟨start, after, hafter, hnext, ha⟩ := (hread a List.mem_cons_self).next hlead htext
            (.mark rest (by decide : ']' ∈ _))
          rw [elements, hnext]
          dsimp only
          rw [ha]
          dsimp only
          rw [elements_close hafter]
  | cons b items ih =>
      obtain ⟨fuel, rfl⟩ : ∃ n, fuel = n + 1 := Nat.exists_eq_add_of_le' (Nat.one_le_of_lt hfuel)
      cases htext with
      | @cons _ _ _ text more htext hmore =>
          have hcomma : Delimited (some ',' :: (input more ++ some ']' :: rest)) :=
            .mark _ (by decide)
          obtain ⟨start, after, hafter, hnext, ha⟩ := (hread a List.mem_cons_self).next hlead htext
            hcomma
          have hitems := ih (fun c hc => hread c (List.mem_cons_of_mem a hc)) (.further hafter) hmore
            (Nat.lt_of_succ_lt_succ hfuel)
          rw [List.append_assoc, List.singleton_append] at hitems
          rw [input_append, input_cons, List.append_assoc, List.cons_append, elements, hnext]
          dsimp only
          rw [ha]
          dsimp only
          rw [hitems]

theorem AreItems.length_le {items : List Tree} {text : List Char} (h : AreItems items text) :
    items.length ≤ text.length + 1 := by
  induction items generalizing text with
  | nil => exact Nat.zero_le _
  | cons tree items ih =>
      cases h with
      | last => exact Nat.le_add_left _ _
      | cons _ hrest =>
          have hle := ih hrest
          simp only [List.length_cons, List.length_append] at hle ⊢
          omega

theorem reads_array {tree : α → Tree} {items : List α}
    (hread : ∀ a ∈ items, Reads read (tree a) a) :
    Reads (array read) (.array (items.map tree)) items := by
  refine Reads.of_value fun text rest htext _ => ?_
  cases htext with
  | array hitems =>
      simp only [input_cons, input_append, input_nil, List.cons_append, List.append_assoc,
        List.nil_append]
      cases items with
      | nil =>
          cases hitems with
          | none haround =>
              obtain ⟨before, after, hbefore, hafter, rfl⟩ := haround
              have hblank := List.forall_mem_append.mpr ⟨hbefore, hafter⟩
              exact elements_close hblank _ rest
      | cons a items =>
          refine elements_reads hread .first hitems ?_ rest
          have hlength := hitems.length_le
          rw [List.length_map, List.length_cons] at hlength
          rw [List.length_append, length_input, List.length_cons]
          omega

theorem reads_pair {tree₁ tree₂ : Tree} {a₁ a₂ : α} (h₁ : Reads read tree₁ a₁)
    (h₂ : Reads read tree₂ a₂) : Reads (pair read) (.array [tree₁, tree₂]) (a₁, a₂) := by
  unfold pair
  refine Reads.of_value fun text rest htext _ => ?_
  cases htext with
  | array hitems =>
  cases hitems with
  | @cons _ _ _ text more htext hmore =>
  cases hmore with
  | last hmore =>
      obtain ⟨start, after, hafter, hstart, hread₁⟩ := h₁.next .first htext
        (.mark (input more ++ some ']' :: rest) (by decide : ',' ∈ _))
      obtain ⟨next, after', hafter', hnext, hread₂⟩ := h₂.next (.further hafter) hmore
        (.mark rest (by decide : ']' ∈ _))
      rw [List.append_assoc, List.singleton_append] at hnext
      simp only [input_cons, input_append, input_nil, List.cons_append, List.append_assoc,
        List.nil_append]
      simp only [List.nil_append] at hstart
      simp [bind, Except.bind, elementAt, hstart, hread₁, hnext, hread₂, closeArray_close hafter']
      rfl

end Arrays

/-! ## Members -/

section Members

variable {field : ρ → String → Option (Input → Outcome (ρ × Input))} {first : Bool} {lead : Input}

theorem nextKey_leads (hlead : Leads first lead) {before : List Char}
    (hbefore : ∀ c ∈ before, c ∈ blanks) {name : String} {literal : List Char}
    (hliteral : IsLiteral name literal) (rest : Input) :
    nextKey first (lead ++ (input before ++ (input literal ++ rest))) = .ok (some (name, rest)) := by
  obtain ⟨tail, htail, hbody⟩ := hliteral.input_append rest
  have hnext := skipBlanks_to hbefore (by decide : '"' ∉ blanks) tail
  rw [htail]
  cases hlead with
  | first => simp [nextKey, hnext, hbody, Except.map]
  | further hafter =>
      rw [List.append_assoc, List.singleton_append, nextKey,
        skipBlanks_to hafter (by decide)]
      simp [hnext, hbody, Except.map]

theorem nextKey_close {after : List Char} (hafter : ∀ c ∈ after, c ∈ blanks) (rest : Input) :
    nextKey first (input after ++ some '\x7d' :: rest) = .ok none := by
  rw [nextKey, skipBlanks_to hafter (by decide)]
  rfl

theorem closeObject_close {after : List Char} (hafter : ∀ c ∈ after, c ∈ blanks) (rest : Input) :
    closeObject (input after ++ some '\x7d' :: rest) = .ok rest := by
  rw [closeObject, skipBlanks_to hafter (by decide)]
  rfl

theorem colon_append {after : List Char} (hafter : ∀ c ∈ after, c ∈ blanks) (rest : Input) :
    colon (input after ++ some ':' :: rest) = .ok rest := by
  rw [colon, skipBlanks_to hafter (by decide)]
  rfl

/-- What follows a key is read into the next record, up to blanks at its end. -/
def ReadsMember (read : Input → Outcome (ρ × Input)) (tree : Tree) (next : ρ) : Prop :=
  ∀ ⦃after text rest⦄, (∀ c ∈ after, c ∈ blanks) → IsText tree text → Delimited rest →
    ∃ last : List Char, (∀ c ∈ last, c ∈ blanks) ∧
      read (input after ++ some ':' :: (input text ++ rest)) = .ok (next, input last ++ rest)

theorem ReadsMember.map {σ : Type} {read : Input → Outcome (ρ × Input)} {tree : Tree} {next : ρ}
    (h : ReadsMember read tree next) (f : ρ → σ) :
    ReadsMember (fun input => (read input).map fun found => (f found.1, found.2)) tree (f next) := by
  intro after text rest hafter htext hrest
  obtain ⟨last, hlast, hread⟩ := h hafter htext hrest
  refine ⟨last, hlast, ?_⟩
  dsimp only
  rw [hread]
  rfl

/-- Reading members one after another takes one record to another. -/
inductive Fills (field : ρ → String → Option (Input → Outcome (ρ × Input))) :
    ρ → List (String × Tree) → ρ → Prop where
  | nil (record : ρ) : Fills field record [] record
  | cons {record next last : ρ} {name : String} {tree : Tree} {members : List (String × Tree)}
      {read : Input → Outcome (ρ × Input)} (known : field record name = some read)
      (reads : ReadsMember read tree next) (further : Fills field next members last) :
      Fills field record ((name, tree) :: members) last

theorem fieldValue_reads {read : Input → Outcome (α × Input)} {tree : Tree} {a : α}
    (h : Reads read tree a) (name : String) (set : α → ρ) :
    ReadsMember (fieldValue name none read set) tree (set a) := by
  intro after text rest hafter htext hrest
  obtain ⟨last, hlast, hread⟩ := h.text htext hrest
  refine ⟨last, hlast, ?_⟩
  unfold fieldValue
  dsimp only
  rw [colon_append hafter]
  dsimp only
  rw [hread]
  rfl

theorem members_step {record next : ρ} {name : String} {tree : Tree}
    {read : Input → Outcome (ρ × Input)} (known : field record name = some read)
    (reads : ReadsMember read tree next) (hlead : Leads first lead) {literal key text : List Char}
    (hliteral : IsLiteral name literal) (hkey : Around literal key) (htext : IsText tree text)
    {rest : Input} (hrest : Delimited rest) (fuel : Nat) :
    ∃ last : List Char, (∀ c ∈ last, c ∈ blanks) ∧
      members field (fuel + 1) first record
          (lead ++ (input key ++ some ':' :: (input text ++ rest))) =
        members field fuel false next (input last ++ rest) := by
  obtain ⟨before, after, hbefore, hafter, rfl⟩ := hkey
  obtain ⟨last, hlast, hread⟩ := reads hafter htext hrest
  refine ⟨last, hlast, ?_⟩
  simp only [input_append, List.append_assoc]
  rw [members, nextKey_leads hlead hbefore hliteral]
  dsimp only
  rw [known]
  dsimp only
  rw [hread]

theorem members_fills {record last : ρ} {m : String × Tree} {ms : List (String × Tree)}
    (h : Fills field record (m :: ms) last) (hlead : Leads first lead) {text : List Char}
    (htext : AreMembers (m :: ms) text) {fuel : Nat} (hfuel : ms.length + 1 < fuel) (rest : Input) :
    ∃ after : List Char, (∀ c ∈ after, c ∈ blanks) ∧
      members field fuel first record (lead ++ (input text ++ some '\x7d' :: rest)) =
        .ok (last, input after ++ some '\x7d' :: rest) := by
  induction ms generalizing record m first lead text fuel with
  | nil =>
      obtain ⟨fuel, rfl⟩ : ∃ n, fuel = n + 2 := Nat.exists_eq_add_of_le' hfuel
      cases h with
      | cons known reads further =>
      cases further with
      | nil =>
      cases htext with
      | last hliteral hkey htext =>
          obtain ⟨after, hafter, hstep⟩ := members_step known reads hlead hliteral hkey htext
            (.mark rest (by decide : '\x7d' ∈ _)) (fuel + 1)
          refine ⟨after, hafter, ?_⟩
          simp only [input_append, input_cons, List.append_assoc, List.cons_append]
          rw [hstep, members, nextKey_close hafter]
  | cons m' ms ih =>
      obtain ⟨fuel, rfl⟩ : ∃ n, fuel = n + 1 := Nat.exists_eq_add_of_le' (Nat.one_le_of_lt hfuel)
      cases h with
      | cons known reads further =>
      cases htext with
      | @cons _ _ _ _ _ _ text more hliteral hkey htext hmore =>
          have hcomma : Delimited (some ',' :: (input more ++ some '\x7d' :: rest)) :=
            .mark _ (by decide)
          obtain ⟨after, hafter, hstep⟩ := members_step known reads hlead hliteral hkey htext
            hcomma fuel
          obtain ⟨after', hafter', hmembers⟩ := ih further (.further hafter) hmore
            (Nat.lt_of_succ_lt_succ hfuel)
          refine ⟨after', hafter', ?_⟩
          rw [List.append_assoc, List.singleton_append] at hmembers
          simp only [input_append, input_cons, List.append_assoc, List.cons_append]
          rw [hstep, hmembers]

theorem AreMembers.length_le {members : List (String × Tree)} {text : List Char}
    (h : AreMembers members text) : members.length ≤ text.length + 1 := by
  induction members generalizing text with
  | nil => exact Nat.zero_le _
  | cons member members ih =>
      cases h with
      | last => exact Nat.le_add_left _ _
      | cons _ _ _ hrest =>
          have hle := ih hrest
          simp only [List.length_cons, List.length_append] at hle ⊢
          omega

theorem reads_record {expected : String} {inOrder : Input → Outcome (α × Input)}
    {unknown last : ρ} {complete : ρ → Input → Outcome α} {ms : List (String × Tree)} {a : α}
    (hfills : Fills field unknown ms last) (hcomplete : ∀ rest, complete last rest = .ok a) :
    Reads (record expected inOrder unknown field complete) (.object ms) a := by
  refine Reads.of_value fun text rest htext _ => ?_
  cases htext with
  | @object _ text hmembers =>
      have hbody : ∃ after : List Char, (∀ c ∈ after, c ∈ blanks) ∧
          members field ((input text ++ some '\x7d' :: rest).length + 1) true unknown
            (input text ++ some '\x7d' :: rest) = .ok (last, input after ++ some '\x7d' :: rest) := by
        cases ms with
        | nil =>
            cases hfills with
            | nil =>
            cases hmembers with
            | none haround =>
                obtain ⟨before, after, hbefore, hafter, rfl⟩ := haround
                have hblank := List.forall_mem_append.mpr ⟨hbefore, hafter⟩
                refine ⟨_, hblank, ?_⟩
                rw [List.nil_append, members, nextKey_close hblank]
        | cons m ms =>
            refine members_fills hfills .first hmembers ?_ rest
            have hlength := hmembers.length_le
            rw [List.length_cons] at hlength
            rw [List.length_append, length_input, List.length_cons]
            omega
      obtain ⟨after, hafter, hread⟩ := hbody
      simp only [input_cons, input_append, input_nil, List.cons_append, List.append_assoc,
        List.nil_append]
      simp only [bind, Except.bind, hread, hcomplete, closeObject_close hafter]
      rfl

end Members

/-! ## Shapes -/

/-- All fields have been read. -/
def Fields.known : (fields : Fields) → fields.Values → fields.Known
  | .nil, _ => ()
  | .cons _ _ rest, (value, values) => (some value, rest.known values)

theorem Fields.complete_known : ∀ (fields : Fields) (values : fields.Values) (rest : Input),
    fields.complete (fields.known values) rest = .ok values
  | .nil, (), _ => rfl
  | .cons name shape others, (value, values), rest => by
      have hothers := others.complete_known values rest
      simp only [Fields.complete, Fields.known, required, bind, Except.bind, hothers]
      rfl

theorem Fields.fills_rest {name : String} {shape : Shape} {fields : Fields} {known last : fields.Known}
    {members : List (String × Tree)} (h : Fills fields.field known members last)
    (hname : name ∉ members.map (·.1)) (value : Option shape.Value) :
    Fills (Fields.cons name shape fields).field (value, known) members (value, last) := by
  induction h with
  | nil known => exact .nil _
  | @cons known next last key tree members read hknown hreads _ ih =>
      rw [List.map_cons, List.mem_cons, not_or] at hname
      have hfield : (Fields.cons name shape fields).field (value, known) key =
          some fun input => (read input).map fun found => ((value, found.1), found.2) := by
        change (if key = name then _ else (fields.field known key).map _) = _
        rw [if_neg (Ne.symm hname.1), hknown]
        rfl
      exact .cons hfield (hreads.map (Prod.mk value)) (ih hname.2)

theorem Fields.map_members : ∀ (fields : Fields) (values : fields.Values),
    (fields.members values).map (·.1) = fields.names
  | .nil, _ => rfl
  | .cons name _ rest, (_, values) => congrArg (name :: ·) (rest.map_members values)

mutual

theorem Shape.reads : ∀ (shape : Shape) (value : shape.Value), shape.Fits value →
    Reads shape.read (shape.tree value) value
  | .bool, b, _ => reads_bool b
  | .string, s, _ => reads_string s
  | .unsigned name bits, n, h => reads_unsigned (Nat.pow_le_pow_right (by decide) h.1) name h.2
  | .list item, _, h => reads_array fun value hvalue => item.reads value (h value hvalue)
  | .pair item, (first, second), h => reads_pair (item.reads first h.1) (item.reads second h.2)
  | .record _ fields, values, h => reads_record (fields.fills values h) (fields.complete_known values)

theorem Fields.fills : ∀ (fields : Fields) (values : fields.Values), fields.Fit values →
    Fills fields.field fields.unknown (fields.members values) (fields.known values)
  | .nil, (), _ => .nil _
  | .cons name shape rest, (value, values), ⟨hname, hvalue, hvalues⟩ => by
      rw [← rest.map_members values] at hname
      exact .cons (if_pos rfl) (fieldValue_reads (shape.reads value hvalue) name _)
        (rest.fills_rest (rest.fills values hvalues) hname (some value))

end

theorem whole_reads {read : Input → Outcome (α × Input)} {tree : Tree} {a : α} (h : Reads read tree a)
    {text : List Char} (htext : IsText tree text) : whole read (input text) = .ok a := by
  obtain ⟨after, hafter, hread⟩ := h.text htext .done
  rw [List.append_nil, List.append_nil] at hread
  have hend := skipBlanks_append hafter []
  rw [List.append_nil] at hend
  unfold whole
  rw [hread]
  dsimp only
  rw [hend]
  rfl

end IconConstraints.Json
