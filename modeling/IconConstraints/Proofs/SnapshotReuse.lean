import IconConstraints.Proofs.Crosswalk
import IconConstraints.Proofs.Lines
import IconConstraints.Proofs.MemoryStore
import IconConstraints.Proofs.Scripts
import IconConstraints.Proofs.Stages

/-!
# Reuse of stored crosswalks

Runs share one store.  A stored crosswalk is taken for a patch set by version,
place, name and mode alone.  Where these determine what the runs would compute,
the store changes no outcome; where they do not, it may.
-/

namespace IconConstraints

namespace MemoryStore

variable {answer : (version filename : String) → Except Error (Option Font)}

/-! ## Runs -/

/-- What one run is asked for. -/
structure Run where
  source : String
  options : ExtractOptions
  destination : Font

namespace Run

def session (answer : (version filename : String) → Except Error (Option Font)) (r : Run) :
    Session MemoryStore Compilation :=
  Compilation.ofSource r.source r.options r.destination (origins answer) store

def extraction (r : Run) : Except Error Extraction :=
  (Extraction.ofSource r.source r.options).outcome

/-- The version and the rule table of the run on a store, or its error. -/
def outcome (answer : (version filename : String) → Except Error (Option Font)) (r : Run)
    (s : MemoryStore) : Except Error (String × RuleTable) :=
  (r.session answer s).report.outcome.map fun c => (c.version, c.table)

/-- The crosswalk that the run computes when none is stored. -/
def crosswalk (answer : (version filename : String) → Except Error (Option Font)) (r : Run)
    (version : String) (index : Nat) (p : PatchSet) : Except Error Crosswalk :=
  result (Crosswalk.ofPatchSet r.destination (origins answer) version index p)

/-- The mapping of the patch sets when the given snapshot is stored. -/
def mapping (answer : (version filename : String) → Except Error (Option Font)) (r : Run)
    (x : Extraction) (previous : Option Snapshot) : Except Error Mapping :=
  result (Mapping.ofPatchSets r.destination (origins answer) x.version x.patchSets previous)

def merged (r : Run) (x : Extraction) (crosswalks : List Crosswalk) :
    Except Error AttributeTable :=
  (AttributeTable.addAll r.destination .empty (x.patchSets.zip crosswalks)).outcome

/-- The store after the runs of a history, from the first to the last. -/
def after (answer : (version filename : String) → Except Error (Option Font))
    (history : List Run) : MemoryStore :=
  history.foldl (fun s r => (r.session answer s).state) .empty

end Run

/-! ## The stages of a run -/

def saved (s : MemoryStore) : Option Snapshot → MemoryStore
  | none => s
  | some snapshot => { s with snapshot := some snapshot, saves := s.saves + 1 }

theorem snapshot_saved (s : MemoryStore) (snapshot : Option Snapshot) :
    (s.saved snapshot).snapshot = snapshot.or s.snapshot := by
  cases snapshot <;> rfl

theorem saveIfStale_ends (snapshot : Option Snapshot) (s : MemoryStore) :
    (Compilation.saveIfStale store snapshot).Ends s (.ok ()) (s.saved snapshot) := by
  cases snapshot with
  | none => exact Session.ends_pure () s
  | some snapshot =>
      have hsave : (store.save snapshot).Ends s (.ok ()) (s.saved (some snapshot)) := ⟨rfl, rfl⟩
      exact hsave.bind (Session.ends_ofReport _ _)

namespace Run

private theorem load_ends (s : MemoryStore) : store.load.Ends s (.ok s.snapshot) s :=
  ⟨rfl, rfl⟩

private theorem mapping_ends {r : Run} {x : Extraction} {s : MemoryStore}
    {mapped : Except Error Mapping} (hmapped : r.mapping answer x s.snapshot = mapped) :
    ∃ t, (Mapping.ofPatchSets r.destination (origins answer) x.version x.patchSets
      s.snapshot).Ends s mapped t ∧ t.snapshot = s.snapshot :=
  ⟨_, ⟨(ofPatchSets_steady.outcome s).trans hmapped, rfl⟩, ofPatchSets_steady.snapshot s⟩

theorem session_ends_unread {r : Run} {e : Error} (hread : r.extraction = .error e)
    (s : MemoryStore) : (r.session answer).Ends s (.error e) s :=
  Compilation.ofSource_ends_unread hread s

theorem session_ends_unmapped {r : Run} {s : MemoryStore} {x : Extraction} {e : Error}
    (hread : r.extraction = .ok x) (hmapped : r.mapping answer x s.snapshot = .error e) :
    ∃ t, (r.session answer).Ends s (.error e) t ∧ t.snapshot = s.snapshot := by
  obtain ⟨t, ht, hkept⟩ := mapping_ends hmapped
  exact ⟨t, Compilation.ofSource_ends_unmapped hread (load_ends s) ht, hkept⟩

theorem session_ends_unmerged {r : Run} {s : MemoryStore} {x : Extraction} {m : Mapping}
    {e : Error} (hread : r.extraction = .ok x)
    (hmapped : r.mapping answer x s.snapshot = .ok m)
    (hmerged : r.merged x m.crosswalks = .error e) :
    ∃ t, (r.session answer).Ends s (.error e) t ∧ t.snapshot = s.snapshot := by
  obtain ⟨t, ht, hkept⟩ := mapping_ends hmapped
  exact ⟨t, Compilation.ofSource_ends_unmerged hread (load_ends s) ht hmerged, hkept⟩

theorem session_ends_compiled {r : Run} {s : MemoryStore} {x : Extraction} {m : Mapping}
    {attributes : AttributeTable} (hread : r.extraction = .ok x)
    (hmapped : r.mapping answer x s.snapshot = .ok m)
    (hmerged : r.merged x m.crosswalks = .ok attributes) :
    ∃ t, (r.session answer).Ends s (.ok (.ofStages x m attributes)) t ∧
      t.snapshot = m.snapshot.or s.snapshot := by
  obtain ⟨t, ht, hkept⟩ := mapping_ends hmapped
  refine ⟨t.saved m.snapshot, Compilation.ofSource_ends_compiled hread (load_ends s) ht hmerged
    (saveIfStale_ends m.snapshot t), ?_⟩
  rw [snapshot_saved, hkept]

theorem snapshot_after (r : Run) (s : MemoryStore) :
    (r.session answer s).state.snapshot = s.snapshot ∨
      ∃ x m, r.extraction = .ok x ∧ r.mapping answer x s.snapshot = .ok m ∧
        (r.session answer s).state.snapshot = m.snapshot.or s.snapshot := by
  cases hread : r.extraction with
  | error e => exact .inl (by rw [(session_ends_unread hread s).state])
  | ok x =>
      cases hmapped : r.mapping answer x s.snapshot with
      | error e =>
          obtain ⟨t, ht, hkept⟩ := session_ends_unmapped hread hmapped
          exact .inl (by rw [ht.state, hkept])
      | ok m =>
          cases hmerged : r.merged x m.crosswalks with
          | error e =>
              obtain ⟨t, ht, hkept⟩ := session_ends_unmerged hread hmapped hmerged
              exact .inl (by rw [ht.state, hkept])
          | ok attributes =>
              obtain ⟨t, ht, hsaved⟩ := session_ends_compiled hread hmapped hmerged
              exact .inr ⟨x, m, rfl, hmapped, by rw [ht.state, hsaved]⟩

theorem outcome_eq (r : Run) (s : MemoryStore) :
    r.outcome answer s = (do
      let x ← r.extraction
      let m ← r.mapping answer x s.snapshot
      let attributes ← r.merged x m.crosswalks
      return (x.version, attributes.compile)) := by
  unfold outcome
  cases hread : r.extraction with
  | error e =>
      rw [(session_ends_unread hread s).outcome]
      rfl
  | ok x =>
      change _ = (r.mapping answer x s.snapshot >>= _)
      cases hmapped : r.mapping answer x s.snapshot with
      | error e =>
          obtain ⟨t, ht, -⟩ := session_ends_unmapped hread hmapped
          rw [ht.outcome]
          rfl
      | ok m =>
          change _ = (r.merged x m.crosswalks >>= _)
          cases hmerged : r.merged x m.crosswalks with
          | error e =>
              obtain ⟨t, ht, -⟩ := session_ends_unmerged hread hmapped hmerged
              rw [ht.outcome]
              rfl
          | ok attributes =>
              obtain ⟨t, ht, -⟩ := session_ends_compiled hread hmapped hmerged
              rw [ht.outcome]
              rfl

theorem outcome_congr {r : Run} {s t : MemoryStore}
    (h : ∀ x, r.extraction = .ok x →
      (r.mapping answer x s.snapshot).map Mapping.crosswalks =
        (r.mapping answer x t.snapshot).map Mapping.crosswalks) :
    r.outcome answer s = r.outcome answer t := by
  rw [outcome_eq, outcome_eq]
  cases hread : r.extraction with
  | error e => rfl
  | ok x =>
      change (r.mapping answer x s.snapshot >>= _) = (r.mapping answer x t.snapshot >>= _)
      rcases map_eq_map (h x hread) with ⟨e, hs, ht⟩ | ⟨m, m', hs, ht, hsame⟩
      · rw [hs, ht]
      · rw [hs, ht]
        change (r.merged x m.crosswalks >>= _) = (r.merged x m'.crosswalks >>= _)
        rw [hsame]

/-! ## Where stored crosswalks come from -/

/-- The run computed the stored crosswalk for a patch set of its own table. -/
def Computed (answer : (version filename : String) → Except Error (Option Font)) (r : Run)
    (version : String) (entry : SnapshotEntry) : Prop :=
  ∃ x p, r.extraction = .ok x ∧ x.version = version ∧ x.patchSets[entry.index]? = some p ∧
    p.name = entry.name ∧ p.exact = entry.exact ∧
    r.crosswalk answer version entry.index p = .ok entry.toCrosswalk

/-- Every stored crosswalk was computed by a run of the history. -/
def Recorded (answer : (version filename : String) → Except Error (Option Font))
    (history : List Run) (s : MemoryStore) : Prop :=
  ∀ snapshot, s.snapshot = some snapshot → ∀ entry ∈ snapshot.entries,
    ∃ q ∈ history, q.Computed answer snapshot.version entry

theorem computed_of_mapping {history : List Run} {r : Run} {s : MemoryStore} {x : Extraction}
    {m : Mapping} {snapshot : Snapshot} (hrecorded : Recorded answer history s)
    (hread : r.extraction = .ok x) (hmapped : r.mapping answer x s.snapshot = .ok m)
    (hsnapshot : m.snapshot = some snapshot) {entry : SnapshotEntry}
    (hentry : entry ∈ snapshot.entries) :
    ∃ q ∈ history ++ [r], q.Computed answer snapshot.version entry := by
  obtain ⟨done, haccepted, hcrosswalks, hstored⟩ := Mapping.ofPatchSets_eq_ok hmapped
  rw [hstored snapshot hsnapshot, Snapshot.ofCrosswalks, hcrosswalks] at hentry
  obtain ⟨c, hc, rfl⟩ := List.mem_map.mp hentry
  obtain ⟨i, hi, hget⟩ := List.getElem_of_mem hc
  have hci : done.crosswalks.reverse[i]? = some c := by
    rw [List.getElem?_eq_getElem hi, hget]
  have hip : i < x.patchSets.length := by
    rw [List.length_reverse, haccepted.length] at hi
    exact hi
  obtain ⟨p, hp⟩ : ∃ p, x.patchSets[i]? = some p := ⟨_, List.getElem?_eq_getElem hip⟩
  have hsupplied := haccepted.supplied i c p hci hp
  obtain ⟨hname, hindex, hexact⟩ := hsupplied.isFor
  have hversion : snapshot.version = x.version := by rw [hstored snapshot hsnapshot]; rfl
  rcases hsupplied with ⟨old, hold, rfl⟩ | ⟨t, ht⟩
  · obtain ⟨previous, hprevious, hreusable⟩ := Option.bind_eq_some_iff.mp hold
    obtain ⟨hsame, hmem, -⟩ := Snapshot.reusable?_eq_some hreusable
    obtain ⟨q, hq, hcomputed⟩ := hrecorded previous hprevious old hmem
    refine ⟨q, by simp [hq], ?_⟩
    unfold Computed
    rw [hversion, ← hsame, SnapshotEntry.toCrosswalk_ofCrosswalk]
    exact hcomputed
  · subst hindex
    refine ⟨r, by simp, x, p, hread, hversion.symm, hp, hname.symm, hexact.symm, ?_⟩
    rw [SnapshotEntry.toCrosswalk_ofCrosswalk, hversion]
    exact ((ofPatchSet_steady c.index p).outcome t).symm.trans ht

theorem Recorded.session {history : List Run} {r : Run} {s : MemoryStore}
    (hrecorded : Recorded answer history s) :
    Recorded answer (history ++ [r]) (r.session answer s).state := by
  have hkept : ∀ snapshot, s.snapshot = some snapshot → ∀ entry ∈ snapshot.entries,
      ∃ q ∈ history ++ [r], q.Computed answer snapshot.version entry := by
    intro snapshot hsnapshot entry hentry
    obtain ⟨q, hq, hcomputed⟩ := hrecorded snapshot hsnapshot entry hentry
    exact ⟨q, by simp [hq], hcomputed⟩
  intro snapshot hsnapshot entry hentry
  rcases r.snapshot_after s with hafter | ⟨x, m, hread, hmapped, hafter⟩
  · rw [hafter] at hsnapshot
    exact hkept snapshot hsnapshot entry hentry
  · rw [hafter] at hsnapshot
    rcases Option.or_eq_some_iff.mp hsnapshot with hnew | ⟨-, hold⟩
    · exact computed_of_mapping hrecorded hread hmapped hnew hentry
    · exact hkept snapshot hold entry hentry

theorem after_recorded (history : List Run) : Recorded answer history (after answer history) := by
  have hfold : ∀ (rest before : List Run) (s : MemoryStore), Recorded answer before s →
      Recorded answer (before ++ rest)
        (rest.foldl (fun s r => (r.session answer s).state) s) := by
    intro rest
    induction rest with
    | nil => simp
    | cons r rest ih =>
        intro before s hbefore
        simpa using ih (before ++ [r]) _ hbefore.session
  have hempty : Recorded answer [] .empty := by
    intro snapshot hsnapshot
    cases hsnapshot
  exact hfold history [] .empty hempty

/-! ## Transparency -/

/-- Wherever two runs of one version have a patch set with the same name and mode
at the same place, the second would compute the crosswalk that the first computes. -/
def Agrees (answer : (version filename : String) → Except Error (Option Font))
    (q r : Run) : Prop :=
  ∀ x y, q.extraction = .ok x → r.extraction = .ok y → x.version = y.version →
    ∀ i a b, x.patchSets[i]? = some a → y.patchSets[i]? = some b →
      a.name = b.name → a.exact = b.exact →
      ∀ c, q.crosswalk answer x.version i a = .ok c → r.crosswalk answer y.version i b = .ok c

theorem faithful_of_agrees {history : List Run} {r : Run} {y : Extraction}
    (hagrees : ∀ q ∈ history, q.Agrees answer r) (hread : r.extraction = .ok y) :
    Faithful answer r.destination y.version y.patchSets (after answer history).snapshot := by
  intro i p entry hp hentry
  obtain ⟨snapshot, hsnapshot, hreusable⟩ := Option.bind_eq_some_iff.mp hentry
  obtain ⟨hversion, hmem, hfor⟩ := Snapshot.reusable?_eq_some hreusable
  obtain ⟨hname, hindex, hexact⟩ := SnapshotEntry.toCrosswalk_isFor hfor
  obtain ⟨q, hq, x, a, hx, hxVersion, ha, haName, haExact, hcomputed⟩ :=
    after_recorded history snapshot hsnapshot entry hmem
  change entry.name = p.name at hname
  change entry.index = i at hindex
  change entry.exact = p.exact at hexact
  subst hindex
  rw [← hxVersion] at hcomputed
  exact hagrees q hq x y hx hread (hxVersion.trans hversion) entry.index a p ha hp
    (haName.trans hname) (haExact.trans hexact) _ hcomputed

/-- The store changes no outcome when the runs before agree with the new one. -/
theorem outcome_after_of_agrees
    (answer : (version filename : String) → Except Error (Option Font))
    (history : List Run) (r : Run) (hagrees : ∀ q ∈ history, q.Agrees answer r) :
    r.outcome answer (after answer history) = r.outcome answer .empty := by
  apply outcome_congr
  intro x hread
  exact ofPatchSets_faithful (faithful_of_agrees hagrees hread)

/-- Runs agree if their patch sets with one name and mode have the same origin font,
span and start, and their destination fonts have the same codepoints. -/
theorem agrees_of_same {q r : Run} (hfont : q.destination.has = r.destination.has)
    (hsame : ∀ x y, q.extraction = .ok x → r.extraction = .ok y → x.version = y.version →
      ∀ (i : Nat) (a b : PatchSet), x.patchSets[i]? = some a → y.patchSets[i]? = some b →
        a.name = b.name → a.exact = b.exact →
        a.filename = b.filename ∧ a.span = b.span ∧ a.srcStart = b.srcStart) :
    q.Agrees answer r := by
  intro x y hx hy hversion i a b ha hb hname hexact c hc
  obtain ⟨hfilename, hspan, hstart⟩ := hsame x y hx hy hversion i a b ha hb hname hexact
  unfold crosswalk at hc ⊢
  rwa [← Crosswalk.ofPatchSet_congr hfont hname hexact hfilename hspan hstart, ← hversion]

/-! ## A table that is mapped differently -/

open Source in
/-- A script with one patch set, which takes the codepoint 1. -/
def sampleLines : List (Nat × List Word) :=
  [(0, [.ofName "version", .ofOperator .assign, .ofText "1"]),
   (0, [.ofName "class", .ofName "font_patcher"]),
   (1, [.ofName "def", .ofName "setup_patch_set"]),
   (2, [.ofName "a", .ofOperator .dot, .ofName "patch_set", .ofOperator .assign,
    .ofOperator .openBracket, .ofOperator .openBrace,
    .ofText "Name", .ofOperator .colon, .ofText "A", .ofOperator .comma,
    .ofText "Filename", .ofOperator .colon, .ofText "a", .ofOperator .comma,
    .ofText "SymStart", .ofOperator .colon, ⟨'1', [], .int 1⟩, .ofOperator .comma,
    .ofText "SymEnd", .ofOperator .colon, ⟨'1', [], .int 1⟩, .ofOperator .comma,
    .ofText "Attributes", .ofOperator .colon, .ofOperator .openBrace,
    .ofText "default", .ofOperator .colon, .ofOperator .openBrace, .ofOperator .closeBrace,
    .ofOperator .closeBrace, .ofOperator .closeBrace, .ofOperator .closeBracket])]

def sampleSource : String :=
  "version = '1' \nclass font_patcher \n def setup_patch_set \n  a . patch_set = [ \x7b 'Name' : 'A' , 'Filename' : 'a' , 'SymStart' : 1 , 'SymEnd' : 1 , 'Attributes' : \x7b 'default' : \x7b \x7d \x7d \x7d ] \n"

def sampleExtraction : Extraction :=
  ⟨"1", [⟨"A", "a", true, 1, 1, none, none, ⟨.unset, ∅⟩⟩]⟩

theorem sampleLines_read : ∀ l ∈ sampleLines,
    l.2 ≠ [] ∧ (∀ w ∈ l.2, w.Reads) ∧ Source.Word.depth l.2 = 0 := by
  have htext : ∀ s ∈ ["1", "Name", "A", "Filename", "a", "SymStart", "SymEnd", "Attributes",
      "default"], (Source.Word.ofText s).Reads := by
    have hall : ["1", "Name", "A", "Filename", "a", "SymStart", "SymEnd", "Attributes",
        "default"].all (·.toList.all Source.Word.isVerbatim) = true := by decide
    intro s hs
    exact Source.Word.ofText_reads (List.all_eq_true.mp hall s hs)
  have hone : Source.Word.Reads ⟨'1', [], .int 1⟩ := by
    intro rest
    cases rest <;> rfl
  have hname : ∀ s ∈ ["version", "class", "font_patcher", "def", "setup_patch_set", "a",
      "patch_set"], (Source.Word.ofName s).Reads := by
    simp only [List.forall_mem_cons]
    exact ⟨fun _ => rfl, fun _ => rfl, fun _ => rfl, fun _ => rfl, fun _ => rfl, fun _ => rfl,
      fun _ => rfl, by simp⟩
  simp only [List.forall_mem_cons] at htext hname
  have hreads : ∀ l ∈ sampleLines, ∀ w ∈ l.2, w.Reads := by
    simp only [sampleLines, List.forall_mem_cons, htext, hname, hone,
      Source.Word.ofOperator_reads]
    simp
  have hshape : ∀ l ∈ sampleLines, l.2 ≠ [] ∧ Source.Word.depth l.2 = 0 := by
    simp only [sampleLines, List.forall_mem_cons]
    decide
  intro l hl
  exact ⟨(hshape l hl).1, hreads l hl, (hshape l hl).2⟩

set_option maxRecDepth 20000 in
theorem sample_lines :
    Source.logicalLines sampleSource = .ok (Source.Word.lines 1 sampleLines) :=
  Source.Word.logicalLines_text rfl sampleLines_read

def sampleRun (destination : Font) : Run :=
  ⟨sampleSource, .standard, destination⟩

theorem sampleRun_extraction (destination : Font) :
    (sampleRun destination).extraction = .ok sampleExtraction := by
  unfold sampleRun extraction Extraction.ofSource
  rw [sample_lines]
  rfl

/-- Origin fonts that are no outline fonts. -/
def noOutlines (_version _filename : String) : Except Error (Option Font) :=
  .ok none

/-- A destination font that has the codepoint 1 alone. -/
def fontOfOne : Font :=
  .ofGlyphs (Std.ExtTreeMap.ofList [(1, Font.Glyph.mk none none)])

/-- With a font that lacks the codepoint, the sample stores a crosswalk without pairs. -/
theorem sample_stored :
    (after noOutlines [sampleRun (.ofGlyphs ∅)]).snapshot =
      some ⟨"1", [⟨0, "A", true, []⟩]⟩ := by
  have hstages : ∃ (m : Mapping) (attributes : AttributeTable),
      (sampleRun (.ofGlyphs ∅)).mapping noOutlines sampleExtraction none = .ok m ∧
      (sampleRun (.ofGlyphs ∅)).merged sampleExtraction m.crosswalks = .ok attributes ∧
      m.snapshot = some ⟨"1", [⟨0, "A", true, []⟩]⟩ :=
    ⟨_, _, rfl, rfl, rfl⟩
  obtain ⟨m, attributes, hmapped, hmerged, hsnapshot⟩ := hstages
  obtain ⟨t, ht, hstored⟩ :=
    session_ends_compiled (s := .empty) (sampleRun_extraction _) hmapped hmerged
  change ((sampleRun (.ofGlyphs ∅)).session noOutlines .empty).state.snapshot = _
  rw [ht.state, hstored, hsnapshot]
  rfl

theorem sample_rules (previous : Option Snapshot) (n : Nat) (s : MemoryStore)
    (hs : s.snapshot = previous)
    (hstages : ∃ (m : Mapping) (attributes : AttributeTable),
      (sampleRun fontOfOne).mapping noOutlines sampleExtraction previous = .ok m ∧
      (sampleRun fontOfOne).merged sampleExtraction m.crosswalks = .ok attributes ∧
      attributes.classes.length = n) :
    ((sampleRun fontOfOne).outcome noOutlines s).map (·.2.size) = .ok n := by
  subst hs
  obtain ⟨m, attributes, hmapped, hmerged, hcount⟩ := hstages
  obtain ⟨t, ht, -⟩ := session_ends_compiled (sampleRun_extraction _) hmapped hmerged
  unfold outcome
  rw [ht.outcome]
  simp [Except.map, Compilation.ofStages, AttributeTable.compile, RuleTable.ofRules,
    RuleTable.size, hcount]

/-- After a run with one destination font, a run with another may lack a rule. -/
theorem not_always_transparent :
    ¬ ∀ (answer : (version filename : String) → Except Error (Option Font))
      (history : List Run) (r : Run),
      r.outcome answer (after answer history) = r.outcome answer .empty := by
  intro htransparent
  have hsame := htransparent noOutlines [sampleRun (.ofGlyphs ∅)] (sampleRun fontOfOne)
  have hafter := sample_rules _ 0 _ sample_stored ⟨_, _, rfl, rfl, rfl⟩
  have hempty := sample_rules none 1 .empty rfl ⟨_, _, rfl, rfl, rfl⟩
  rw [hsame, hempty] at hafter
  cases hafter

/-! ## Runs that agree -/

/-- A run of the same version whose script has no patch sets. -/
def bareRun : Run :=
  ⟨Source.Word.scriptText "1" [], .standard, .ofGlyphs ∅⟩

theorem bareRun_extraction : bareRun.extraction = .ok ⟨"1", []⟩ := by
  unfold bareRun extraction Extraction.ofSource
  rw [Source.Word.logicalLines_scriptText (by decide) (by simp) (by decide)]
  rfl

/-- Another font that has the codepoint 1 alone. -/
def widerFontOfOne : Font :=
  .ofGlyphs (Std.ExtTreeMap.ofList [(1, Font.Glyph.mk none (some 2.0))])

theorem widerFontOfOne_has : widerFontOfOne.has = fontOfOne.has := by
  funext cp
  simp [Font.has, Font.ofGlyphs, widerFontOfOne, fontOfOne]

/-- Neither a script without patch sets nor a font with the same codepoints makes a difference. -/
theorem transparent_after_agreeing_runs :
    (∀ q ∈ [bareRun, sampleRun widerFontOfOne], q.Agrees noOutlines (sampleRun fontOfOne)) ∧
      (sampleRun fontOfOne).outcome noOutlines
          (after noOutlines [bareRun, sampleRun widerFontOfOne]) =
        (sampleRun fontOfOne).outcome noOutlines .empty := by
  have hbare : bareRun.Agrees noOutlines (sampleRun fontOfOne) := by
    intro x y hx _ _ i a b ha
    rw [bareRun_extraction] at hx
    cases hx
    cases ha
  have hwider : (sampleRun widerFontOfOne).Agrees noOutlines (sampleRun fontOfOne) := by
    refine agrees_of_same widerFontOfOne_has fun x y hx hy _ i a b ha hb _ _ => ?_
    obtain rfl : x = y := Except.ok.inj (hx.symm.trans hy)
    obtain rfl : a = b := Option.some.inj (ha.symm.trans hb)
    exact ⟨rfl, rfl, rfl⟩
  have hagrees : ∀ q ∈ [bareRun, sampleRun widerFontOfOne],
      q.Agrees noOutlines (sampleRun fontOfOne) :=
    List.forall_mem_cons.mpr ⟨hbare, List.forall_mem_singleton.mpr hwider⟩
  exact ⟨hagrees, outcome_after_of_agrees noOutlines _ _ hagrees⟩

end Run

end MemoryStore

end IconConstraints
