import IconConstraints.Proofs.Reuse
import IconConstraints.Proofs.SnapshotReuse
import IconConstraints.RuleTable.ZigSwitch
import IconConstraints.Snapshot.FileStore

/-!
# Runs on a store in memory, and running again

A run that fails leaves the store as it was.  A run that succeeds leaves a current
snapshot, which it writes at most once.  The same run on the store that it left comes
to the same table, without a request for an origin font and without writing.
-/

namespace IconConstraints

variable {ω : Type}

/-- The same origin fonts, with their state as a part of a larger one. -/
def OriginFonts.within {σ : Type} (part : σ → ω) (replace : ω → σ → σ) (origins : OriginFonts ω) :
    OriginFonts σ where
  request version filename := (origins.request version filename).within part replace

namespace Compilation

/-- Origin fonts of any kind beside a store in memory, each with a state of its own. -/
def originsBeside (origins : OriginFonts ω) : OriginFonts (ω × MemoryStore) :=
  origins.within Prod.fst fun o s => (o, s.2)

def storeBeside : CrosswalkStore (ω × MemoryStore) :=
  MemoryStore.store.within Prod.snd fun kept s => (s.1, kept)

def inMemory (source : String) (options : ExtractOptions) (destination : Font)
    (origins : OriginFonts ω) : Session (ω × MemoryStore) Compilation :=
  ofSource source options destination (originsBeside origins) storeBeside

/-- What the stages of a run come to that begins with the state `s`. -/
structure Through (source : String) (options : ExtractOptions) (destination : Font)
    (origins : OriginFonts ω) (s : ω × MemoryStore) (x : Extraction) (m : Mapping)
    (attributes : AttributeTable) : Prop where
  read : (Extraction.ofSource source options).outcome = .ok x
  mapped : (Mapping.ofPatchSets destination (originsBeside origins) x.version x.patchSets
    s.2.snapshot s).report.outcome = .ok m
  merged : (AttributeTable.addAll destination .empty (x.patchSets.zip m.crosswalks)).outcome =
    .ok attributes

variable {source : String} {options : ExtractOptions} {destination : Font}
  {origins : OriginFonts ω} {o : ω} {s : MemoryStore}

/-! ## The store after a run -/

theorem load_ends (o : ω) (s : MemoryStore) :
    (storeBeside : CrosswalkStore (ω × MemoryStore)).load.Ends (o, s) (.ok s.snapshot) (o, s) :=
  ⟨rfl, rfl⟩

theorem saveIfStale_ends (o : ω) (s : MemoryStore) (snapshot : Option Snapshot) :
    (saveIfStale storeBeside snapshot).Ends (o, s) (.ok ()) (o, s.saved snapshot) := by
  cases snapshot with
  | none => exact Session.ends_pure () _
  | some snapshot =>
      have hsave : ((storeBeside (ω := ω)).save snapshot).Ends (o, s) (.ok ())
          (o, s.saved (some snapshot)) := ⟨rfl, rfl⟩
      exact hsave.bind (Session.ends_ofReport _ _)

theorem mapping_ends (destination : Font) (origins : OriginFonts ω) (o : ω) (s : MemoryStore)
    (version : String) (patchSets : List PatchSet) (previous : Option Snapshot) :
    ∃ o', (Mapping.ofPatchSets destination (originsBeside origins) version patchSets
      previous).Ends (o, s) (Mapping.ofPatchSets destination (originsBeside origins) version
        patchSets previous (o, s)).report.outcome (o', s) := by
  have hkeeps : (Mapping.ofPatchSets destination (originsBeside origins) version patchSets
      previous).Keeps Prod.snd :=
    Mapping.ofPatchSets_closed (Session.keeps_closed Prod.snd) fun _ _ => rfl
  exact ⟨_, rfl, Prod.ext rfl (hkeeps (o, s))⟩

/-- A run fails without a change of the store, or goes through all stages and stores
the snapshot of its mapping, if there is one. -/
theorem inMemory_ends (source : String) (options : ExtractOptions) (destination : Font)
    (origins : OriginFonts ω) (o : ω) (s : MemoryStore) :
    (∃ e o', (inMemory source options destination origins).Ends (o, s) (.error e) (o', s)) ∨
      ∃ x m attributes o', Through source options destination origins (o, s) x m attributes ∧
        (inMemory source options destination origins).Ends (o, s)
          (.ok (ofStages x m attributes)) (o', s.saved m.snapshot) := by
  -- Stage after stage fails or goes on; the store is written behind the last of them.
  cases hread : (Extraction.ofSource source options).outcome with
  | error e => exact .inl ⟨e, o, ofSource_ends_unread hread _⟩
  | ok x =>
      obtain ⟨o', hmapping⟩ := mapping_ends destination origins o s x.version x.patchSets
        s.snapshot
      cases hmapped : (Mapping.ofPatchSets destination (originsBeside origins) x.version
          x.patchSets s.snapshot (o, s)).report.outcome with
      | error e =>
          rw [hmapped] at hmapping
          exact .inl ⟨e, o', ofSource_ends_unmapped hread (load_ends o s) hmapping⟩
      | ok m =>
          rw [hmapped] at hmapping
          cases hmerged : (AttributeTable.addAll destination .empty
              (x.patchSets.zip m.crosswalks)).outcome with
          | error e =>
              exact .inl ⟨e, o', ofSource_ends_unmerged hread (load_ends o s) hmapping hmerged⟩
          | ok attributes =>
              exact .inr ⟨x, m, attributes, o', ⟨hread, hmapped, hmerged⟩,
                ofSource_ends_compiled hread (load_ends o s) hmapping hmerged
                  (saveIfStale_ends o' s m.snapshot)⟩

theorem Through.isCurrent {x : Extraction} {m : Mapping} {attributes : AttributeTable}
    (h : Through source options destination origins (o, s) x m attributes) :
    ∃ stored, (s.saved m.snapshot).snapshot = some stored ∧
      stored.IsCurrent x.version x.patchSets m.crosswalks := by
  rw [MemoryStore.snapshot_saved]
  exact Mapping.ofPatchSets_isCurrent h.mapped

/-- An error leaves the store as it was.  After a success it was written at most once
and has, for the version of the run, as many entries as there are patch sets, and for
each of these a reusable one that gives the crosswalk which the run has used. -/
theorem store_after_run (source : String) (options : ExtractOptions) (destination : Font)
    (origins : OriginFonts ω) (o : ω) (s : MemoryStore) :
    let run := inMemory source options destination origins (o, s)
    match run.report.outcome with
    | .error _ => run.state.2 = s
    | .ok compilation => ∃ x m attributes stored,
      Through source options destination origins (o, s) x m attributes ∧
      compilation = ofStages x m attributes ∧
      (run.state.2 = s ∨
        run.state.2 = { s with snapshot := some stored, saves := s.saves + 1 }) ∧
      run.state.2.snapshot = some stored ∧ stored.version = compilation.version ∧
      stored.entries.length = x.patchSets.length ∧
      ∀ (i : Nat) (p : PatchSet), x.patchSets[i]? = some p → ∃ entry,
        stored.reusable? compilation.version i p.name p.exact = some entry ∧
        m.crosswalks[i]? = some entry.toCrosswalk := by
  intro run
  rcases inMemory_ends source options destination origins o s with
    ⟨e, o', hends⟩ | ⟨x, m, attributes, o', hthrough, hends⟩
  · rw [hends.outcome]
    exact congrArg Prod.snd hends.state
  · rw [hends.outcome]
    have hstate : run.state.2 = s.saved m.snapshot := congrArg Prod.snd hends.state
    obtain ⟨stored, hstored, hcurrent⟩ := hthrough.isCurrent
    refine ⟨x, m, attributes, stored, hthrough, rfl, ?_, hstate ▸ hstored, hcurrent.version,
      hcurrent.length, ?_⟩
    · rw [hstate]
      cases hsnapshot : m.snapshot with
      | none => exact .inl rfl
      | some snapshot =>
          rw [hsnapshot] at hstored
          cases hstored
          exact .inr rfl
    · intro i p hp
      have hentry := hcurrent.offers.exists_entry hp
      rw [Nat.zero_add] at hentry
      exact hentry

/-- Fonts none of which is an outline font; the state is the number of requests. -/
def countedOrigins : OriginFonts Nat :=
  ⟨fun _ _ n => ⟨n + 1, .pure none⟩⟩

/-- The store that the sample leaves. -/
def sampleStore : MemoryStore :=
  ⟨some ⟨"1", [⟨0, "A", true, [(1, 1)]⟩]⟩, 1, 0⟩

open MemoryStore.Run in
theorem sample_ends : ∃ first,
    (inMemory sampleSource .standard fontOfOne countedOrigins).Ends (0, .empty) (.ok first)
      (1, sampleStore) := by
  have hstages : ∃ (m : Mapping) (attributes : AttributeTable),
      (Mapping.ofPatchSets fontOfOne (originsBeside countedOrigins) "1" sampleExtraction.patchSets
        none).Ends (0, .empty) (.ok m) (1, .empty) ∧
      (AttributeTable.addAll fontOfOne .empty
        (sampleExtraction.patchSets.zip m.crosswalks)).outcome = .ok attributes ∧
      MemoryStore.empty.saved m.snapshot = sampleStore :=
    ⟨_, _, ⟨rfl, rfl⟩, rfl, by decide⟩
  obtain ⟨m, attributes, hmapped, hmerged, hsaved⟩ := hstages
  refine ⟨_, ofSource_ends_compiled (sampleRun_extraction fontOfOne) (load_ends 0 .empty) hmapped
    hmerged ?_⟩
  rw [← hsaved]
  exact saveIfStale_ends 1 .empty m.snapshot

open MemoryStore.Run in
theorem sample_leaves_current : ∃ stored x m attributes,
    Through sampleSource .standard fontOfOne countedOrigins (0, .empty) x m attributes ∧
    sampleStore.snapshot = some stored ∧ stored.entries.length = x.patchSets.length := by
  obtain ⟨first, hends⟩ := sample_ends
  have hstore := store_after_run sampleSource .standard fontOfOne countedOrigins 0 .empty
  simp only [hends.outcome, hends.state] at hstore
  obtain ⟨x, m, attributes, stored, hthrough, -, -, hstored, -, hlength, -⟩ := hstore
  exact ⟨stored, x, m, attributes, hthrough, hstored, hlength⟩

/-! ## Running again -/

/-- A run on the store that a successful run with the same script, options and
destination font has left.  Whatever the origin fonts are, their state stays as it is,
also if they count their requests in it. -/
theorem rerun_reuses_all {first : Compilation}
    (h : (inMemory source options destination origins (o, s)).report.outcome = .ok first)
    {ω' : Type} (origins' : OriginFonts ω') (o' : ω') :
    let left := (inMemory source options destination origins (o, s)).state.2
    ∃ x second, (Extraction.ofSource source options).outcome = .ok x ∧
      (inMemory source options destination origins').Ends (o', left) (.ok second) (o', left) ∧
      second.version = first.version ∧ second.table = first.table ∧
      (∀ generator, second.table.zig generator = first.table.zig generator) ∧
      second.counts.patchSets = x.patchSets.length ∧
      second.counts.reusedCrosswalks = x.patchSets.length ∧
      second.counts.computedCrosswalks = 0 := by
  intro left
  rcases inMemory_ends source options destination origins o s with
    ⟨e, t, hends⟩ | ⟨x, m, attributes, t, hthrough, hends⟩
  · rw [hends.outcome] at h
    cases h
  · rw [hends.outcome] at h
    cases h
    have hleft : left = s.saved m.snapshot := congrArg Prod.snd hends.state
    obtain ⟨stored, hstored, hcurrent⟩ := hthrough.isCurrent
    obtain ⟨-, -, ⟨claimed, hclaims⟩, -⟩ := Mapping.ofPatchSets_made hthrough.mapped
    have hmapping := Mapping.ofPatchSets_of_isCurrent (originsBeside origins') hcurrent
      hclaims (o', left)
    rw [← hstored, ← hleft] at hmapping
    exact ⟨x, ofStages x ⟨m.crosswalks, none, x.patchSets.length, 0⟩ attributes, hthrough.read,
      ofSource_ends_compiled hthrough.read (load_ends o' left) hmapping hthrough.merged
        (saveIfStale_ends o' left none), rfl, rfl, fun _ => rfl, rfl, rfl, rfl⟩

open MemoryStore.Run in
/-- The second run of the sample leaves the number of requests at one. -/
theorem sample_rerun : ∃ second,
    (inMemory sampleSource .standard fontOfOne countedOrigins).Ends (1, sampleStore) (.ok second)
      (1, sampleStore) ∧ second.counts.computedCrosswalks = 0 := by
  obtain ⟨first, hends⟩ := sample_ends
  obtain ⟨x, second, -, hagain, -, -, -, -, -, hcomputed⟩ :=
    rerun_reuses_all hends.outcome countedOrigins 1
  rw [hends.state] at hagain
  exact ⟨second, hagain, hcomputed⟩

end Compilation

end IconConstraints
