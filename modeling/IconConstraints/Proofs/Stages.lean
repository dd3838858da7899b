import IconConstraints.Compilation
import IconConstraints.Proofs.Session

/-!
# The stages of a compilation

A compilation ends where its first failing stage ends.  The store is written by the
last stage alone, so before that a run has changed nothing but the state of the
origin fonts.
-/

namespace IconConstraints.Compilation

variable {σ : Type} {source : String} {options : ExtractOptions} {destination : Font}
  {origins : OriginFonts σ} {store : CrosswalkStore σ} {s t u : σ} {x : Extraction}
  {previous : Option Snapshot} {m : Mapping} {attributes : AttributeTable} {e : Error}

/-- What the results of all stages amount to. -/
def ofStages (x : Extraction) (m : Mapping) (attributes : AttributeTable) : Compilation :=
  ⟨x.version, attributes.compile, countsOf x.patchSets m attributes attributes.compile⟩

theorem read_ends {outcome : Except Error Extraction}
    (hread : (Extraction.ofSource source options).outcome = outcome) (s : σ) :
    (Session.ofReport (Extraction.ofSource source options)).Ends s outcome s :=
  ⟨hread, rfl⟩

theorem ofSource_ends_unread (hread : (Extraction.ofSource source options).outcome = .error e)
    (s : σ) : (ofSource source options destination origins store).Ends s (.error e) s :=
  (read_ends hread s).bind_error

theorem ofSource_ends_unloaded (hread : (Extraction.ofSource source options).outcome = .ok x)
    (hload : store.load.Ends s (.error e) t) :
    (ofSource source options destination origins store).Ends s (.error e) t :=
  (read_ends hread s).bind ((Session.ends_ofReport _ s).bind hload.bind_error)

theorem ofSource_ends_unmapped (hread : (Extraction.ofSource source options).outcome = .ok x)
    (hload : store.load.Ends s (.ok previous) s)
    (hmapped : (Mapping.ofPatchSets destination origins x.version x.patchSets previous).Ends s
      (.error e) t) :
    (ofSource source options destination origins store).Ends s (.error e) t :=
  (read_ends hread s).bind ((Session.ends_ofReport _ s).bind (hload.bind hmapped.bind_error))

theorem ofSource_ends_unmerged (hread : (Extraction.ofSource source options).outcome = .ok x)
    (hload : store.load.Ends s (.ok previous) s)
    (hmapped : (Mapping.ofPatchSets destination origins x.version x.patchSets previous).Ends s
      (.ok m) t)
    (hmerged : (AttributeTable.addAll destination .empty (x.patchSets.zip m.crosswalks)).outcome =
      .error e) :
    (ofSource source options destination origins store).Ends s (.error e) t :=
  (read_ends hread s).bind ((Session.ends_ofReport _ s).bind (hload.bind (hmapped.bind
    (Session.Ends.bind_error ⟨hmerged, rfl⟩))))

theorem ofSource_ends_unsaved (hread : (Extraction.ofSource source options).outcome = .ok x)
    (hload : store.load.Ends s (.ok previous) s)
    (hmapped : (Mapping.ofPatchSets destination origins x.version x.patchSets previous).Ends s
      (.ok m) t)
    (hmerged : (AttributeTable.addAll destination .empty (x.patchSets.zip m.crosswalks)).outcome =
      .ok attributes)
    (hsaved : (saveIfStale store m.snapshot).Ends t (.error e) u) :
    (ofSource source options destination origins store).Ends s (.error e) u := by
  refine (read_ends hread s).bind ((Session.ends_ofReport _ s).bind (hload.bind (hmapped.bind ?_)))
  exact Session.Ends.bind ⟨hmerged, rfl⟩ ((Session.ends_ofReport _ t).bind hsaved.bind_error)

theorem ofSource_ends_compiled (hread : (Extraction.ofSource source options).outcome = .ok x)
    (hload : store.load.Ends s (.ok previous) s)
    (hmapped : (Mapping.ofPatchSets destination origins x.version x.patchSets previous).Ends s
      (.ok m) t)
    (hmerged : (AttributeTable.addAll destination .empty (x.patchSets.zip m.crosswalks)).outcome =
      .ok attributes)
    (hsaved : (saveIfStale store m.snapshot).Ends t (.ok ()) u) :
    (ofSource source options destination origins store).Ends s
      (.ok (ofStages x m attributes)) u := by
  refine (read_ends hread s).bind ((Session.ends_ofReport _ s).bind (hload.bind (hmapped.bind ?_)))
  refine Session.Ends.bind ⟨hmerged, rfl⟩ ((Session.ends_ofReport _ t).bind ?_)
  exact hsaved.bind ((Session.ends_ofReport _ u).bind (Session.ends_pure _ u))

/-- What the stages of a compilation come to that begins with the state `s`. -/
structure Staged (source : String) (options : ExtractOptions) (destination : Font)
    (origins : OriginFonts σ) (store : CrosswalkStore σ) (s : σ) (x : Extraction) (m : Mapping)
    (attributes : AttributeTable) : Prop where
  read : (Extraction.ofSource source options).outcome = .ok x
  mapped : ∃ previous t u, store.load.Ends s (.ok previous) t ∧
    (Mapping.ofPatchSets destination origins x.version x.patchSets previous).Ends t (.ok m) u
  merged : (AttributeTable.addAll destination .empty (x.patchSets.zip m.crosswalks)).outcome =
    .ok attributes

theorem exists_staged {compiled : Compilation}
    (h : (ofSource source options destination origins store).Ends s (.ok compiled) t) :
    ∃ x m attributes, Staged source options destination origins store s x m attributes ∧
      compiled = ofStages x m attributes := by
  obtain ⟨x, s₁, hread, h⟩ := h.exists_of_bind
  obtain rfl : s = s₁ := hread.state
  obtain ⟨_, s₂, htold, h⟩ := h.exists_of_bind
  obtain rfl : s = s₂ := htold.state
  obtain ⟨previous, s₃, hloaded, h⟩ := h.exists_of_bind
  obtain ⟨m, s₄, hmapped, h⟩ := h.exists_of_bind
  obtain ⟨attributes, _, hmerged, h⟩ := h.exists_of_bind
  obtain ⟨_, _, -, h⟩ := h.exists_of_bind
  obtain ⟨_, _, -, h⟩ := h.exists_of_bind
  obtain ⟨_, _, -, h⟩ := h.exists_of_bind
  exact ⟨x, m, attributes, ⟨hread.outcome, ⟨previous, s₃, s₄, hloaded, hmapped⟩, hmerged.outcome⟩,
    (Except.ok.inj h.outcome).symm⟩

theorem ofSource_eq_ok {compiled : Compilation}
    (h : (ofSource source options destination origins store).Ends s (.ok compiled) t) :
    ∃ x m attributes, (Extraction.ofSource source options).outcome = .ok x ∧
      (AttributeTable.addAll destination .empty (x.patchSets.zip m.crosswalks)).outcome =
        .ok attributes ∧
      compiled = ofStages x m attributes := by
  obtain ⟨x, m, attributes, hstaged, hcompiled⟩ := exists_staged h
  exact ⟨x, m, attributes, hstaged.read, hstaged.merged, hcompiled⟩

end IconConstraints.Compilation
