import IconConstraints.Project
import IconConstraints.Proofs.Overlap

/-!
# Runs without overlap errors

No stage of a run makes an overlap error of its own: reading the script and the
stores have other errors, the mapping refuses what the attribute table would
refuse, and the attribute table then has nothing left to refuse.
-/

namespace IconConstraints

variable {σ τ : Type}

/-! ## Reading the script -/

theorem PatchSet.readItems_failsOnly (symbols : Symbols) (options : ExtractOptions)
    (label : String) (fields : Fields) (items : List DictItem) :
    (readItems symbols options label fields items).FailsOnly Error.NotOverlap := by
  induction items generalizing fields with
  | nil => exact Report.failsOnly_of_ok rfl
  | cons item rest ih =>
      cases item with
      | unpack e => exact (Report.failsOnly_of_ok rfl).bind fun _ _ => ih fields
      | pair key value =>
          unfold readItems
          cases key? options (.pair key value) with
          | none => exact ih fields
          | some field =>
              dsimp only
              split
              case h_1 => exact Report.failsOnly_fail id
              case h_2 =>
                split
                case isFalse => exact ih _
                case isTrue =>
                  split
                  case isTrue => exact ih fields
                  case isFalse => exact Report.failsOnly_of_ok rfl

theorem PatchSet.read_failsOnly (symbols : Symbols) (options : ExtractOptions) (index : Nat)
    (items : List DictItem) :
    (read symbols options index items).FailsOnly Error.NotOverlap := by
  unfold read
  refine (readItems_failsOnly symbols options _ [] items).bind fun fields _ => ?_
  cases fields with
  | none => exact Report.failsOnly_of_ok rfl
  | some fields =>
      intro e he
      cases hfields : ofFields fields with
      | error fault =>
          simp [hfields, Except.map, Except.mapError] at he
          subst he
          exact id
      | ok p => simp [hfields, Except.map, Except.mapError] at he

namespace Extraction

theorem addElement_failsOnly (symbols : Symbols) (options : ExtractOptions) (found : Found)
    (element : Expr) : (addElement symbols options found element).FailsOnly Error.NotOverlap := by
  unfold addElement
  split
  case h_1 items =>
    refine (PatchSet.read_failsOnly symbols options found.candidates items).bind fun p _ => ?_
    cases p with
    | none => exact Report.failsOnly_of_ok rfl
    | some p => exact Report.failsOnly_of_ok rfl
  case h_2 => exact Report.failsOnly_of_ok rfl

theorem addStatement_failsOnly (symbols : Symbols) (options : ExtractOptions) (found : Found)
    (l : Source.LogicalLine) :
    (addStatement symbols options found l).FailsOnly Error.NotOverlap := by
  unfold addStatement
  split
  case h_1 => exact Report.failsOnly_of_ok rfl
  case h_2 a _ =>
    split
    case isFalse => exact Report.failsOnly_of_ok rfl
    case isTrue =>
      split
      case h_1 => exact Report.failsOnly_fail id
      case h_2 elements _ =>
        exact Report.FailsOnly.foldlM (addElement_failsOnly symbols options) elements found
      case h_3 => exact Report.failsOnly_of_ok rfl

theorem setupRoutine_failsOnly (lines : List Source.LogicalLine) :
    (Report.ofExcept (setupRoutine lines)).FailsOnly Error.NotOverlap := by
  intro e he
  rw [Report.outcome_ofExcept] at he
  unfold setupRoutine at he
  split at he
  case h_1 =>
    cases he
    exact id
  case h_2 =>
    dsimp only at he
    split at he
    case h_1 => cases he
    case h_2 =>
      cases he
      exact id

theorem ofSource_failsOnly (source : String) (options : ExtractOptions) :
    (ofSource source options).FailsOnly Error.NotOverlap := by
  unfold ofSource
  refine Report.FailsOnly.bind ?_ fun lines _ => ?_
  · intro e he
    cases hlines : Source.logicalLines source with
    | error fault =>
        simp [hlines, Except.mapError] at he
        subst he
        exact id
    | ok lines => simp [hlines, Except.mapError] at he
  · cases version? lines with
    | none => exact Report.failsOnly_fail id
    | some version =>
        refine Report.FailsOnly.bind ?_ fun routine _ => ?_
        · exact setupRoutine_failsOnly lines
        · refine (Report.failsOnly_of_ok rfl).bind fun _ _ => ?_
          refine (Report.FailsOnly.foldlM (addStatement_failsOnly _ options) _ _).bind fun _ _ => ?_
          exact Report.failsOnly_of_ok rfl

end Extraction

/-! ## Mapping -/

namespace Mapping

variable {destination : Font} {origins : OriginFonts σ} {version : String}
  {patchSets : List PatchSet} {previous : Option Snapshot}

theorem claim_failsOnly (c : Crosswalk) (claimed : Claimed) (events : List Event)
    (pairs : List (Codepoint × Codepoint)) :
    (claim destination patchSets c claimed events pairs).FailsOnly Error.NotOverlap := by
  induction pairs generalizing claimed events with
  | nil => exact Report.failsOnly_of_ok rfl
  | cons pair rest ih =>
      obtain ⟨origin, cp⟩ := pair
      unfold claim
      dsimp only
      split
      case isFalse =>
        intro e he
        cases he
        exact id
      case isTrue =>
        split
        case h_1 => exact ih _ _
        case h_2 =>
          split
          case isTrue => exact ih _ _
          case isFalse =>
            intro e he
            cases he
            exact id

variable (horigins : ∀ version filename,
  (origins.request version filename).FailsOnly Error.NotOverlap)

include horigins

theorem originMap_failsOnly (p : PatchSet) :
    (Crosswalk.originMap origins version p).FailsOnly Error.NotOverlap := by
  unfold Crosswalk.originMap
  refine Session.FailsOnly.bind ?_ fun answer s hanswer => ?_
  · exact Session.failsOnly_of_ok fun s => ⟨_, Session.outcome_attempt _ s⟩
  · have hrequest : (origins.request version p.filename s).report.outcome = answer := by
      simpa using hanswer
    rcases answer with e | font | font
    · dsimp only
      split
      case isTrue => exact Session.failsOnly_of_ok fun _ => ⟨_, rfl⟩
      case isFalse => exact Session.failsOnly_fail (horigins version p.filename s e hrequest)
    · dsimp only
      split
      case isTrue => exact Session.failsOnly_of_ok fun _ => ⟨_, rfl⟩
      case isFalse => exact Session.failsOnly_fail id
    · exact Session.failsOnly_of_ok fun _ => ⟨_, rfl⟩

theorem ofPatchSet_failsOnly (index : Nat) (p : PatchSet) :
    (Crosswalk.ofPatchSet destination origins version index p).FailsOnly Error.NotOverlap := by
  unfold Crosswalk.ofPatchSet
  refine (originMap_failsOnly horigins p).bind fun origin _ _ => ?_
  cases origin with
  | none =>
      exact Session.failsOnly_ofReport
        (Report.failsOnly_of_ok (Crosswalk.ofDestination_outcome destination index p))
  | some font =>
      refine Session.failsOnly_ofReport (Report.FailsOnly.bind ?_ fun pairs _ => ?_)
      · intro e he
        rw [Report.outcome_ofExcept] at he
        unfold Crosswalk.layOut at he
        split at he
        case isTrue => cases he
        case isFalse =>
          split at he
          case h_1 =>
            cases he
            exact id
          case h_2 => cases he
      · exact (Report.failsOnly_of_ok rfl).bind fun _ _ => Report.failsOnly_of_ok rfl

theorem nextCrosswalk_failsOnly (index : Nat) (p : PatchSet) :
    (nextCrosswalk destination origins version previous index p).FailsOnly
      Error.NotOverlap := by
  unfold nextCrosswalk
  split
  case h_1 => exact Session.failsOnly_of_ok fun _ => ⟨_, rfl⟩
  case h_2 =>
    exact (ofPatchSet_failsOnly horigins index p).bind fun _ _ _ =>
      Session.failsOnly_of_ok fun _ => ⟨_, rfl⟩

theorem steps_failsOnly (index : Nat) (rest : List PatchSet) (done : Progress) :
    (steps destination origins version patchSets previous index rest done).FailsOnly
      Error.NotOverlap := by
  induction rest generalizing index done with
  | nil => exact Session.failsOnly_of_ok fun _ => ⟨_, rfl⟩
  | cons p rest ih =>
      unfold steps
      refine Session.FailsOnly.bind ?_ fun next _ _ => ih (index + 1) next
      unfold step
      refine (nextCrosswalk_failsOnly horigins index p).bind fun made _ _ => ?_
      refine (Session.failsOnly_ofReport (claim_failsOnly made.1 _ _ _)).bind fun _ _ _ => ?_
      exact Session.failsOnly_of_ok fun _ => ⟨_, rfl⟩

theorem ofPatchSets_failsOnly :
    (ofPatchSets destination origins version patchSets previous).FailsOnly
      Error.NotOverlap := by
  unfold ofPatchSets
  exact (steps_failsOnly horigins 0 patchSets .start).bind fun _ _ _ =>
    Session.failsOnly_of_ok fun _ => ⟨_, rfl⟩

end Mapping

/-! ## Stores -/

/-- A store whose own errors are all of the given kind. -/
structure CrosswalkStore.FailsOnly (store : CrosswalkStore σ) (P : Error → Prop) : Prop where
  load : store.load.FailsOnly P
  save : ∀ snapshot, (store.save snapshot).FailsOnly P

theorem MemoryStore.store_failsOnly : MemoryStore.store.FailsOnly Error.NotOverlap :=
  ⟨Session.failsOnly_of_ok fun _ => ⟨_, rfl⟩,
    fun _ => Session.failsOnly_of_ok fun _ => ⟨_, rfl⟩⟩

theorem CrosswalkStore.FailsOnly.within {store : CrosswalkStore τ} {P : Error → Prop}
    (h : store.FailsOnly P) (part : σ → τ) (replace : τ → σ → σ) :
    (store.within part replace).FailsOnly P :=
  ⟨fun s => h.load (part s), fun snapshot s => h.save snapshot (part s)⟩

namespace Snapshot

variable (json : JsonLibrary)

theorem load_failsOnly (path : Path) (t : FileTree) :
    (load json path t).FailsOnly Error.NotOverlap := by
  unfold load
  split
  case h_1 => exact Report.failsOnly_of_ok rfl
  case h_2 => exact Report.failsOnly_fail id
  case h_3 =>
    split
    case h_1 => exact (Report.failsOnly_of_ok rfl).bind fun _ _ => Report.failsOnly_of_ok rfl
    case h_2 => exact (Report.failsOnly_of_ok rfl).bind fun _ _ => Report.failsOnly_of_ok rfl

theorem save_failsOnly (path : Path) (s : Snapshot) :
    (save json path s).FailsOnly Error.NotOverlap := by
  unfold save
  cases s.bytes json with
  | error reason => exact Session.failsOnly_fail id
  | ok content =>
      intro t e he
      change (FileTree.writeFile path content t).report.outcome = _ at he
      unfold FileTree.writeFile at he
      split at he
      case h_1 =>
        cases he
        exact id
      case h_2 => cases he

theorem fileStore_failsOnly (path : Path) : (fileStore json path).FailsOnly Error.NotOverlap :=
  ⟨load_failsOnly json path, save_failsOnly json path⟩

theorem forgettingStore_failsOnly :
    (forgettingStore : CrosswalkStore σ).FailsOnly Error.NotOverlap :=
  ⟨Session.failsOnly_of_ok fun _ => ⟨_, rfl⟩, fun _ => Session.failsOnly_of_ok fun _ => ⟨_, rfl⟩⟩

end Snapshot

/-- Neither a run with a cache nor one without has a store that fails with an overlap. -/
theorem Project.store_failsOnly (L : Libraries) (p : Project) (o : RunOptions) :
    (p.store L o).FailsOnly Error.NotOverlap := by
  unfold store
  split
  case isTrue => exact (Snapshot.fileStore_failsOnly L.json p.snapshotFile).within _ _
  case isFalse => exact Snapshot.forgettingStore_failsOnly

/-! ## Whole runs -/

namespace Compilation

theorem ofSource_failsOnly {source : String} {options : ExtractOptions} {destination : Font}
    {origins : OriginFonts σ} {store : CrosswalkStore σ}
    (horigins : ∀ version filename,
      (origins.request version filename).FailsOnly Error.NotOverlap)
    (hstore : store.FailsOnly Error.NotOverlap) :
    (ofSource source options destination origins store).FailsOnly Error.NotOverlap := by
  unfold ofSource
  refine (Session.failsOnly_ofReport (Extraction.ofSource_failsOnly source options)).bind
    fun extraction _ _ => ?_
  refine Session.FailsOnly.bind (Session.failsOnly_of_ok fun _ => ⟨_, rfl⟩) fun _ _ _ => ?_
  refine hstore.load.bind fun previous _ _ => ?_
  refine (Mapping.ofPatchSets_failsOnly horigins).bind fun mapping s hmapping => ?_
  refine (Session.failsOnly_ofReport (AttributeTable.addAll_accepted hmapping)).bind
    fun attributes _ _ => ?_
  refine Session.FailsOnly.bind (Session.failsOnly_of_ok fun _ => ⟨_, rfl⟩) fun _ _ _ => ?_
  refine Session.FailsOnly.bind ?_ fun _ _ _ => Session.failsOnly_of_ok fun _ => ⟨_, rfl⟩
  unfold saveIfStale
  cases mapping.snapshot with
  | none => exact Session.failsOnly_of_ok fun _ => ⟨_, rfl⟩
  | some snapshot =>
      exact (hstore.save snapshot).bind fun _ _ _ => Session.failsOnly_of_ok fun _ => ⟨_, rfl⟩

/-- No run ends with an overlap error, whatever the snapshot that it finds, and
no accepted mapping leaves one to the attribute table. -/
theorem never_overlaps (origins : OriginFonts σ) (store : CrosswalkStore σ)
    (horigins : ∀ version filename,
      (origins.request version filename).FailsOnly Error.NotOverlap)
    (hstore : store.FailsOnly Error.NotOverlap) :
    (∀ source options destination s patchSet cp,
      (ofSource source options destination origins store s).report.outcome ≠
        .error (.overlap patchSet cp)) ∧
    ∀ destination version patchSets previous s mapping,
      (Mapping.ofPatchSets destination origins version patchSets previous s).report.outcome =
        .ok mapping →
      ∀ patchSet cp,
        (AttributeTable.addAll destination .empty
          (patchSets.zip mapping.crosswalks)).outcome ≠ .error (.overlap patchSet cp) := by
  constructor
  · intro source options destination s patchSet cp h
    exact ofSource_failsOnly horigins hstore s _ h trivial
  · intro destination version patchSets previous s mapping hmapping patchSet cp h
    exact AttributeTable.addAll_accepted hmapping _ h trivial

/-- Two patch sets that land at one codepoint are mapped and added without an overlap. -/
theorem never_overlaps_in_sharing : ∃ mapping,
    (Mapping.ofPatchSets Mapping.sharedFont Mapping.sharedOrigins "1" Mapping.sharingSets none
      ()).report.outcome = .ok mapping ∧
    ∀ patchSet cp, (AttributeTable.addAll Mapping.sharedFont .empty
      (Mapping.sharingSets.zip mapping.crosswalks)).outcome ≠ .error (.overlap patchSet cp) := by
  have horigins : ∀ version filename,
      (Mapping.sharedOrigins.request version filename).FailsOnly Error.NotOverlap :=
    fun _ _ => Session.failsOnly_of_ok fun _ => ⟨_, rfl⟩
  exact ⟨_, rfl, (never_overlaps Mapping.sharedOrigins Snapshot.forgettingStore horigins
    Snapshot.forgettingStore_failsOnly).2 Mapping.sharedFont "1" Mapping.sharingSets none () _ rfl⟩

end Compilation

end IconConstraints
