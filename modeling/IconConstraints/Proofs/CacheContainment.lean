import IconConstraints.BuiltIn
import IconConstraints.Extraction
import IconConstraints.OriginCache
import IconConstraints.Proofs.FileTree
import IconConstraints.Proofs.PathNormalForm
import IconConstraints.Proofs.Scripts

/-!
# Where cached fonts lie

A request writes at most one file, the font that it has fetched.  A filename that is
accepted keeps the file beneath the directory it is joined to, but the version is joined
as the script has it.  So the file lies beneath every cache directory exactly if the
directory of the version never climbs above its start.
-/

namespace IconConstraints.OriginCache

open IconConstraints.Path

variable {L : Libraries} {α β : Type} {session : Session (OriginCache L) α}
  {next : α → Session (OriginCache L) β} {p : Path} {fetched : FileTree → Report ByteArray}

/-! ## What a request writes -/

/-- The session changes the tree at most by writing what is fetched to a path without a file. -/
def StoresAt (session : Session (OriginCache L) α) (p : Path)
    (fetched : FileTree → Report ByteArray) : Prop :=
  ∀ c, (session c).state.tree = c.tree ∨
    c.tree.isFile p = false ∧ ∃ content, (fetched c.tree).outcome = .ok content ∧
      (session c).state.tree = (c.tree.write p content).1

theorem storesAt_of_keeps (h : session.Keeps (OriginCache.tree (L := L))) : StoresAt session p fetched :=
  fun c => .inl (h c)

theorem StoresAt.bind_keeps (h : StoresAt session p fetched)
    (hnext : ∀ a, (next a).Keeps (OriginCache.tree (L := L))) : StoresAt (session >>= next) p fetched := by
  intro c
  have hstate : ((session >>= next) c).state.tree = (session c).state.tree := by
    cases houtcome : (session c).report.outcome with
    | error e => rw [(Session.bind_of_error next houtcome).2]
    | ok a => rw [(Session.bind_of_ok next houtcome).2, hnext a]
  rw [hstate]
  exact h c

theorem StoresAt.of_bind {first : Session (OriginCache L) α} {a : α}
    (hfirst : ∀ c, first.Ends c (.ok a) c) (h : StoresAt (next a) p fetched) :
    StoresAt (first >>= next) p fetched := by
  intro c
  have hstate := (Session.bind_of_ok next (hfirst c).outcome).2
  rw [(hfirst c).state] at hstate
  rw [hstate]
  exact h c

section Requests

variable (fetcher : FontFetcher) (version filename : String)

theorem fetch_keeps_tree : (fetch fetcher version filename).Keeps (OriginCache.tree (L := L)) := by
  have hclosed := Session.keeps_closed (OriginCache.tree (L := L))
  refine hclosed.bind (fun _ => rfl) fun _ => hclosed.bind (hclosed.ofReport _) fun _ => ?_
  exact hclosed.bind (fun _ => rfl) fun _ => hclosed.ofReport _

theorem loadFace_keeps_tree : (loadFace p).Keeps (OriginCache.tree (L := L)) :=
  fun _ => rfl

theorem fetch_eq_ok {c : OriginCache L} {content : ByteArray}
    (h : (fetch fetcher version filename c).report.outcome = .ok content) :
    (fetcher c.tree version filename).outcome = .ok content := by
  obtain ⟨-, -, h⟩ := Session.bind_eq_ok.mp h
  obtain ⟨-, -, h⟩ := Session.bind_eq_ok.mp h
  obtain ⟨_, hget, h⟩ := Session.bind_eq_ok.mp h
  cases hget
  exact h

theorem provide_storesAt : StoresAt (provide (L := L) fetcher version filename p) p
    fun t => fetcher t version filename := by
  intro c
  have hprovide : (provide fetcher version filename p c).state =
      ((if c.tree.isFile p then Session.tell (.cacheHit p.text)
        else fetch fetcher version filename >>= fun content =>
          onTree (FileTree.writeFile p content)) c).state := rfl
  rw [hprovide]
  split
  case isTrue => exact .inl rfl
  case isFalse hfile =>
    have hkeeps := fetch_keeps_tree fetcher version filename c
    cases houtcome : (fetch fetcher version filename c).report.outcome with
    | error e => exact .inl (by rw [(Session.bind_of_error _ houtcome).2, hkeeps])
    | ok content =>
        have hfetched := fetch_eq_ok fetcher version filename houtcome
        refine .inr ⟨by simpa using hfile, content, hfetched, ?_⟩
        rw [(Session.bind_of_ok _ houtcome).2, ← hkeeps]
        exact FileTree.state_writeFile ..

theorem load_storesAt (directory : Path) (plain : Path) :
    StoresAt (load (L := L) (some directory) fetcher version plain)
      (cachedPath directory version plain) fun t => fetcher t version plain.text :=
  (provide_storesAt fetcher version plain.text).bind_keeps fun _ => loadFace_keeps_tree

theorem load_keeps_tree (plain : Path) :
    (load none fetcher version plain).Keeps (OriginCache.tree (L := L)) := by
  have hclosed := Session.keeps_closed (OriginCache.tree (L := L))
  exact hclosed.bind (fetch_keeps_tree fetcher version plain.text) fun _ => hclosed.pure _

theorem settle_keeps_tree (answer : Except Error Face) :
    Session.Keeps (match answer with
      | .ok face => do
        remember version filename (some face)
        return some face
      | .error (.invalidFont _ fault) => do
        Session.tell (.unusableFont filename version fault)
        remember version filename none
        return none
      | .error e => (Session.fail e : Session (OriginCache L) (Option Face))) OriginCache.tree := by
  have hclosed := Session.keeps_closed (OriginCache.tree (L := L))
  have hremember : ∀ face, (remember version filename face).Keeps (OriginCache.tree (L := L)) := fun _ _ => rfl
  split
  · exact hclosed.bind (hremember _) fun _ => hclosed.pure _
  · refine hclosed.bind (hclosed.ofReport _) fun _ => ?_
    exact hclosed.bind (hremember _) fun _ => hclosed.pure _
  · exact hclosed.ofReport _

theorem plainFilename_eq_ok {plain : Path} :
    plainFilename version filename = .ok plain ↔
      (Path.mk filename).isPlain = true ∧ plain = ⟨filename⟩ := by
  unfold plainFilename
  split
  case isTrue hplain => simp [hplain, eq_comm]
  case isFalse hplain => simp [hplain]

theorem resolve_storesAt (directory : Path) :
    StoresAt (resolve (L := L) (some directory) fetcher version filename)
      (cachedPath directory version ⟨filename⟩) fun t => fetcher t version filename := by
  unfold resolve
  cases hplain : plainFilename version filename with
  | error e => exact storesAt_of_keeps fun _ => rfl
  | ok plain =>
      obtain ⟨-, rfl⟩ := (plainFilename_eq_ok version filename).mp hplain
      refine StoresAt.of_bind (fun _ => ⟨rfl, rfl⟩) ?_
      exact (load_storesAt fetcher version directory _).bind_keeps fun answer =>
        settle_keeps_tree version filename answer

theorem resolve_uncached_keeps_tree :
    (resolve none fetcher version filename).Keeps (OriginCache.tree (L := L)) := by
  have hclosed := Session.keeps_closed (OriginCache.tree (L := L))
  unfold resolve
  refine hclosed.bind (hclosed.ofReport _) fun plain => ?_
  exact hclosed.bind (load_keeps_tree fetcher version plain) fun answer =>
    settle_keeps_tree version filename answer

theorem resolve_keeps_tree_of_not_plain (directory : Option Path)
    (hplain : (Path.mk filename).isPlain = false) :
    (resolve directory fetcher version filename).Keeps (OriginCache.tree (L := L)) := by
  have hrefused : plainFilename version filename =
      .error (.fetch filename version .unsafeFilename) := by simp [plainFilename, hplain]
  unfold resolve
  rw [hrefused]
  exact fun _ => rfl

/-- A font that has been resolved before is not resolved again. -/
theorem state_request (directory : Option Path) (c : OriginCache L) :
    (request directory fetcher version filename c).state = c ∨
      (request directory fetcher version filename c).state =
        (resolve directory fetcher version filename c).state := by
  have hget : (Session.get c).report.outcome = .ok c := rfl
  unfold request
  rw [(Session.bind_of_ok _ hget).2]
  cases c.resolved.lookup (key version filename) with
  | some face => exact .inl rfl
  | none => exact .inr rfl

theorem request_keeps_tree {directory : Option Path}
    (h : (resolve directory fetcher version filename).Keeps (OriginCache.tree (L := L))) :
    (request directory fetcher version filename).Keeps (OriginCache.tree (L := L)) := by
  intro c
  rcases state_request fetcher version filename directory c with hstate | hstate
  · rw [hstate]
  · rw [hstate, h c]

theorem request_storesAt (directory : Path) :
    StoresAt (request (L := L) (some directory) fetcher version filename)
      (cachedPath directory version ⟨filename⟩) fun t => fetcher t version filename := by
  intro c
  rcases state_request fetcher version filename (some directory) c with hstate | hstate
  · exact .inl (by rw [hstate])
  · rw [hstate]
    exact resolve_storesAt fetcher version filename directory c

end Requests

/-! ## Where it is written -/

/-- Whether the directory of a version never leads out of the directory it is in. -/
def neverClimbs (version : String) : Bool :=
  staysBelow 0 (following ("v" ++ version).toList)

theorem cachedPath_stack (directory : Path) (version : String) {filename : Path}
    (hplain : filename.isPlain = true) :
    (cachedPath directory version filename).stack =
      (following filename.text.toList).reverse ++
        (following ("v" ++ version).toList).foldl enter directory.stack := by
  obtain ⟨hrelative, hnames, -⟩ := following_of_isPlain hplain
  have hversion : (Path.mk ("v" ++ version)).isAbsolute = false := by
    simp [isAbsolute]
  unfold cachedPath
  rw [stack_join hrelative]
  change List.foldl enter (directory.join ⟨"v" ++ version⟩).stack _ = _
  rw [stack_join hversion, foldl_enter_names hnames]

theorem cachedPath_isBeneath_of_neverClimbs {version : String} (h : neverClimbs version = true)
    (directory : Path) {filename : Path} (hplain : filename.isPlain = true) :
    (cachedPath directory version filename).IsBeneath directory := by
  obtain ⟨-, -, hne⟩ := following_of_isPlain hplain
  have hnone : ∀ c ∈ ([] : List Component), c.isName = true := List.forall_mem_nil _
  obtain ⟨more, hmore⟩ :=
    foldl_enter_of_staysBelow hnone (fun c hc => following_cases hc) h directory.stack
  have hnormal : (cachedPath directory version filename).normal =
      directory.normal ++ (more.reverse ++ following filename.text.toList) := by
    unfold normal
    rw [cachedPath_stack directory version hplain]
    rw [List.nil_append] at hmore
    rw [hmore]
    simp
  unfold IsBeneath
  rw [hnormal]
  exact ⟨List.prefix_append .., by simp [hne]⟩

theorem exists_not_isBeneath_of_climbs {version : String} (h : neverClimbs version = false)
    {filename : Path} (hplain : filename.isPlain = true) :
    ∃ directory, ¬ (cachedPath directory version filename).IsBeneath directory := by
  obtain ⟨directory, n, hstack, hfresh⟩ :=
    exists_directory (following filename.text.toList ++ following ("v" ++ version).toList)
  simp only [List.mem_append, not_or] at hfresh
  refine ⟨directory, fun hbeneath => ?_⟩
  have hnone : ∀ c ∈ ([] : List Component), c.isName = true := List.forall_mem_nil _
  have hlost : Component.name n ∉
      (following ("v" ++ version).toList).foldl enter directory.stack := by
    rw [hstack]
    exact not_mem_foldl_enter_of_leaves hnone (fun c hc => following_cases hc) h hfresh.2
  -- The name of the directory is in its normal form but not in that of the cached file.
  have hmem : Component.name n ∈ (cachedPath directory version filename).normal :=
    hbeneath.1.subset (by simp [normal, hstack])
  rw [normal, List.mem_reverse, cachedPath_stack directory version hplain] at hmem
  rcases List.mem_append.mp hmem with hmem | hmem
  · exact hfresh.1 (List.mem_reverse.mp hmem)
  · exact hlost hmem

/-- All that requests write is fonts at their cached paths, and these lie beneath every
cache directory exactly if the version never climbs. -/
theorem requests_beneath_iff (L : Libraries) (version : String) :
    (∀ (directory : Path) (fetcher : FontFetcher) (filename : String),
      StoresAt (request (L := L) (some directory) fetcher version filename)
        (cachedPath directory version ⟨filename⟩) (fun t => fetcher t version filename) ∧
      ((Path.mk filename).isPlain = false →
        (request (some directory) fetcher version filename).Keeps (OriginCache.tree (L := L)))) ∧
    ((∀ (directory filename : Path), filename.isPlain = true →
      (cachedPath directory version filename).IsBeneath directory) ↔
        neverClimbs version = true) := by
  refine ⟨fun directory fetcher filename => ⟨request_storesAt fetcher version filename directory,
    fun hplain => request_keeps_tree fetcher version filename
      (resolve_keeps_tree_of_not_plain fetcher version filename (some directory) hplain)⟩, ?_, ?_⟩
  · intro hbeneath
    by_contra hclimbs
    have hplain : (Path.mk "a").isPlain = true := by decide
    obtain ⟨directory, hnot⟩ := exists_not_isBeneath_of_climbs (by simpa using hclimbs) hplain
    exact hnot (hbeneath directory ⟨"a"⟩ hplain)
  · exact fun h directory filename => cachedPath_isBeneath_of_neverClimbs h directory

theorem release_beneath :
    (cachedPath ⟨"/cache"⟩ "3.4.0" ⟨"a/b.otf"⟩).IsBeneath ⟨"/cache"⟩ :=
  (requests_beneath_iff .builtIn "3.4.0").2.mpr (by decide) ⟨"/cache"⟩ ⟨"a/b.otf"⟩ (by decide)

/-! ## A version that climbs -/

/-- A version that leads out of its own directory and out of the cache directory. -/
def climbingVersion : String := "/../../out"

/-- A script without patch sets that has the version. -/
def climbingSource : String :=
  Source.Word.scriptText climbingVersion []

/-- A script can have a version with which a font is written outside the cache directory. -/
theorem climbing_request_leaves :
    (Extraction.ofSource climbingSource .standard).outcome = .ok ⟨climbingVersion, []⟩ ∧
    (request (L := .builtIn) (some ⟨"/cache"⟩) (fun _ _ _ => .ofExcept (.ok "x".toUTF8)) climbingVersion
      "a.ttf" (.ofTree .empty)).state.tree.node? ["out", "a.ttf"] = some (.file "x".toUTF8) ∧
    ¬ (cachedPath ⟨"/cache"⟩ climbingVersion ⟨"a.ttf"⟩).IsBeneath ⟨"/cache"⟩ := by
  refine ⟨?_, ?_, ?_⟩
  · unfold Extraction.ofSource climbingSource
    rw [Source.Word.logicalLines_scriptText (by decide) (by simp) (by decide)]
    rfl
  · rfl
  · unfold IsBeneath
    decide

end IconConstraints.OriginCache
