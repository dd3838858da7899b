import Mathlib.Data.Finset.Card
import IconConstraints.BuiltIn
import IconConstraints.FontCache
import IconConstraints.Proofs.Session
import IconConstraints.TrueType.FontFile

/-!
# Faces used lately

A font cache knows nothing of its past but the faces that it keeps, in their order.  These are
the faces that it gave out last, of as many paths as there is room for, so which loads are
answered without a file can be told from the answers before.
-/

namespace IconConstraints

theorem Face.read_empty (fonts : FontLibrary) (p : Path) :
    ∃ e, Face.read fonts .empty p = .error e := by
  have hnode (place : Place) : FileTree.empty.node? place = none ∨
      FileTree.empty.node? place = some .directory := by
    unfold FileTree.node? FileTree.empty
    split
    · exact .inr rfl
    · exact .inl (by simp)
  have hat : (∃ fault, FileTree.empty.nodeAt p = .error fault) ∨
      FileTree.empty.nodeAt p = .ok .directory := by
    unfold FileTree.nodeAt
    cases FileTree.empty.placeOf p with
    | error fault => exact .inl ⟨fault, rfl⟩
    | ok place =>
        rcases hnode place with h | h
        · exact .inl ⟨.notFound, by simp only [h]⟩
        · exact .inr (by simp only [h])
  unfold Face.read FileTree.sizeOf FileTree.read
  rcases hat with ⟨fault, h⟩ | h
  · rw [h]
    exact ⟨fontError p.text fault, rfl⟩
  · rw [h]
    exact ⟨fontError p.text .isADirectory, rfl⟩

namespace LruLibrary

variable {κ ν : Type} [BEq κ] [LawfulBEq κ] {entries : List (κ × ν)} {entry : κ × ν} {key : κ} {value : ν}

theorem mem_used (h : entry ∈ used entries key value) :
    entry = (key, value) ∨ entry ∈ entries ∧ entry.1 ≠ key := by
  rcases List.mem_cons.mp h with h | h
  · exact .inl h
  · obtain ⟨hmem, hother⟩ := List.mem_filter.mp h
    exact .inr ⟨hmem, by simpa using hother⟩

theorem length_used_le (h : entries.lookup key = some value) :
    (used entries key value).length ≤ entries.length := by
  have hdropped : (entries.filter (·.1 != key)).length < entries.length := by
    obtain ⟨before, after, rfl, -⟩ := List.lookup_eq_some_iff.mp h
    exact List.length_filter_lt_length_iff_exists.mpr ⟨(key, value), by simp, by simp⟩
  exact hdropped

end LruLibrary

namespace FontCache

variable {L : Libraries} {t : FileTree} {p : Path} {c : FontCache L} {face : Face}

/-! ## One load -/

/-- The faces that are kept, the one used last first. -/
def entries (c : FontCache L) : List (List Path.Component × Face) :=
  L.faces.entries c.faces

theorem load_of_kept (t : FileTree) (h : (c.get p).1 = some face) :
    load t p c = ⟨(c.get p).2, .pure face⟩ := by
  cases hget : c.get p with
  | mk kept d =>
      rw [hget] at h
      cases h
      simp only [load, hget]

theorem load_kept (t : FileTree) (h : (c.get p).1 = some face) :
    (load t p).Ends c (.ok face) (c.get p).2 := by
  constructor <;> rw [load_of_kept t h]
  rfl

/-- The answer does not depend on the files, and none is read. -/
def Remembers (c : FontCache L) (p : Path) (face : Face) : Prop :=
  ∀ t, (load t p c).report = .pure face

section Standard

variable (S : L.faces.Standard)
include S

theorem get_value (c : FontCache L) (p : Path) : (c.get p).1 = c.entries.lookup p.components :=
  S.get_value c.faces p.components

theorem get_missing (h : (c.get p).1 = none) : (c.get p).2 = c :=
  congrArg FontCache.mk (S.get_missing c.faces p.components h)

theorem entries_get (h : (c.get p).1 = some face) :
    (c.get p).2.entries = LruLibrary.used c.entries p.components face :=
  S.entries_get c.faces p.components face h

theorem capacity_get (c : FontCache L) (p : Path) : (c.get p).2.capacity = c.capacity :=
  S.capacity_get c.faces p.components

theorem entries_put (c : FontCache L) (p : Path) (face : Face) : (c.put p face).entries =
    (LruLibrary.used c.entries p.components face).take c.capacity :=
  S.entries_put c.faces p.components face

theorem load_unkept (h : (c.get p).1 = none) : (load t p).Ends c (Face.read L.fonts t p)
    (match Face.read L.fonts t p with
      | .ok face => c.put p face
      | .error _ => c) := by
  have hget : c.get p = (none, c) := Prod.ext h (get_missing S h)
  constructor <;> cases hread : Face.read L.fonts t p <;> simp [load, hget, hread]

theorem load_failed {e : Error} (h : (load t p c).report.outcome = .error e) :
    (load t p c).state = c := by
  cases hkept : (c.get p).1 with
  | some face =>
      rw [load_of_kept t hkept] at h
      cases h
  | none =>
      have hload := load_unkept (t := t) S hkept
      rw [hload.outcome] at h
      rw [hload.state, h]

theorem load_succeeded (h : (load t p c).report.outcome = .ok face) :
    (c.get p).1 = some face ∧ (load t p c).state = (c.get p).2 ∨
      (load t p c).state = c.put p face := by
  cases hkept : (c.get p).1 with
  | some known =>
      rw [load_of_kept t hkept] at h ⊢
      cases h
      exact .inl ⟨rfl, rfl⟩
  | none =>
      have hload := load_unkept (t := t) S hkept
      rw [hload.outcome] at h
      exact .inr (by rw [hload.state, h])

theorem get_isSome_iff (c : FontCache L) (p : Path) :
    (c.get p).1.isSome = true ↔ p.components ∈ c.entries.map Prod.fst := by
  rw [get_value S, List.lookup_isSome_iff, List.mem_map]
  exact exists_congr fun entry => and_congr_right fun _ => beq_iff_eq.trans eq_comm

theorem remembers_iff : c.Remembers p face ↔ (c.get p).1 = some face := by
  constructor
  · intro h
    cases hkept : (c.get p).1 with
    | some known =>
        have hreport := h .empty
        rw [load_of_kept .empty hkept] at hreport
        cases hreport
        rfl
    | none =>
        obtain ⟨e, he⟩ := Face.read_empty L.fonts p
        have houtcome := (load_unkept (t := .empty) S hkept).outcome
        rw [he, h .empty] at houtcome
        cases houtcome
  · intro h t
    rw [load_of_kept t h]

end Standard

/-! ## Many calls -/

inductive Call where
  /-- A face is asked for; the files are as they are at that time. -/
  | load (t : FileTree) (p : Path)
  | clear

/-- A cache and the faces that it has given out since it was cleared, each with the components of
its path, the latest first. -/
structure Usage (L : Libraries) where
  cache : FontCache L
  given : List (List Path.Component × Face)

namespace Usage

variable {L : Libraries}

def start (capacity : Nat) : Usage L :=
  ⟨ofCapacity capacity, []⟩

def call (u : Usage L) : Call → Usage L
  | .load t p =>
    let step := FontCache.load t p u.cache
    match step.report.outcome with
    | .ok face => ⟨step.state, (p.components, face) :: u.given⟩
    | .error _ => ⟨step.state, u.given⟩
  | .clear => ⟨u.cache.clear, []⟩

def after (capacity : Nat) (calls : List Call) : Usage L :=
  calls.foldl call (start capacity)

end Usage

/-! ## Paths used lately -/

/-- The paths without repetition, in the order in which they come first. -/
def firstOfEach : List (List Path.Component) → List (List Path.Component)
  | [] => []
  | path :: paths => path :: (firstOfEach paths).filter (· != path)

theorem mem_firstOfEach {path : List Path.Component} {paths : List (List Path.Component)} :
    path ∈ firstOfEach paths ↔ path ∈ paths := by
  induction paths with
  | nil => rfl
  | cons first paths ih =>
      by_cases heq : path = first
      · simp [firstOfEach, heq]
      · simp [firstOfEach, heq, ih]

theorem firstOfEach_nodup (paths : List (List Path.Component)) : (firstOfEach paths).Nodup := by
  induction paths with
  | nil => exact List.nodup_nil
  | cons first paths ih => exact List.nodup_cons.mpr ⟨by simp, ih.filter _⟩

theorem length_firstOfEach (paths : List (List Path.Component)) :
    (firstOfEach paths).length = paths.toFinset.card := by
  rw [← List.toFinset_card_of_nodup (firstOfEach_nodup paths)]
  congr 1
  ext path
  rw [List.mem_toFinset, List.mem_toFinset, mem_firstOfEach]

/-- The paths of which a face was given out last, as many of them as there is room for. -/
def Usage.recent (u : Usage L) : List (List Path.Component) :=
  (firstOfEach (u.given.map Prod.fst)).take u.cache.capacity

theorem take_cons_filter_take {paths : List (List Path.Component)} (hdistinct : paths.Nodup)
    (path : List Path.Component) (n : Nat) :
    (path :: (paths.take n).filter (· != path)).take n =
      (path :: paths.filter (· != path)).take n := by
  cases n with
  | zero => rfl
  | succ n =>
      rw [List.take_succ_cons, List.take_succ_cons]
      by_cases hroom : paths.length ≤ n + 1
      · rw [List.take_of_length_le hroom]
      · have htake : n ≤ ((paths.take (n + 1)).filter (· != path)).length := by
          rw [← (hdistinct.sublist (List.take_sublist _ _)).erase_eq_filter]
          have hlength := List.le_length_erase (a := path) (l := paths.take (n + 1))
          rw [List.length_take] at hlength
          omega
        conv => rhs; rw [← List.take_append_drop (n + 1) paths, List.filter_append]
        rw [List.take_append_of_le_length htake]

namespace Usage

variable {u : Usage L}

/-- The cache keeps the faces that were given out last, of as many paths as it has room for. -/
structure KeepsRecent (room : Nat) (u : Usage L) : Prop where
  capacity : u.cache.capacity = room
  paths : u.cache.entries.map Prod.fst = u.recent
  latest : ∀ entry ∈ u.cache.entries, u.given.lookup entry.1 = some entry.2

namespace KeepsRecent

variable {room : Nat}

theorem length_le (h : KeepsRecent room u) : u.cache.entries.length ≤ u.cache.capacity := by
  rw [← List.length_map Prod.fst, h.paths]
  exact List.length_take_le ..

theorem give {d : FontCache L} (h : KeepsRecent room u) (hcapacity : d.capacity = u.cache.capacity)
    (hentries : d.entries =
      (LruLibrary.used u.cache.entries p.components face).take u.cache.capacity) :
    KeepsRecent room ⟨d, (p.components, face) :: u.given⟩ where
  capacity := hcapacity.trans h.capacity
  paths := by
    have hothers : (u.cache.entries.filter (·.1 != p.components)).map Prod.fst =
        u.recent.filter (· != p.components) := by
      rw [← h.paths, List.filter_map]
      rfl
    simp only [hentries, hcapacity, LruLibrary.used, recent, List.map_cons, List.map_take, hothers,
      firstOfEach]
    exact take_cons_filter_take (firstOfEach_nodup _) _ _
  latest entry hentry := by
    simp only [hentries] at hentry
    rcases LruLibrary.mem_used (List.mem_of_mem_take hentry) with rfl | ⟨hkept, hother⟩
    · exact List.lookup_cons_self
    · rw [List.lookup_cons, beq_eq_false_iff_ne.mpr hother]
      exact h.latest entry hkept

section Standard

variable (S : L.faces.Standard)
include S

theorem start (capacity : Nat) :
    KeepsRecent (max capacity 1) (start capacity : Usage L) := by
  have hroom : 0 < max capacity 1 := by omega
  have hentries : (ofCapacity capacity : FontCache L).entries = [] := S.entries_new _ hroom
  refine ⟨S.capacity_new _ hroom, ?_, ?_⟩
  · simp [Usage.start, hentries, recent, firstOfEach]
  · simp [Usage.start, hentries]

theorem load (h : KeepsRecent room u)
    (houtcome : (FontCache.load t p u.cache).report.outcome = .ok face) :
    KeepsRecent room ⟨(FontCache.load t p u.cache).state, (p.components, face) :: u.given⟩ := by
  rcases load_succeeded S houtcome with ⟨hkept, hstate⟩ | hstate
  · rw [hstate]
    have hroom := (LruLibrary.length_used_le ((get_value S u.cache p).symm.trans hkept)).trans
      h.length_le
    refine h.give (capacity_get S u.cache p) ?_
    rw [List.take_of_length_le hroom, entries_get S hkept]
  · rw [hstate]
    exact h.give (S.capacity_put ..) (entries_put S ..)

theorem call (h : KeepsRecent room u) (call : Call) : KeepsRecent room (u.call call) := by
  cases call with
  | clear =>
      have hentries : u.cache.clear.entries = [] := S.entries_clear _
      refine ⟨(S.capacity_clear _).trans h.capacity, ?_, ?_⟩
      · simp [Usage.call, hentries, recent, firstOfEach]
      · simp [Usage.call, hentries]
  | load t p =>
      unfold Usage.call
      cases houtcome : (FontCache.load t p u.cache).report.outcome with
      | ok face =>
          simp only [houtcome]
          exact h.load S houtcome
      | error e =>
          simp only [houtcome, load_failed S houtcome]
          exact h

theorem after (capacity : Nat) (calls : List Call) :
    KeepsRecent (max capacity 1) (after capacity calls : Usage L) := by
  have hrun {u : Usage L} (h : KeepsRecent (max capacity 1) u) :
      KeepsRecent (max capacity 1) (calls.foldl Usage.call u) := by
    induction calls generalizing u with
    | nil => exact h
    | cons first calls ih => exact ih (h.call S first)
  exact hrun (.start S capacity)

theorem remembers_iff_mem (h : KeepsRecent room u) (p : Path) :
    (∃ face, u.cache.Remembers p face) ↔ p.components ∈ u.recent := by
  simp only [remembers_iff S, ← Option.isSome_iff_exists, get_isSome_iff S, h.paths]

theorem size_eq (h : KeepsRecent room u) :
    u.cache.size = min room (u.given.map Prod.fst).toFinset.card := by
  have hsize : u.cache.size = u.cache.entries.length := S.size_eq _
  rw [hsize, ← List.length_map Prod.fst, h.paths, recent, List.length_take, h.capacity,
    length_firstOfEach]

end Standard

end KeepsRecent

theorem call_failed (S : L.faces.Standard) {e : Error}
    (h : (FontCache.load t p u.cache).report.outcome = .error e) : u.call (.load t p) = u := by
  simp only [call, h, load_failed S h]

end Usage

/-- Whatever was asked for before, and whatever the files were then: the cache has as many faces as
paths of which it has given one out, if it has room for them.  It remembers the faces that it
gave out last and reads the file of any other path; a load that fails leaves all as it was. -/
theorem least_recently_used (S : L.faces.Standard) (capacity : Nat) (calls : List Call) :
    let u : Usage L := Usage.after capacity calls
    u.cache.capacity = max capacity 1 ∧
      u.cache.size = min (max capacity 1) (u.given.map Prod.fst).toFinset.card ∧
      (∀ p, (∃ face, u.cache.Remembers p face) ↔
        p.components ∈ (firstOfEach (u.given.map Prod.fst)).take (max capacity 1)) ∧
      (∀ p face, u.cache.Remembers p face → u.given.lookup p.components = some face) ∧
      (∀ p, (¬ ∃ face, u.cache.Remembers p face) → ∀ t,
        (load t p u.cache).report.outcome = Face.read L.fonts t p) ∧
      ∀ t p e, (load t p u.cache).report.outcome = .error e → u.call (.load t p) = u := by
  intro u
  have hrecent : u.KeepsRecent (max capacity 1) := .after S capacity calls
  refine ⟨hrecent.capacity, hrecent.size_eq S, fun p => ?_, fun p face hface => ?_,
    fun p hnone t => ?_, fun t p e => Usage.call_failed S⟩
  · rw [hrecent.remembers_iff_mem S, Usage.recent, hrecent.capacity]
  · have hlookup := (get_value S u.cache p).symm.trans ((remembers_iff S).mp hface)
    obtain ⟨before, later, hentries, -⟩ := List.lookup_eq_some_iff.mp hlookup
    exact hrecent.latest (p.components, face) (by simp [hentries])
  · have hunkept : (u.cache.get p).1 = none := by
      simpa [remembers_iff S, ← Option.isSome_iff_exists] using hnone
    exact (load_unkept S hunkept).outcome

/-! ## A font whose file is gone -/

open TrueType (outlineFile)

/-- Fonts at three places and a file that is none. -/
def shelf : FileTree :=
  FileTree.empty.insert ["a"] (.file outlineFile)
    |>.insert ["b"] (.file outlineFile)
    |>.insert ["c"] (.file outlineFile)
    |>.insert ["d"] (.file "d".toUTF8)

/-- The first font is used again after its file is gone, so the second one gives way to the third. -/
def borrowed : List Call :=
  [.load shelf ⟨"a"⟩, .load shelf ⟨"b"⟩, .load .empty ⟨"a"⟩, .load shelf ⟨"d"⟩, .load shelf ⟨"c"⟩]

theorem given_borrowed : (Usage.after 2 borrowed : Usage .builtIn).given.map Prod.fst =
    [[.name "c"], [.name "a"], [.name "b"], [.name "a"]] := by
  decide +kernel

theorem borrowed_remembered :
    Libraries.builtIn.faces.Standard ∧
      (Usage.after 2 borrowed : Usage .builtIn).cache.size = 2 ∧
      (∃ face, (Usage.after 2 borrowed : Usage .builtIn).cache.Remembers ⟨"a"⟩ face) ∧
      (∃ face, (Usage.after 2 borrowed : Usage .builtIn).cache.Remembers ⟨"c"⟩ face) ∧
      ¬ ∃ face, (Usage.after 2 borrowed : Usage .builtIn).cache.Remembers ⟨"b"⟩ face := by
  obtain ⟨-, hsize, hremembers, -⟩ :=
    least_recently_used (L := .builtIn) RecencyList.library_standard 2 borrowed
  simp only [given_borrowed] at hsize hremembers
  exact ⟨RecencyList.library_standard, hsize, (hremembers ⟨"a"⟩).mpr (by decide),
    (hremembers ⟨"c"⟩).mpr (by decide), (hremembers ⟨"b"⟩).not.mpr (by decide)⟩

end FontCache

end IconConstraints
