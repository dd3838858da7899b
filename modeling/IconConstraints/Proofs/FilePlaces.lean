import IconConstraints.Proofs.FileTree
import IconConstraints.Proofs.PathNormalForm

/-!
# Where a write puts a file

A path leads through places to the place of its file.  A write makes directories at the
places it leads through and puts the file at the last one; nothing else changes.  So a
write that succeeds also succeeds later, as long as no file has come in its way and no
directory to its place.
-/

namespace IconConstraints.FileTree

open IconConstraints.Path (Component component?)

variable {t u : FileTree} {place : Place} {p : Path}

/-! ## The places on a way -/

/-- The place that components lead to from a place. -/
def leadsTo (place : Place) : List Component → Place
  | [] => place
  | .root :: rest => leadsTo [] rest
  | .here :: rest => leadsTo place rest
  | .up :: rest => leadsTo place.dropLast rest
  | .name n :: rest => leadsTo (place ++ [n]) rest

/-- The places that the names among components lead to. -/
def visits (place : Place) : List Component → List Place
  | [] => []
  | .root :: rest => visits [] rest
  | .here :: rest => visits place rest
  | .up :: rest => visits place.dropLast rest
  | .name n :: rest => (place ++ [n]) :: visits (place ++ [n]) rest

def placeFor (t : FileTree) (p : Path) : Place :=
  leadsTo (t.start p) p.components

/-- The places at which a write to the path needs directories. -/
def wayTo (t : FileTree) (p : Path) : List Place :=
  visits (t.start p) p.parentComponents

theorem leadsTo_append (place : Place) (a b : List Component) :
    leadsTo place (a ++ b) = leadsTo (leadsTo place a) b := by
  induction a generalizing place with
  | nil => rfl
  | cons c a ih => cases c <;> exact ih _

theorem visits_append (place : Place) (a b : List Component) :
    visits place (a ++ b) = visits place a ++ visits (leadsTo place a) b := by
  induction a generalizing place with
  | nil => rfl
  | cons c a ih =>
      cases c with
      | name n => exact congrArg (_ :: ·) (ih _)
      | root => exact ih _
      | here => exact ih _
      | up => exact ih _

theorem leadsTo_names (place : Place) (names : List String) :
    leadsTo place (names.map .name) = place ++ names := by
  induction names generalizing place with
  | nil => simp [leadsTo]
  | cons n names ih => simp [leadsTo, ih]

theorem exists_prefix_of_mem_visits_names {names : List String} {q : Place}
    (h : q ∈ visits place (names.map .name)) : ∃ first, first <+: names ∧ q = place ++ first := by
  induction names generalizing place with
  | nil => cases h
  | cons n names ih =>
      rcases List.mem_cons.mp h with rfl | h
      · exact ⟨[n], ⟨names, rfl⟩, rfl⟩
      · obtain ⟨first, hfirst, rfl⟩ := ih h
        exact ⟨n :: first, (List.prefix_cons_inj n).mpr hfirst, by simp⟩

/-! ## Making directories -/

theorem makeFrom_workingDirectory (t : FileTree) (place : Place) (cs : List Component) :
    (t.makeFrom place cs).1.workingDirectory = t.workingDirectory := by
  induction cs generalizing t place with
  | nil => rfl
  | cons c cs ih =>
      cases c with
      | root => exact ih t []
      | here => exact ih t place
      | up => exact ih t place.dropLast
      | name n =>
          unfold makeFrom
          dsimp only
          split
          · rfl
          · split
            · exact ih _ _
            · exact ih _ _
            · rfl

/-- Directories can be made if their names are short and no file is in the way. -/
theorem makeFrom_eq_none {cs : List Component} :
    (t.makeFrom place cs).2 = none ↔
      (∀ n, .name n ∈ cs → n.utf8ByteSize ≤ nameLimit) ∧
        ∀ q ∈ visits place cs, ∀ content, t.node? q ≠ some (.file content) := by
  induction cs generalizing t place with
  | nil => simp [makeFrom, visits]
  | cons c cs ih =>
      cases c with
      | root => simpa [makeFrom, visits] using ih
      | here => simpa [makeFrom, visits] using ih
      | up => simpa [makeFrom, visits] using ih
      | name n =>
          unfold makeFrom
          dsimp only
          split
          case isTrue hlong =>
            simp only [reduceCtorEq, false_iff, not_and]
            exact fun hshort => absurd (hshort n List.mem_cons_self) (by omega)
          case isFalse hshort =>
            simp only [visits, List.mem_cons, Component.name.injEq, forall_eq_or_imp,
              Nat.not_lt.mp hshort, true_and]
            split
            case h_1 hnone =>
              -- A directory that has been made is no file, so the way is as clear as before.
              have hinsert : ∀ q content, (t.insert (place ++ [n]) .directory).node? q ≠
                  some (.file content) ↔ t.node? q ≠ some (.file content) := by
                intro q content
                rw [node?_insert]
                by_cases hroot : q = []
                · simp [hroot, node?]
                · by_cases hnext : place ++ [n] = q
                  · subst hnext
                    simp [hnone]
                  · rw [if_neg hroot, if_neg hnext]
              simp [ih, hinsert, hnone]
            case h_2 hdirectory => simp [ih, hdirectory]
            case h_3 content hfile => simp [hfile]

theorem node?_makeFrom {cs : List Component} (h : (t.makeFrom place cs).2 = none) (q : Place) :
    (t.makeFrom place cs).1.node? q =
      if q ∈ visits place cs then some .directory else t.node? q := by
  induction cs generalizing t place with
  | nil => simp [makeFrom, visits]
  | cons c cs ih =>
      cases c with
      | root => exact ih h
      | here => exact ih h
      | up => exact ih h
      | name n =>
          unfold makeFrom at h ⊢
          dsimp only at h ⊢
          split at h
          case isTrue => cases h
          case isFalse hshort =>
            rw [if_neg hshort]
            split at h
            case h_1 hnone =>
              rw [ih h, node?_insert]
              by_cases hnext : q = place ++ [n]
              · subst hnext
                simp [visits]
              · simp only [visits, List.mem_cons, hnext, false_or, Ne.symm hnext, if_false]
                split
                · rfl
                · split
                  · simp_all [node?]
                  · rfl
            case h_2 hdirectory =>
              rw [ih h]
              by_cases hnext : q = place ++ [n]
              · subst hnext
                simp [visits, hdirectory]
              · simp [visits, hnext]
            case h_3 => cases h

/-! ## Walking -/

theorem walk_append (t : FileTree) (place : Place) (a b : List String) :
    t.walk place (a ++ b) = t.walk place a >>= fun d => t.walk d b := by
  induction a generalizing place with
  | nil => rfl
  | cons segment a ih =>
      rw [List.cons_append, walk, walk]
      split
      · rfl
      · rfl
      · split
        · exact ih _
        · split
          · exact ih _
          · split
            · rfl
            · exact ih _

theorem walk_leadsTo {segments : List String} {d : Place} (h : t.walk place segments = .ok d) :
    d = leadsTo place (segments.filterMap component?) := by
  induction segments generalizing place with
  | nil =>
      cases h
      rfl
  | cons segment rest ih =>
      rw [walk] at h
      split at h
      · cases h
      · cases h
      · split at h
        case isTrue hskip => simpa [component?, hskip] using ih h
        case isFalse hskip =>
          split at h
          case isTrue hup =>
            have hcomponent : component? segment = some .up := by simp [component?, hup]
            simpa [hcomponent, leadsTo] using ih h
          case isFalse hup =>
            split at h
            · cases h
            · have hcomponent : component? segment = some (.name segment) := by
                simp [component?, hskip, hup]
              simpa [hcomponent, leadsTo] using ih h

/-- A walk goes the same way where there are at least the same directories. -/
theorem walk_of_directories
    (hdirectories : ∀ q, t.node? q = some .directory → u.node? q = some .directory)
    {segments : List String} {d : Place} (h : t.walk place segments = .ok d) :
    u.walk place segments = .ok d := by
  induction segments generalizing place with
  | nil => exact h
  | cons segment rest ih =>
      rw [walk] at h ⊢
      split at h
      · cases h
      · cases h
      · rename_i hdirectory
        rw [hdirectories _ hdirectory]
        dsimp only
        split at h
        case isTrue hskip => exact (if_pos hskip).trans (ih h)
        case isFalse hskip =>
          rw [if_neg hskip]
          split at h
          case isTrue hup => exact (if_pos hup).trans (ih h)
          case isFalse hup =>
            rw [if_neg hup]
            split at h
            case isTrue => cases h
            case isFalse hshort => exact (if_neg hshort).trans (ih h)

theorem leadsTo_components (t : FileTree) (p : Path) :
    t.placeFor p = leadsTo (t.start p) (p.segments.filterMap component?) := by
  unfold placeFor start Path.components
  dsimp only
  split
  · rfl
  · split <;> rfl

/-! ## The place of a file -/

theorem component?_eq_name {segment : String} : component? segment = some (.name segment) ↔
    segment ≠ "" ∧ segment ≠ "." ∧ segment ≠ ".." := by
  unfold component?
  split
  case isTrue hskip => simp only [reduceCtorEq, false_iff]; tauto
  case isFalse hskip =>
    rw [not_or] at hskip
    split
    case isTrue hup => simp [hup]
    case isFalse hup => simp [hskip, hup]

/-- The last piece of a path names a file in the directory to which the others lead. -/
structure NamesFile (t : FileTree) (p : Path) (above : List String) (directory : Place)
    (last : String) : Prop where
  segments : p.segments = above ++ [last]
  walk : t.walk (t.start p) above = .ok directory
  isDirectory : t.node? directory = some .directory
  name : component? last = some (.name last)
  short : last.utf8ByteSize ≤ nameLimit
  free : t.node? (directory ++ [last]) ≠ some .directory

theorem replacePlace_eq_ok : t.replacePlace p = .ok place ↔
    ∃ above directory last, t.NamesFile p above directory last ∧ place = directory ++ [last] := by
  constructor
  · intro h
    unfold replacePlace at h
    dsimp only at h
    split at h
    case h_1 => cases h
    case h_2 last above hpieces =>
      split at h
      case h_1 => cases h
      case h_2 directory hwalk =>
        split at h
        case h_1 => cases h
        case h_2 => cases h
        case h_3 hdirectory =>
          split at h
          case isTrue => cases h
          case isFalse hdots =>
            split at h
            case isTrue => cases h
            case isFalse hshort =>
              split at h
              case isTrue => cases h
              case isFalse hslash =>
                split at h
                case isTrue => cases h
                case isFalse hfree =>
                  cases h
                  -- Without a slash at the end no piece is dropped.
                  have hkept : p.segments.reverse.dropWhile (· == "") = p.segments.reverse := by
                    cases hreverse : p.segments.reverse with
                    | nil => rfl
                    | cons segment rest =>
                        rw [List.getLast?_eq_head?_reverse, hreverse] at hslash
                        exact List.dropWhile_cons_of_neg (by simpa using hslash)
                  have hsegments : p.segments = above.reverse ++ [last] := by
                    rw [← List.reverse_reverse p.segments, ← hkept, hpieces, List.reverse_cons]
                  have hempty : last ≠ "" := by simpa [hsegments] using hslash
                  have hname := component?_eq_name.mpr ⟨hempty, not_or.mp hdots⟩
                  exact ⟨_, directory, last, ⟨hsegments, hwalk, hdirectory, hname,
                    Nat.not_lt.mp hshort, hfree⟩, rfl⟩
  · rintro ⟨above, directory, last, h, rfl⟩
    obtain ⟨hempty, hdot, hup⟩ := component?_eq_name.mp h.name
    unfold replacePlace
    simp [h.walk, h.isDirectory, hdot, hup, Nat.not_lt.mpr h.short, h.segments, hempty,
      h.free]

theorem NamesFile.place_eq {above : List String} {directory : Place} {last : String}
    (h : t.NamesFile p above directory last) : directory ++ [last] = t.placeFor p := by
  rw [leadsTo_components, h.segments, List.filterMap_append, leadsTo_append, ← walk_leadsTo h.walk]
  simp [h.name, leadsTo]

theorem NamesFile.nodeAt {above : List String} {directory : Place} {last : String}
    (h : t.NamesFile p above directory last)
    (hworking : u.workingDirectory = t.workingDirectory)
    (hdirectories : ∀ q, t.node? q = some .directory → u.node? q = some .directory)
    (hallowed : pathFault? p = none) {content : ByteArray}
    (hfile : u.node? (t.placeFor p) = some (.file content)) : u.nodeAt p = .ok (.file content) := by
  have hstart : u.start p = t.start p := by simp [start, hworking]
  obtain ⟨hempty, hdot, hup⟩ := component?_eq_name.mp h.name
  have hwalk : u.walk (u.start p) p.segments = .ok (t.placeFor p) := by
    rw [h.segments, walk_append, hstart, walk_of_directories hdirectories h.walk, ← h.place_eq]
    change u.walk directory [last] = _
    simp [FileTree.walk, hdirectories _ h.isDirectory, hempty, hdot, hup, Nat.not_lt.mpr h.short]
  unfold FileTree.nodeAt placeOf
  rw [hallowed]
  dsimp only
  rw [hwalk]
  dsimp only
  rw [hfile]

theorem nodeAt_eq_ok {node : Node} (h : t.nodeAt p = .ok node) :
    t.node? (t.placeFor p) = some node := by
  unfold nodeAt at h
  split at h
  case h_1 => cases h
  case h_2 place hplace =>
    have hlead : place = t.placeFor p := by
      unfold placeOf at hplace
      split at hplace
      case h_1 => cases hplace
      case h_2 => rw [leadsTo_components, walk_leadsTo hplace]
    subst hlead
    split at h
    case h_1 hnode =>
      cases h
      exact hnode
    case h_2 => cases h

/-! ## Writes that succeed -/

theorem makeParents_workingDirectory (t : FileTree) (p : Path) :
    (t.makeParents p).1.workingDirectory = t.workingDirectory :=
  makeFrom_workingDirectory t _ _

theorem placeFor_of_workingDirectory (h : u.workingDirectory = t.workingDirectory) (p : Path) :
    u.placeFor p = t.placeFor p := by
  simp [placeFor, start, h]

theorem wayTo_of_workingDirectory (h : u.workingDirectory = t.workingDirectory) (p : Path) :
    u.wayTo p = t.wayTo p := by
  simp [wayTo, start, h]

/-- What it takes to put a file at a path. -/
structure Accepts (t : FileTree) (p : Path) : Prop where
  allowed : pathFault? p = none
  short : ∀ n, .name n ∈ p.parentComponents → n.utf8ByteSize ≤ nameLimit
  clear : ∀ q ∈ t.wayTo p, ∀ content, t.node? q ≠ some (.file content)
  named : ∃ above directory last, (t.makeParents p).1.NamesFile p above directory last

theorem makeParents_eq_none : (t.makeParents p).2 = none ↔
    (∀ n, .name n ∈ p.parentComponents → n.utf8ByteSize ≤ nameLimit) ∧
      ∀ q ∈ t.wayTo p, ∀ content, t.node? q ≠ some (.file content) :=
  makeFrom_eq_none

theorem Accepts.node?_makeParents (h : t.Accepts p) (q : Place) :
    (t.makeParents p).1.node? q = if q ∈ t.wayTo p then some .directory else t.node? q :=
  node?_makeFrom (makeParents_eq_none.mpr ⟨h.short, h.clear⟩) q

theorem write_eq_none {content : ByteArray} : t.write p content = (u, none) ↔
    t.Accepts p ∧ u = (t.makeParents p).1.insert (t.placeFor p) (.file content) := by
  constructor
  · intro h
    unfold write at h
    split at h
    case h_1 => cases h
    case h_2 hallowed =>
      split at h
      case h_1 => cases h
      case h_2 made hmade =>
        have hparents : (t.makeParents p).2 = none := by rw [hmade]
        obtain ⟨hshort, hclear⟩ := makeParents_eq_none.mp hparents
        have hplaceFor := placeFor_of_workingDirectory (makeParents_workingDirectory t p) p
        rw [hmade] at hplaceFor
        split at h
        case h_1 => cases h
        case h_2 place hplace =>
          cases h
          obtain ⟨above, directory, last, hnamed, rfl⟩ := replacePlace_eq_ok.mp hplace
          have hnamed' : (t.makeParents p).1.NamesFile p above directory last := by rwa [hmade]
          refine ⟨⟨hallowed, hshort, hclear, above, directory, last, hnamed'⟩, ?_⟩
          rw [hnamed.place_eq, hplaceFor, hmade]
  · rintro ⟨h, rfl⟩
    obtain ⟨above, directory, last, hnamed⟩ := h.named
    have hplace := replacePlace_eq_ok.mpr ⟨above, directory, last, hnamed, rfl⟩
    rw [hnamed.place_eq, placeFor_of_workingDirectory (makeParents_workingDirectory t p)] at hplace
    have hmade : t.makeParents p = ((t.makeParents p).1, none) :=
      Prod.ext rfl (makeParents_eq_none.mpr ⟨h.short, h.clear⟩)
    unfold write
    rw [h.allowed]
    dsimp only
    rw [hmade]
    dsimp only
    rw [hplace]

theorem Accepts.placeFor_not_mem (h : t.Accepts p) : t.placeFor p ∉ t.wayTo p := by
  intro hmem
  obtain ⟨above, directory, last, hnamed⟩ := h.named
  have hfree := hnamed.free
  rw [hnamed.place_eq, placeFor_of_workingDirectory (makeParents_workingDirectory t p),
    h.node?_makeParents, if_pos hmem] at hfree
  exact hfree rfl

theorem Accepts.placeFor_ne_nil (h : t.Accepts p) : t.placeFor p ≠ [] := by
  obtain ⟨above, directory, last, hnamed⟩ := h.named
  rw [← placeFor_of_workingDirectory (makeParents_workingDirectory t p), ← hnamed.place_eq]
  simp

/-- After a write there are the new file, directories on the way to it and what there was. -/
theorem node?_write {content : ByteArray} (h : t.write p content = (u, none)) (q : Place) :
    u.node? q = if q = t.placeFor p then some (.file content)
      else if q ∈ t.wayTo p then some .directory else t.node? q := by
  obtain ⟨haccepts, rfl⟩ := write_eq_none.mp h
  rw [node?_insert, haccepts.node?_makeParents]
  by_cases hplace : q = t.placeFor p
  · subst hplace
    simp [haccepts.placeFor_ne_nil]
  · rw [if_neg hplace, if_neg (Ne.symm hplace)]
    split
    case isTrue hroot => simp [hroot, node?]
    case isFalse => rfl

theorem workingDirectory_write {content : ByteArray} (h : t.write p content = (u, none)) :
    u.workingDirectory = t.workingDirectory := by
  obtain ⟨-, rfl⟩ := write_eq_none.mp h
  exact makeParents_workingDirectory t p

/-- A path is accepted as long as no file has come in the way and no directory to its place. -/
theorem Accepts.later (h : t.Accepts p) (hworking : u.workingDirectory = t.workingDirectory)
    (hdirectories : ∀ q, t.node? q = some .directory → u.node? q = some .directory)
    (hclear : ∀ q ∈ t.wayTo p, ∀ content, u.node? q ≠ some (.file content))
    (hfree : u.node? (t.placeFor p) ≠ some .directory) : u.Accepts p := by
  have hway : u.wayTo p = t.wayTo p := wayTo_of_workingDirectory hworking p
  have hclear' : ∀ q ∈ u.wayTo p, ∀ content, u.node? q ≠ some (.file content) := hway ▸ hclear
  obtain ⟨above, directory, last, hnamed⟩ := h.named
  have hmade : ∀ q, (u.makeParents p).1.node? q =
      if q ∈ t.wayTo p then some .directory else u.node? q := by
    intro q
    rw [← hway]
    exact node?_makeFrom (makeParents_eq_none.mpr ⟨h.short, hclear'⟩) q
  -- With the directories made, there are at least those that were there after making them before.
  have hkept : ∀ q, (t.makeParents p).1.node? q = some .directory →
      (u.makeParents p).1.node? q = some .directory := by
    intro q hq
    rw [h.node?_makeParents] at hq
    rw [hmade]
    split at hq
    case isTrue hmem => rw [if_pos hmem]
    case isFalse hmem => rw [if_neg hmem, hdirectories q hq]
  have hstart : (u.makeParents p).1.start p = (t.makeParents p).1.start p := by
    simp [start, makeParents_workingDirectory, hworking]
  refine ⟨h.allowed, h.short, hclear', above, directory, last, hnamed.segments, ?_,
    hkept _ hnamed.isDirectory, hnamed.name, hnamed.short, ?_⟩
  · rw [hstart]
    exact walk_of_directories hkept hnamed.walk
  · rw [hnamed.place_eq, placeFor_of_workingDirectory (makeParents_workingDirectory t p), hmade,
      if_neg h.placeFor_not_mem]
    exact hfree

theorem Accepts.nodeAt (h : t.Accepts p) (hworking : u.workingDirectory = t.workingDirectory)
    (hdirectories : ∀ q, t.node? q = some .directory → u.node? q = some .directory)
    (hway : ∀ q ∈ t.wayTo p, u.node? q = some .directory) {content : ByteArray}
    (hfile : u.node? (t.placeFor p) = some (.file content)) : u.nodeAt p = .ok (.file content) := by
  obtain ⟨above, directory, last, hnamed⟩ := h.named
  refine hnamed.nodeAt (hworking.trans (makeParents_workingDirectory t p).symm) ?_ h.allowed ?_
  · intro q hq
    rw [h.node?_makeParents] at hq
    split at hq
    case isTrue hmem => exact hway q hmem
    case isFalse => exact hdirectories q hq
  · rwa [placeFor_of_workingDirectory (makeParents_workingDirectory t p)]

end IconConstraints.FileTree
