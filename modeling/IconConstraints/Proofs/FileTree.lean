import IconConstraints.FileTree
import IconConstraints.Proofs.Session

/-!
# What writing does to the files

The files of a tree are its contents at places, without its directories.  Making the
directories of a path changes no file, and a write that fails leaves all files as they were.
-/

namespace IconConstraints.FileTree

variable {t u v : FileTree} {place : Place}

/-- The content of the file at a place. -/
def content? (t : FileTree) (place : Place) : Option ByteArray :=
  match t.node? place with
  | some (.file content) => some content
  | _ => none

/-- Two trees with the same files, whatever directories they have. -/
def SameFiles (t u : FileTree) : Prop :=
  ∀ place, u.content? place = t.content? place

theorem SameFiles.refl (t : FileTree) : SameFiles t t :=
  fun _ => rfl

theorem SameFiles.trans (h : SameFiles t u) (h' : SameFiles u v) : SameFiles t v :=
  fun place => (h' place).trans (h place)

/-! ## One place -/

theorem node?_insert (t : FileTree) (place other : Place) (node : Node) :
    (t.insert place node).node? other =
      if other = [] then some .directory
      else if place = other then some node else t.node? other := by
  unfold node? insert
  split
  · rfl
  · simp [Std.ExtTreeMap.getElem?_insert]

theorem content?_insert_of_ne {node : Node} {other : Place} (h : place ≠ other) :
    (t.insert place node).content? other = t.content? other := by
  unfold content?
  rw [node?_insert, if_neg h]
  by_cases hroot : other = []
  · simp [hroot, node?]
  · rw [if_neg hroot]

theorem sameFiles_insert_directory (h : t.node? place = none) :
    SameFiles t (t.insert place .directory) := by
  intro other
  by_cases hother : place = other
  · subst hother
    unfold content?
    rw [node?_insert, h]
    by_cases hroot : place = [] <;> simp [hroot]
  · exact content?_insert_of_ne hother

/-! ## Directories -/

theorem makeFrom_sameFiles (t : FileTree) (place : Place) (cs : List Path.Component) :
    SameFiles t (t.makeFrom place cs).1 := by
  induction cs generalizing t place with
  | nil => exact .refl t
  | cons c cs ih =>
      cases c with
      | root => exact ih t []
      | here => exact ih t place
      | up => exact ih t place.dropLast
      | name n =>
          unfold makeFrom
          dsimp only
          split
          case isTrue => exact .refl t
          case isFalse =>
            split
            case h_1 hnone => exact (sameFiles_insert_directory hnone).trans (ih _ _)
            case h_2 => exact ih t _
            case h_3 => exact .refl t

theorem makeParents_sameFiles (t : FileTree) (p : Path) : SameFiles t (t.makeParents p).1 :=
  makeFrom_sameFiles t _ _

/-! ## Writes -/

theorem write_sameFiles {p : Path} {content : ByteArray} {fault : IoFault}
    (h : t.write p content = (u, some fault)) : SameFiles t u := by
  have hparents := makeParents_sameFiles t p
  unfold write at h
  split at h
  case h_1 =>
    cases h
    exact .refl t
  case h_2 =>
    split at h
    case h_1 hmade =>
      cases h
      rwa [hmade] at hparents
    case h_2 hmade =>
      rw [hmade] at hparents
      split at h
      case h_1 =>
        cases h
        exact hparents
      case h_2 => cases h

theorem writeFile_ends {p : Path} {content : ByteArray} (h : t.write p content = (u, none)) :
    (writeFile p content).Ends t (.ok ()) u := by
  constructor <;> simp [writeFile, h]

theorem writeFile_ends_unwritten {p : Path} {content : ByteArray} {fault : IoFault}
    (h : t.write p content = (u, some fault)) :
    (writeFile p content).Ends t (.error (.io fault)) u := by
  constructor <;> simp [writeFile, h]

theorem state_writeFile (t : FileTree) (p : Path) (content : ByteArray) :
    (writeFile p content t).state = (t.write p content).1 := by
  rcases hwrite : t.write p content with ⟨u, _ | fault⟩
  · exact (writeFile_ends hwrite).state
  · exact (writeFile_ends_unwritten hwrite).state

/-! ## Texts -/

theorem readText_of_read {p : Path} {s : String} (h : t.read p = .ok s.toUTF8) :
    t.readText p = .ok s := by
  have hdecoded : String.fromUTF8? s.toUTF8 = some s := dif_pos s.isValidUTF8
  simp only [readText, h, hdecoded]

end IconConstraints.FileTree
