import IconConstraints.Proofs.FilePlaces
import IconConstraints.Proofs.JsonWriting
import IconConstraints.Snapshot.FileStore

/-!
# Snapshots that are read as they were saved

A library that follows JSON reads the file of a snapshot as this snapshot, as long as its
numbers have the sizes that they are stored with.  A file that a snapshot has been saved to
therefore gives it back, whatever was in the file before.
-/

namespace IconConstraints

open Json

/-! ## Snapshots as values -/

namespace SnapshotEntry

/-- The numbers of an entry have the sizes that they are stored with. -/
structure Sized (e : SnapshotEntry) : Prop where
  index : e.index < indexBound
  pairs : ∀ pair ∈ e.pairs, pair.1 < codepointBound ∧ pair.2 < codepointBound

theorem fits_toValue {e : SnapshotEntry} (h : e.Sized) : shape.Fits e.toValue := by
  have hindex : (Shape.unsigned "usize" 64).Fits e.index := ⟨Nat.le_refl 64, h.index⟩
  have hpairs : (Shape.list pairShape).Fits e.pairs := by
    intro pair hpair
    obtain ⟨horigin, hdestination⟩ := h.pairs pair hpair
    exact ⟨⟨by decide, horigin⟩, by decide, hdestination⟩
  exact ⟨by decide, hindex, by decide, trivial, by decide, trivial, by decide, hpairs, trivial⟩

theorem ofValue_toValue (e : SnapshotEntry) : ofValue e.toValue = e :=
  rfl

end SnapshotEntry

namespace Snapshot

/-- The numbers of all entries have the sizes that they are stored with. -/
def Sized (s : Snapshot) : Prop :=
  ∀ e ∈ s.entries, e.Sized

theorem fits_toValue {s : Snapshot} (h : s.Sized) : shape.Fits s.toValue := by
  have hentries : (Shape.list SnapshotEntry.shape).Fits (s.entries.map SnapshotEntry.toValue) := by
    intro value hvalue
    obtain ⟨e, he, rfl⟩ := List.mem_map.mp hvalue
    exact SnapshotEntry.fits_toValue (h e he)
  exact ⟨by decide, trivial, by decide, hentries, trivial⟩

theorem ofValue_toValue (s : Snapshot) : ofValue s.toValue = s := by
  have hentries : (s.entries.map SnapshotEntry.toValue).map SnapshotEntry.ofValue = s.entries := by
    rw [List.map_map, List.map_congr_left fun e _ => e.ofValue_toValue, List.map_id']
  exact congrArg (Snapshot.mk s.version) hentries

end Snapshot

/-! ## The bytes of a snapshot -/

theorem Json.IsText.append_blanks {tree : Tree} {text after : List Char} (h : IsText tree text)
    (hafter : ∀ c ∈ after, c ∈ blanks) : IsText tree (text ++ after) := by
  cases h with
  | intro hvalue haround =>
      obtain ⟨before, inside, hbefore, hinside, rfl⟩ := haround
      refine .intro hvalue ⟨before, inside ++ after, hbefore, ?_, ?_⟩
      · exact List.forall_mem_append.mpr ⟨hinside, hafter⟩
      · simp only [List.append_assoc]

/-- Records within lists within a record are not nested too deeply. -/
theorem Snapshot.depth_shape : shape.depth < JsonLibrary.depthLimit := by
  decide

theorem Snapshot.bytes_read {json : JsonLibrary} (hjson : json.FollowsJson) {s : Snapshot}
    (hs : s.Sized) :
    ∃ content, s.bytes json = .ok content ∧ json.read shape content = .ok s.toValue := by
  have hfits := fits_toValue hs
  obtain ⟨text, hwrite, htext⟩ := hjson.written shape s.toValue hfits
  have hbreak : (text ++ "\n").toUTF8 = text.toUTF8 ++ "\n".toUTF8 := String.toByteArray_append
  have hended : IsText (shape.tree s.toValue) (text ++ "\n").toList := by
    rw [String.toList_append]
    exact htext.append_blanks (List.forall_mem_singleton.mpr (by decide))
  refine ⟨(text ++ "\n").toUTF8, ?_, hjson.read shape s.toValue _ hfits depth_shape hended⟩
  rw [bytes, hwrite, hbreak]
  rfl

/-! ## Files that are written -/

namespace FileTree

variable {t u : FileTree} {p : Path} {content : ByteArray}

theorem Accepts.free (h : t.Accepts p) : t.node? (t.placeFor p) ≠ some .directory := by
  obtain ⟨above, directory, last, hnamed⟩ := h.named
  have hfree := hnamed.free
  rwa [hnamed.place_eq, placeFor_of_workingDirectory (makeParents_workingDirectory t p),
    h.node?_makeParents, if_neg h.placeFor_not_mem] at hfree

theorem directory_write (h : t.write p content = (u, none)) {q : Place}
    (hq : t.node? q = some .directory) : u.node? q = some .directory := by
  obtain ⟨haccepts, -⟩ := write_eq_none.mp h
  have hplace : q ≠ t.placeFor p := by
    rintro rfl
    exact haccepts.free hq
  rw [node?_write h, if_neg hplace, hq]
  exact ite_self _

theorem way_write (h : t.write p content = (u, none)) {q : Place} (hq : q ∈ t.wayTo p) :
    u.node? q = some .directory := by
  obtain ⟨haccepts, -⟩ := write_eq_none.mp h
  rw [node?_write h, if_neg (ne_of_mem_of_not_mem hq haccepts.placeFor_not_mem), if_pos hq]

theorem place_write (h : t.write p content = (u, none)) :
    u.node? (t.placeFor p) = some (.file content) := by
  rw [node?_write h, if_pos rfl]

theorem read_write (h : t.write p content = (u, none)) : u.read p = .ok content := by
  obtain ⟨haccepts, -⟩ := write_eq_none.mp h
  have hnode := haccepts.nodeAt (workingDirectory_write h) (fun _ hq => directory_write h hq)
    (fun _ hq => way_write h hq) (place_write h)
  rw [FileTree.read, hnode]

theorem accepts_write (h : t.write p content = (u, none)) : u.Accepts p := by
  obtain ⟨haccepts, -⟩ := write_eq_none.mp h
  refine haccepts.later (workingDirectory_write h) (fun _ hq => directory_write h hq) ?_ ?_
  · intro q hq other hfile
    rw [way_write h hq] at hfile
    cases hfile
  · rw [place_write h]
    exact fun hdirectory => by cases hdirectory

end FileTree

/-! ## Stores -/

namespace Snapshot

variable {json : JsonLibrary} {s : Snapshot} {p : Path} {t u : FileTree} {content : ByteArray}

theorem save_ends_iff (h : s.bytes json = .ok content) :
    ((fileStore json p).save s).Ends t (.ok ()) u ↔ t.write p content = (u, none) := by
  have hsave : (fileStore json p).save s = FileTree.writeFile p content := by
    simp only [fileStore, save, h]
  rw [hsave]
  rcases hwrite : t.write p content with ⟨v, _ | fault⟩
  · have hends := FileTree.writeFile_ends hwrite
    constructor
    · intro h
      rw [← h.state, hends.state]
    · rintro ⟨⟩
      exact hends
  · have hends := FileTree.writeFile_ends_unwritten hwrite
    refine iff_of_false (fun h => ?_) (by simp)
    cases h.outcome.symm.trans hends.outcome

theorem load_write (hread : json.read shape content = .ok s.toValue)
    (h : t.write p content = (u, none)) : (load json p u).outcome = .ok (some s) := by
  unfold load
  rw [FileTree.read_write h]
  dsimp only
  rw [hread]
  dsimp only
  rw [ofValue_toValue]
  rfl

/-- A snapshot that is saved to a file is loaded from it, whatever the file held before. -/
theorem fileStore_round_trip (hjson : json.FollowsJson) (p : Path) (hs : s.Sized) :
    (∀ t u, ((fileStore json p).save s).Ends t (.ok ()) u →
      (fileStore json p).load.Ends u (.ok (some s)) u) ∧
    (∀ t, (∃ u, ((fileStore json p).save s).Ends t (.ok ()) u) ↔ t.Accepts p) ∧
    ∀ (t u : FileTree) (content : ByteArray), t.write p content = (u, none) →
      ∃ v, ((fileStore json p).save s).Ends u (.ok ()) v ∧
        (fileStore json p).load.Ends v (.ok (some s)) v := by
  obtain ⟨content, hbytes, hread⟩ := bytes_read hjson hs
  have hload : ∀ t u, ((fileStore json p).save s).Ends t (.ok ()) u →
      (fileStore json p).load.Ends u (.ok (some s)) u :=
    fun t u h => ⟨load_write hread ((save_ends_iff hbytes).mp h), rfl⟩
  have hsave : ∀ t, (∃ u, ((fileStore json p).save s).Ends t (.ok ()) u) ↔ t.Accepts p := by
    intro t
    simp only [save_ends_iff hbytes, FileTree.write_eq_none, exists_and_left, exists_eq, and_true]
  refine ⟨hload, hsave, fun t u junk h => ?_⟩
  obtain ⟨v, hv⟩ := (hsave u).mpr (FileTree.accepts_write h)
  exact ⟨v, hv, hload u v hv⟩

/-- A snapshot with the greatest numbers and with characters that are escaped. -/
def oddSnapshot : Snapshot :=
  ⟨"1\"\\\n\x00\x7fé", [⟨0xffffffffffffffff, "\x1f", true, [(0xffffffff, 1), (0, 1), (0, 1)]⟩,
    ⟨0, "", false, []⟩]⟩

theorem oddSnapshot_round_trip : oddSnapshot.Sized ∧
    ∃ t u, FileTree.empty.write ⟨"a/b.json"⟩ [0xff, 0x5b].toByteArray = (t, none) ∧
      ((fileStore library ⟨"a/b.json"⟩).save oddSnapshot).Ends t (.ok ()) u ∧
      (fileStore library ⟨"a/b.json"⟩).load.Ends u (.ok (some oddSnapshot)) u := by
  have hsized : oddSnapshot.Sized := by
    intro e he
    rcases List.mem_cons.mp he with rfl | he
    · exact ⟨by decide, by decide⟩
    · obtain rfl := List.mem_singleton.mp he
      exact ⟨by decide, by decide⟩
  have hjunk : FileTree.empty.write ⟨"a/b.json"⟩ [0xff, 0x5b].toByteArray =
      ((FileTree.empty.write ⟨"a/b.json"⟩ [0xff, 0x5b].toByteArray).1, none) :=
    Prod.ext rfl (by decide +kernel)
  obtain ⟨u, hsaved, hloaded⟩ :=
    (fileStore_round_trip library_followsJson ⟨"a/b.json"⟩ hsized).2.2 _ _ _ hjunk
  exact ⟨hsized, _, u, hjunk, hsaved, hloaded⟩

end Snapshot

end IconConstraints
