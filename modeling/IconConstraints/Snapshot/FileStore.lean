import IconConstraints.Compilation
import IconConstraints.FileTree
import IconConstraints.JsonLibrary

/-!
# Snapshots in a file

A snapshot is kept as JSON in one file, which ends with a line break.  A file that does
not exist or cannot be understood counts as no snapshot.
-/

namespace IconConstraints

open Json

/-! ## Snapshots as JSON -/

namespace SnapshotEntry

/-- Codepoints are numbers of 32 bits. -/
def pairShape : Shape := .pair (.unsigned "u32" 32)

def fields : Fields :=
  .cons "index" (.unsigned "usize" 64)
    (.cons "name" .string
      (.cons "exact" .bool
        (.cons "pairs" (.list pairShape) .nil)))

def shape : Shape := .record "SnapshotEntry" fields

def toValue (e : SnapshotEntry) : shape.Value :=
  (e.index, e.name, e.exact, e.pairs, ())

def ofValue : shape.Value → SnapshotEntry
  | (index, name, exact, pairs, ()) => ⟨index, name, exact, pairs⟩

end SnapshotEntry

namespace Snapshot

def fields : Fields :=
  .cons "version" .string
    (.cons "entries" (.list SnapshotEntry.shape) .nil)

def shape : Shape := .record "CrosswalkSnapshot" fields

def toValue (s : Snapshot) : shape.Value :=
  (s.version, s.entries.map SnapshotEntry.toValue, ())

def ofValue : shape.Value → Snapshot
  | (version, (entries : List SnapshotEntry.shape.Value), ()) => ⟨version, entries.map SnapshotEntry.ofValue⟩

/-! ## The file -/

variable (json : JsonLibrary)

def load (p : Path) (t : FileTree) : Report (Option Snapshot) :=
  match t.read p with
  | .error .notFound => pure none
  | .error fault => .fail (.io fault)
  | .ok content =>
    match json.read shape content with
    | .ok value => do
      let s := ofValue value
      Report.tell (.snapshotLoaded s.version s.entries.length)
      return some s
    | .error reason => do
      Report.tell (.snapshotUnreadable p.text reason)
      return none

/-- The bytes that are saved for a snapshot. -/
def bytes (s : Snapshot) : Except String ByteArray :=
  (json.write shape s.toValue).map (· ++ "\n".toUTF8)

def save (p : Path) (s : Snapshot) : Session FileTree Unit :=
  match s.bytes json with
  | .error reason => .fail (.json reason)
  | .ok content => FileTree.writeFile p content

/-- The store that keeps its snapshot in the file at a path. -/
def fileStore (p : Path) : CrosswalkStore FileTree where
  load t := ⟨t, load json p t⟩
  save := save json p

/-- The store that forgets what it is given. -/
def forgettingStore {σ : Type} : CrosswalkStore σ where
  load := pure none
  save _ := pure ()

end Snapshot

end IconConstraints

namespace IconConstraints.CrosswalkStore

variable {σ τ : Type}

/-- A store on a part of the state. -/
def within (part : σ → τ) (replace : τ → σ → σ) (store : CrosswalkStore τ) : CrosswalkStore σ where
  load := store.load.within part replace
  save s := (store.save s).within part replace

end IconConstraints.CrosswalkStore
