import IconConstraints.Mapping
import IconConstraints.Mirror

/-!
# Cached origin fonts

Origin fonts are fetched once and kept as files, in a directory for each version
of the script.  Within a run each font is resolved once; a file that is no
outline font counts as resolved too, without a font.
-/

namespace IconConstraints

/-- What a run knows and has on disk. -/
structure OriginCache (L : Libraries) where
  tree : FileTree
  faces : FontCache L
  /-- What the requests of this run came to, by version and filename; the latest first. -/
  resolved : List (String × Option Face)
  /-- How often a font was fetched. -/
  fetches : Nat

namespace OriginCache

variable {L : Libraries}

def ofTree (t : FileTree) : OriginCache L :=
  ⟨t, .standard, [], 0⟩

def onTree {α : Type} (session : Session FileTree α) : Session (OriginCache L) α :=
  session.within (·.tree) fun t c => { c with tree := t }

def fetch (fetcher : FontFetcher) (version filename : String) : Session (OriginCache L) ByteArray := do
  Session.modify fun c => { c with fetches := c.fetches + 1 }
  Session.tell (.fetching filename version)
  Session.ofReport (fetcher (← Session.get).tree version filename)

def cachedPath (directory : Path) (version : String) (filename : Path) : Path :=
  (directory / ("v" ++ version)).join filename

/-- Fetches a font into the cache unless it is there. -/
def provide (fetcher : FontFetcher) (version filename : String) (cached : Path) :
    Session (OriginCache L) Unit := do
  if (← Session.get).tree.isFile cached then Session.tell (.cacheHit cached.text)
  else
    let content ← fetch fetcher version filename
    onTree (FileTree.writeFile cached content)

/-- The face that a file comes to, through the cached faces. -/
def loadFace (cached : Path) : Session (OriginCache L) Face := fun c =>
  let step := FontCache.load c.tree cached c.faces
  ⟨{ c with faces := step.state }, step.report⟩

/-- The face of a font, or an error that tells why the file is none.  An error of fetching or writing ends the
session. -/
def load (directory : Option Path) (fetcher : FontFetcher) (version : String) (filename : Path) :
    Session (OriginCache L) (Except Error Face) := do
  match directory with
  | none =>
    let content ← fetch fetcher version filename.text
    return Face.ofContent L.fonts filename.text content
  | some directory =>
    let cached := cachedPath directory version filename
    provide fetcher version filename.text cached
    (loadFace cached).attempt

def key (version filename : String) : String :=
  "v" ++ version ++ "/" ++ filename

def remember (version filename : String) (face : Option Face) : Session (OriginCache L) Unit :=
  Session.modify fun c => { c with resolved := (key version filename, face) :: c.resolved }

/-- The face of an origin font that has not been resolved yet. -/
def resolve (directory : Option Path) (fetcher : FontFetcher) (version filename : String) :
    Session (OriginCache L) (Option Face) := do
  let plain ← Session.ofExcept (plainFilename version filename)
  match ← load directory fetcher version plain with
  | .ok face =>
    remember version filename (some face)
    return some face
  | .error (.invalidFont _ fault) =>
    Session.tell (.unusableFont filename version fault)
    remember version filename none
    return none
  | .error e => Session.fail e

/-- The face of an origin font; `none` is a file that is no outline font.  Without a directory nothing is kept
on disk. -/
def request (directory : Option Path) (fetcher : FontFetcher) (version filename : String) :
    Session (OriginCache L) (Option Face) := do
  match (← Session.get).resolved.lookup (key version filename) with
  | some face => return face
  | none => resolve directory fetcher version filename

def origins (directory : Option Path) (fetcher : FontFetcher) : OriginFonts (OriginCache L) where
  request version filename := do
    return (← request directory fetcher version filename).map (·.font)

end OriginCache

end IconConstraints
