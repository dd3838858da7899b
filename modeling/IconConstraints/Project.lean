import IconConstraints.OriginCache
import IconConstraints.RuleTable.ZigSwitch
import IconConstraints.Snapshot.FileStore

/-!
# Projects

A project directory has conventional places for the script, the generated file
and the caches.  A run reads the script and the destination font, compiles the
rules and writes them; the generated file is written last.
-/

namespace IconConstraints

/-- The directory of a project. -/
structure Project where
  root : Path
  deriving DecidableEq, Repr

namespace Project

/-- The checkout that has the script, and by default the origin fonts. -/
def checkout (p : Project) : Path :=
  p.root / "vendor" / "nerd-fonts"

def script (p : Project) : Path :=
  p.checkout / "font-patcher.py"

def output (p : Project) : Path :=
  p.root / "src" / "font" / "nerd_font_attributes.zig"

def cache (p : Project) : Path :=
  p.root / ".cache" / "glyphrules"

def snapshotFile (p : Project) : Path :=
  p.cache / "crosswalk.json"

def fontDirectory (p : Project) : Path :=
  p.cache / "fonts"

end Project

/-- What a run is told beside the project. -/
structure RunOptions where
  /-- The destination font. -/
  font : Path
  output : Option Path
  mirror : Option Path
  mirrorTemplate : Option String
  useCache : Bool
  extract : ExtractOptions

namespace RunOptions

def outputPath (o : RunOptions) (p : Project) : Path :=
  o.output.getD p.output

def mirrorRoot (o : RunOptions) (p : Project) : Path :=
  o.mirror.getD p.checkout

def mirrorOf (o : RunOptions) (p : Project) : Mirror :=
  ⟨o.mirrorRoot p, o.mirrorTemplate.getD Mirror.standardTemplate⟩

end RunOptions

namespace Project

/-- The program that the generated file names. -/
def generator : String := "glyphrules"

def readScript (p : Path) (t : FileTree) : Report String :=
  .ofExcept ((t.readText p).mapError fun fault => .io (.located p.text fault))

variable (L : Libraries)

/-- Reads the destination font. -/
def readFont (p : Path) (t : FileTree) : Report Face := do
  let face ← (FontCache.load t p (.standard : FontCache L)).report
  Report.tell (.destinationLoaded p.text face.glyphCount)
  return face

def originFonts (p : Project) (o : RunOptions) : OriginFonts (OriginCache L) :=
  OriginCache.origins (if o.useCache then some p.fontDirectory else none) (o.mirrorOf p).fetch

def store (p : Project) (o : RunOptions) : CrosswalkStore (OriginCache L) :=
  if o.useCache then
    (Snapshot.fileStore L.json p.snapshotFile).within (·.tree) fun t c => { c with tree := t }
  else Snapshot.forgettingStore

/-- Compiles the rules on a file tree; what the caches are given stays, also after an error. -/
def compile (p : Project) (o : RunOptions) (source : String) (font : Font) : Session FileTree Compilation :=
  fun t =>
    let step := Compilation.ofSource source o.extract font (p.originFonts L o) (p.store L o) (.ofTree t)
    ⟨step.state.tree, step.report⟩

/-- The whole run. -/
def run (p : Project) (o : RunOptions) : Session FileTree Compilation := do
  let t ← Session.get
  let source ← Session.ofReport (readScript p.script t)
  let face ← Session.ofReport (readFont L o.font t)
  let compilation ← p.compile L o source face.font
  let output := o.outputPath p
  FileTree.writeFile output (compilation.table.zig generator).toUTF8
  Session.tell (.tableWritten compilation.table.size compilation.version output.text)
  return compilation

end Project

end IconConstraints
