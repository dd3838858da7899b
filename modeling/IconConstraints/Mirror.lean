import IconConstraints.FontCache
import IconConstraints.Text.Search

/-!
# Mirrors of origin fonts

A mirror is a directory with the origin fonts.  Where a font lies in it is told
by a template in which the version and the filename are put.
-/

namespace IconConstraints

/-- A source of origin font files. -/
abbrev FontFetcher := FileTree → (version filename : String) → Report ByteArray

/-- A filename that may be joined to a directory. -/
def plainFilename (version filename : String) : Except Error Path :=
  if (Path.mk filename).isPlain then .ok ⟨filename⟩ else .error (.fetch filename version .unsafeFilename)

structure Mirror where
  root : Path
  template : String
  deriving DecidableEq, Repr

namespace Mirror

def versionField : String := "\x7bversion\x7d"

def filenameField : String := "\x7bfilename\x7d"

def standardTemplate : String := "src/glyphs/" ++ filenameField

/-- The version is put in first, so a filename field in it is filled too. -/
def location (m : Mirror) (version filename : String) : Except Error Path := do
  let p ← plainFilename version filename
  let withVersion := Text.replace versionField version m.template
  return m.root / Text.replace filenameField p.text withVersion

/-- Reads an origin font file from the mirror. -/
def fetch (m : Mirror) : FontFetcher := fun t version filename => do
  let p ← Report.ofExcept (m.location version filename)
  let unreadable (fault : IoFault) : Error := .fetch filename version (.unreadable p.text fault)
  let size ← Report.ofExcept ((t.sizeOf p).mapError unreadable)
  Report.ofExcept (checkFontSize p.text size)
  let content ← Report.ofExcept ((t.read p).mapError unreadable)
  Report.tell (.mirrorRead content.size p.text)
  return content

end Mirror

end IconConstraints
