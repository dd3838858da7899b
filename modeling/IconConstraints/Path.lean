import IconConstraints.Text.Search

/-!
# Paths

A path is a text whose components are parted by slashes.  A path is kept as it
was written; two paths are the same place in a directory when their components
agree, which leaves out empty ones and inner dots.
-/

namespace IconConstraints

structure Path where
  text : String
  deriving DecidableEq, Repr

namespace Path

inductive Component where
  | root
  /-- A dot at the beginning of a relative path. -/
  | here
  | up
  | name (text : String)
  deriving DecidableEq, Repr

/-! ## Components -/

/-- The pieces between the slashes. -/
def split : List Char → List (List Char)
  | [] => [[]]
  | c :: cs =>
    if c = '/' then [] :: split cs
    else
      match split cs with
      | [] => [[c]]
      | piece :: rest => (c :: piece) :: rest

/-- The pieces of the path as written; those of an absolute one begin with an empty piece. -/
def segments (p : Path) : List String :=
  (split p.text.toList).map String.ofList

def isAbsolute (p : Path) : Bool :=
  p.text.toList.head? == some '/'

/-- What a piece means after the first one. -/
def component? (segment : String) : Option Component :=
  if segment = "" ∨ segment = "." then none
  else if segment = ".." then some .up
  else some (.name segment)

def components (p : Path) : List Component :=
  let following := p.segments.filterMap component?
  if p.isAbsolute then .root :: following
  else if p.segments.head? = some "." then .here :: following
  else following

/-- The components of the directory that holds the path. -/
def parentComponents (p : Path) : List Component :=
  p.components.dropLast

/-! ## Joining -/

/-- The path `p` seen from the directory `base`; an absolute one stays what it is. -/
def join (base p : Path) : Path :=
  if p.isAbsolute then p
  else if base.text = "" ∨ base.text.toList.getLast? = some '/' then ⟨base.text ++ p.text⟩
  else ⟨base.text ++ "/" ++ p.text⟩

instance : HDiv Path String Path where
  hDiv base name := base.join ⟨name⟩

/-! ## Plain paths -/

def Component.isName : Component → Bool
  | .name _ => true
  | _ => false

/-- Whether the path cannot leave the directory it is joined to: it is relative, all of its components are
names, and it has no tilde. -/
def isPlain (p : Path) : Bool :=
  p.text != "" && !Text.occursIn "~" p.text && !p.isAbsolute && p.components.all (·.isName)

end Path

end IconConstraints
