/-!
# Switches

A patcher is run with switches: options of its command line, written
`self.args.name` in the script, and a few global names.  A table fixes their
values; no other name has one.
-/

namespace IconConstraints

structure Switches where
  args : List (String × Bool)
  globals : List (String × Bool)
  deriving DecidableEq, Repr

namespace Switches

def none : Switches :=
  ⟨[], []⟩

/-- Every optional set of glyphs on, careful and custom mode off, box drawing neither made nor kept. -/
def standard : Switches where
  args :=
    [("fontawesome", true), ("fontawesomeextension", true), ("fontlogos", true), ("octicons", true),
      ("codicons", true), ("powersymbols", true), ("pomicons", true), ("powerline", true),
      ("powerlineextra", true), ("material", true), ("weather", true), ("careful", false),
      ("custom", false)]
  globals := [("box_enabled", false), ("box_keep", false)]

def withArg (switches : Switches) (name : String) (value : Bool) : Switches :=
  { switches with args := (name, value) :: switches.args }

def withGlobal (switches : Switches) (name : String) (value : Bool) : Switches :=
  { switches with globals := (name, value) :: switches.globals }

def arg? (switches : Switches) (name : String) : Option Bool :=
  switches.args.lookup name

def global? (switches : Switches) (name : String) : Option Bool :=
  switches.globals.lookup name

end Switches

end IconConstraints
