import IconConstraints.Json.Shapes
import IconConstraints.Libraries
import IconConstraints.TrueType.Parsing

/-!
# Built-in libraries

The libraries that the program is run with.  What is proved of the program holds for
others too.
-/

namespace IconConstraints

def Libraries.builtIn : Libraries where
  fonts := TrueType.library
  faces := RecencyList.library
  json := Json.library

end IconConstraints
