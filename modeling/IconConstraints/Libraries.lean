import IconConstraints.Face
import IconConstraints.JsonLibrary
import IconConstraints.LruLibrary
import IconConstraints.Path

/-!
# Libraries

What the program leaves to libraries: the parsing of fonts, the faces that are kept by
the components of their paths, and the reading and writing of JSON.
-/

namespace IconConstraints

structure Libraries where
  fonts : FontLibrary
  faces : LruLibrary (List Path.Component) Face
  json : JsonLibrary

end IconConstraints
