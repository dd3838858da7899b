/-!
# Search in a text

Whether one text occurs in another, and a text with every occurrence of a word
replaced, read from the left.
-/

namespace IconConstraints.Text

/-- Whether the characters of `needle` stand somewhere in a row. -/
def occursInChars (needle : List Char) : List Char → Bool
  | [] => needle.isEmpty
  | c :: cs => needle.isPrefixOf (c :: cs) || occursInChars needle cs

def occursIn (needle text : String) : Bool :=
  occursInChars needle.toList text.toList

/-- The first `skip` characters are left out, as they belong to an occurrence that has been replaced. -/
def replaceFrom (word value : List Char) : (skip : Nat) → List Char → List Char
  | _, [] => []
  | skip + 1, _ :: cs => replaceFrom word value skip cs
  | 0, c :: cs =>
    if word.isPrefixOf (c :: cs) then value ++ replaceFrom word value (word.length - 1) cs
    else c :: replaceFrom word value 0 cs

/-- The text with `value` in the place of every occurrence of the nonempty `word`. -/
def replace (word value text : String) : String :=
  String.ofList (replaceFrom word.toList value.toList 0 text.toList)

end IconConstraints.Text
