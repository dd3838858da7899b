/-!
# Tables of characters

A property of characters that follows no formula is a table: inclusive ranges
of code points in ascending order, no two of which touch.  Membership is a
binary search, so a table of several hundred ranges costs about ten steps.
-/

namespace IconConstraints.Text

abbrev CharTable := Array (Nat × Nat)

namespace CharTable

/-- Looks for `code` among the ranges with an index in `[low, high)`, halving at most `steps` times. -/
def search (table : CharTable) (code : Nat) : (steps low high : Nat) → Bool
  | 0, _, _ => false
  | steps + 1, low, high =>
    if low < high then
      let middle := (low + high) / 2
      match table[middle]? with
      | none => false
      | some (first, last) =>
        if code < first then search table code steps low middle
        else if last < code then search table code steps (middle + 1) high
        else true
    else false

def containsCode (table : CharTable) (code : Nat) : Bool :=
  search table code (table.size + 1) 0 table.size

def contains (table : CharTable) (c : Char) : Bool :=
  table.containsCode c.toNat

end CharTable

end IconConstraints.Text
