import IconConstraints.Text.CharTable

/-!
# White space

The 25 characters of the property *White_Space*.
-/

namespace IconConstraints.Text

def whiteSpaceTable : CharTable := #[
    (0x9, 0xd), (0x20, 0x20), (0x85, 0x85), (0xa0, 0xa0), (0x1680, 0x1680), (0x2000, 0x200a),
    (0x2028, 0x2029), (0x202f, 0x202f), (0x205f, 0x205f), (0x3000, 0x3000)]

def isWhiteSpace (c : Char) : Bool :=
  if c.toNat < 0x80 then decide (c.toNat = 0x20 ∨ 0x09 ≤ c.toNat ∧ c.toNat ≤ 0x0d)
  else whiteSpaceTable.contains c

end IconConstraints.Text
