/-!
# Numbers in blocks of bytes

A font file is read by the numbers that stand at its offsets.  Numbers are written with
the greatest byte first.
-/

namespace IconConstraints.TrueType

/-- A part of a file. -/
structure Block where
  data : ByteArray
  start : Nat
  size : Nat

namespace Block

def ofData (data : ByteArray) : Block :=
  ⟨data, 0, data.size⟩

/-- The bytes from an offset on. -/
def drop (b : Block) (offset : Nat) : Block :=
  ⟨b.data, b.start + offset, b.size - offset⟩

/-- A part of the block, if the block has so many bytes. -/
def part? (b : Block) (offset size : Nat) : Option Block :=
  if offset + size ≤ b.size then some ⟨b.data, b.start + offset, size⟩ else none

def byte? (b : Block) (offset : Nat) : Option Nat :=
  if h : offset < b.size ∧ b.start + offset < b.data.size then some b.data[b.start + offset].toNat else none

/-- The number in the `count` bytes at an offset. -/
def number? (b : Block) (offset : Nat) : (count : Nat) → Option Nat
  | 0 => some 0
  | count + 1 => do
    let high ← b.number? offset count
    let low ← b.byte? (offset + count)
    return 256 * high + low

def word? (b : Block) (offset : Nat) : Option Nat :=
  b.number? offset 2

def long? (b : Block) (offset : Nat) : Option Nat :=
  b.number? offset 4

end Block

/-- The number with the least 16 bits of `n`, the first of which is its sign. -/
def signed (n : Int) : Int :=
  (n + 0x8000) % 0x10000 - 0x8000

end IconConstraints.TrueType
