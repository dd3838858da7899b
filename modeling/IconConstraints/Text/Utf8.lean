/-!
# UTF-8

Bytes are read as characters.  A byte that belongs to no character is kept as
`none`, so that a reader can decide for itself where such a byte matters.
-/

namespace IconConstraints.Text

/-- The character that begins with byte `b`, if some of the bytes behind it complete one. -/
def leading? (b : UInt8) (rest : List UInt8) : Option Char :=
  (b :: rest.take 3).toByteArray.utf8DecodeChar? 0

/-- Reads on after the first `skip` bytes, which belong to a character that has been read. -/
def charactersFrom : (skip : Nat) → List UInt8 → List (Option Char)
  | _, [] => []
  | skip + 1, _ :: rest => charactersFrom skip rest
  | 0, b :: rest =>
    match leading? b rest with
    | some c => some c :: charactersFrom (c.utf8Size - 1) rest
    | none => none :: charactersFrom 0 rest

def characters (content : ByteArray) : List (Option Char) :=
  charactersFrom 0 content.data.toList

/-- The text of characters all of which could be read. -/
def text? (characters : List (Option Char)) : Option String :=
  (characters.mapM id).map String.ofList

/-- The number of bytes that characters were read from. -/
def byteCount (characters : List (Option Char)) : Nat :=
  characters.foldl (fun n c => n + (c.map Char.utf8Size).getD 1) 0

end IconConstraints.Text
