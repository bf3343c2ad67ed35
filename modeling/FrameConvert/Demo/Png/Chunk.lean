/-
# Chunks of a PNG file

A file is a mark of eight bytes and a row of chunks, each with its length in front
and a checksum of name and content behind:

| bytes | hold |
| ---: | --- |
| 4 | the length `n` of the content, high byte first |
| 4 | the name |
| `n` | the content |
| 4 | the checksum, high byte first |

The chunk `IEND` ends the file.
-/

import FrameConvert.Demo.Png.Checksum

namespace FrameConvert
namespace Demo
namespace Png

/-- The number in four bytes from byte `o` on, the high one first. -/
def word (p : Plane) (o : Nat) : Nat :=
  (((p.byte o).toNat * 256 + (p.byte (o + 1)).toNat) * 256 + (p.byte (o + 2)).toNat) * 256 +
    (p.byte (o + 3)).toNat

/-- A number in four bytes, the high one first. -/
def wordBytes (n : Nat) : Plane :=
  #[UInt8.ofNat (n / 0x1000000), UInt8.ofNat (n / 0x10000), UInt8.ofNat (n / 0x100), UInt8.ofNat n]

/-- The eight bytes that a file starts with. -/
def mark : Plane := #[0x89, 0x50, 0x4E, 0x47, 0x0D, 0x0A, 0x1A, 0x0A]

/-- The chunks that matter. -/
inductive ChunkName
  /-- size and kind of the picture -/
  | heading
  /-- the palette -/
  | palette
  /-- a part of the compressed rows -/
  | pixels
  /-- the end of the file -/
  | ending
  deriving DecidableEq, Repr

namespace ChunkName

/-- The four bytes of a name. -/
def bytes : ChunkName → Plane
  | heading => #[0x49, 0x48, 0x44, 0x52]
  | palette => #[0x50, 0x4C, 0x54, 0x45]
  | pixels => #[0x49, 0x44, 0x41, 0x54]
  | ending => #[0x49, 0x45, 0x4E, 0x44]

end ChunkName

/-- A part of a file. -/
structure Chunk where
  name : Plane
  content : Plane

namespace Chunk

/-- The bytes of a chunk. -/
def bytes (c : Chunk) : Plane :=
  wordBytes c.content.size ++ (c.name ++ c.content) ++
    wordBytes (crc (c.name ++ c.content)).toNat

/-- The chunks from byte `o` on, up to the one that ends the file and without it. -/
def allFrom? (file : Plane) (o : Nat) : Option (List Chunk) :=
  let n := word file o
  if o + 12 + n ≤ file.size then
    let name := file.extract (o + 4) (o + 8)
    if word file (o + 8 + n) ≠ (crc (file.extract (o + 4) (o + 8 + n))).toNat then none
    else if name = ChunkName.ending.bytes then some []
    else do
      let rest ← allFrom? file (o + 12 + n)
      return ⟨name, file.extract (o + 8) (o + 8 + n)⟩ :: rest
  else none
  termination_by file.size - o

/-- The content of all chunks of a name, one behind the other. -/
def contentOf (chunks : List Chunk) (name : ChunkName) : Plane :=
  chunks.foldl (fun p c => if c.name = name.bytes then p ++ c.content else p) #[]

end Chunk
end Png
end Demo
end FrameConvert
