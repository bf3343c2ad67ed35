/-
# Writing a PNG picture

Colour pixels of eight bits per channel, every row as it is, packed as blocks of
bytes that are as they are: the plainest file that holds the picture.
-/

import FrameConvert.Demo.Png.Chunk

namespace FrameConvert
namespace Demo
namespace Png

/-- A number in two bytes, the low one first. -/
def shortBytes (n : Nat) : Plane := #[UInt8.ofNat n, UInt8.ofNat (n / 256)]

/-- The most bytes that a block holds. -/
def blockLimit : Nat := 0xFFFF

/-- The bytes from byte `o` on in blocks, behind those of `out`. -/
def blocksFrom (bytes : Plane) (o : Nat) (out : Plane) : Plane :=
  let n := min blockLimit (bytes.size - o)
  let last := bytes.size ≤ o + blockLimit
  let out := (out.push (if last then 1 else 0)) ++ shortBytes n ++ shortBytes (blockLimit - n) ++
    bytes.extract o (o + n)
  if last then out else blocksFrom bytes (o + blockLimit) out
  termination_by bytes.size - o
  decreasing_by
    simp only [blockLimit] at *
    omega

/-- A stream with its heading and its checksum. -/
def streamOf (bytes : Plane) : Plane := blocksFrom bytes 0 #[0x78, 0x01] ++ wordBytes (adler bytes)

/-- Rows of `n` bytes, each behind the number of its prediction. -/
def plainRows (n h : Nat) (bytes : Plane) : Plane :=
  (List.range h).foldl (fun out y => out.push 0 ++ bytes.extract (y * n) ((y + 1) * n)) #[]

/-- The file that holds colour pixels of the given sides. -/
def encode (rgb : Plane) (w h : UInt32) : Plane :=
  let heading := wordBytes w.toNat ++ wordBytes h.toNat ++ #[8, 2, 0, 0, 0]
  mark ++ Chunk.bytes ⟨ChunkName.heading.bytes, heading⟩ ++
    Chunk.bytes ⟨ChunkName.pixels.bytes, streamOf (plainRows (w.toNat * 3) h.toNat rgb)⟩ ++
    Chunk.bytes ⟨ChunkName.ending.bytes, #[]⟩

end Png
end Demo
end FrameConvert
