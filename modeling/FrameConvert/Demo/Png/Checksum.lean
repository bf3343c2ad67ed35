/-
# Checksums of a PNG file

Two checksums guard a file, both folds over the bytes:

* `crc`, of a chunk: the remainder of the bits by `0xEDB88320`, the low bit of a byte
  first, starting from all ones and complemented at the end;
* `adler`, of the compressed pixels: `s + 2 ^ 16 t`, both modulo `65521`, where `s` is
  one more than the sum of the bytes and `t` the sum of all values that `s` took.
-/

import FrameConvert.Plane

namespace FrameConvert
namespace Demo
namespace Png

/-- The remainder after one more bit. -/
def crcBit (c : UInt32) : UInt32 :=
  if c &&& 1 = 1 then (c >>> 1) ^^^ 0xEDB88320 else c >>> 1

/-- The remainder after one more byte. -/
def crcByte (c : UInt32) (b : UInt8) : UInt32 := Nat.repeat crcBit 8 (c ^^^ b.toUInt32)

/-- The checksum of a chunk. -/
def crc (bytes : Plane) : UInt32 := ~~~ (bytes.foldl crcByte 0xFFFFFFFF)

/-- The two sums of a stream. -/
structure Sums where
  s : Nat
  t : Nat

/-- The sums after one more byte. -/
def Sums.add (x : Sums) (b : UInt8) : Sums :=
  let s := (x.s + b.toNat) % 65521
  ⟨s, (x.t + s) % 65521⟩

/-- The checksum of the compressed pixels. -/
def adler (bytes : Plane) : Nat :=
  let x := bytes.foldl Sums.add ⟨1, 0⟩
  x.t * 0x10000 + x.s

end Png
end Demo
end FrameConvert
