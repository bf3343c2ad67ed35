/-
# Registers of sixteen bytes

A register holds sixteen bytes; the same bytes are eight 16-bit lanes or four
32-bit lanes, the low byte of a lane first.

| operation | result |
| --- | --- |
| `or`, `and` | byte by byte |
| `shiftLeft16 n`, `shiftRight16 n` | every 16-bit lane shifted, zeros moving in |
| `shiftLeft32 n`, `shiftRight32 n` | every 32-bit lane shifted, zeros moving in |
| `splat32 c` | every 32-bit lane is `c` |
| `shuffle table` | byte `i` is `0` if the high bit of `table i` is set, else byte `table i % 16` |
| `unpackLow s` | bytes `0` … `7` of both, alternating |
-/

import FrameConvert.Plane

namespace FrameConvert

/-- Sixteen bytes. -/
abbrev Register := Vector UInt8 16

namespace Register

/-- Sixteen zeros. -/
def zero : Register := Vector.replicate 16 0

/-- The sixteen bytes of a plane at byte `o`. -/
def load (p : Plane) (o : Nat) : Checked Register :=
  if h : o + 16 ≤ p.size then .ok (Vector.ofFn fun i => p[o + i.val]) else .error .outside

/-- A register written to a plane at byte `o`. -/
def store (r : Register) (o : Nat) (p : Plane) : Checked Plane := p.writeAll o r.toList

/-- A 16-bit lane. -/
def lane16 (r : Register) (k : Fin 8) : BitVec 16 :=
  r[2 * k.val + 1].toBitVec ++ r[2 * k.val].toBitVec

/-- A 32-bit lane. -/
def lane32 (r : Register) (k : Fin 4) : BitVec 32 :=
  r[4 * k.val + 3].toBitVec ++ r[4 * k.val + 2].toBitVec ++ r[4 * k.val + 1].toBitVec ++
    r[4 * k.val].toBitVec

/-- Byte `i` of a word, the low byte being byte `0`. -/
def byteOf {n : Nat} (w : BitVec n) (i : Nat) : UInt8 := UInt8.ofBitVec (w.extractLsb' (8 * i) 8)

/-- Every 16-bit lane by `f`. -/
def map16 (f : BitVec 16 → BitVec 16) (r : Register) : Register :=
  Vector.ofFn fun i => byteOf (f (r.lane16 ⟨i.val / 2, by omega⟩)) (i.val % 2)

/-- Every 32-bit lane by `f`. -/
def map32 (f : BitVec 32 → BitVec 32) (r : Register) : Register :=
  Vector.ofFn fun i => byteOf (f (r.lane32 ⟨i.val / 4, by omega⟩)) (i.val % 4)

/-- Byte by byte. -/
def or (r s : Register) : Register := Vector.zipWith (· ||| ·) r s

/-- Byte by byte. -/
def and (r s : Register) : Register := Vector.zipWith (· &&& ·) r s

def shiftLeft16 (n : Nat) (r : Register) : Register := r.map16 (· <<< n)
def shiftRight16 (n : Nat) (r : Register) : Register := r.map16 (· >>> n)
def shiftLeft32 (n : Nat) (r : Register) : Register := r.map32 (· <<< n)
def shiftRight32 (n : Nat) (r : Register) : Register := r.map32 (· >>> n)

/-- Every 32-bit lane is `c`. -/
def splat32 (c : BitVec 32) : Register := zero.map32 fun _ => c

/-- Bytes picked by a table; an entry with the high bit set gives `0`. -/
def shuffle (r table : Register) : Register :=
  table.map fun t => if t &&& 0x80 = 0 then r.get ⟨t.toNat % 16, by omega⟩ else 0

/-- The low eight bytes of both, alternating. -/
def unpackLow (r s : Register) : Register :=
  Vector.ofFn fun i =>
    if i.val % 2 = 0 then r.get ⟨i.val / 2, by omega⟩ else s.get ⟨i.val / 2, by omega⟩

end Register

end FrameConvert
