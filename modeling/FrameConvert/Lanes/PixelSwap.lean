/-
# Red and blue of three-byte pixels, sixteen pixels at a time

Sixteen pixels of three bytes fill three registers, and pixels straddle them.  Byte
`i` of the result comes from byte `3 ⌊i / 3⌋ + 2 - i mod 3`; so output register `k`
is the union of three picks, one from each input register `m`, by a table that
gives `0` for the bytes that come from the other two.

A plane is swapped in blocks of forty-eight bytes, and the pixels behind the last
whole block one at a time; up to two bytes behind the last whole pixel stay.
-/

import FrameConvert.Lanes.Register

namespace FrameConvert
namespace PixelSwap

/-- Where byte `i` of the result comes from. -/
def source (i : Nat) : Nat := 3 * (i / 3) + 2 - i % 3

/-- The picks of output register `k` from input register `m`. -/
def table (k m : Fin 3) : Register :=
  Vector.ofFn fun j =>
    let s := source (16 * k.val + j.val)
    if s / 16 = m.val then UInt8.ofNat (s % 16) else 0x80

/-- Three registers with red and blue of their pixels swapped. -/
def onRegisters (rows : Vector Register 3) : Vector Register 3 :=
  Vector.ofFn fun k =>
    ((Register.zero.or ((rows.get 0).shuffle (table k 0))).or
      ((rows.get 1).shuffle (table k 1))).or ((rows.get 2).shuffle (table k 2))

/-- The forty-eight bytes of `p` at `o`, swapped. -/
def block (o : Nat) (p : Plane) : Checked (Vector Register 3) := do
  let r₀ ← Register.load p o
  let r₁ ← Register.load p (← size (o + 16))
  let r₂ ← Register.load p (← size (o + 32))
  return onRegisters #v[r₀, r₁, r₂]

/-- Three registers written to a plane at byte `o`. -/
def storeBlock (rows : Vector Register 3) (o : Nat) (q : Plane) : Checked Plane := do
  let q ← (rows.get 0).store o q
  let q ← (rows.get 1).store (o + 16) q
  (rows.get 2).store (o + 32) q

/-- The three bytes of `p` at `o`, swapped. -/
def pixel (o : Nat) (p : Plane) : Checked (List UInt8) := do
  let b₀ ← p.read o
  let b₁ ← p.read (← size (o + 1))
  let b₂ ← p.read (← size (o + 2))
  return [b₂, b₁, b₀]

/-- The pixels of `p` from byte `o` on, swapped one at a time, into `q`. -/
def swapPixelsFrom (o : Nat) (p q : Plane) : Checked Plane :=
  sweep ((min p.size q.size - o) / 3) (fun i q => do
    let at₀ ← size (o + 3 * i)
    q.writeAll at₀ (← pixel at₀ p)) q

/-- The pixels of a plane from byte `o` on, swapped one at a time where they
stand. -/
def reswapPixelsFrom (o : Nat) (p : Plane) : Checked Plane :=
  sweep ((p.size - o) / 3) (fun i p => do
    let at₀ ← size (o + 3 * i)
    p.writeAll at₀ (← pixel at₀ p)) p

/-- The pixels of `p`, red and blue swapped, into `q`. -/
def swap (p q : Plane) : Checked Plane := do
  let blocks := min p.size q.size / 48
  let q ← sweep blocks (fun i q => do
    let o ← size (48 * i)
    storeBlock (← block o p) o q) q
  swapPixelsFrom (48 * blocks) p q

/-- The pixels of a plane, red and blue swapped where they stand. -/
def reswap (p : Plane) : Checked Plane := do
  let blocks := p.size / 48
  let p ← sweep blocks (fun i p => do
    let o ← size (48 * i)
    storeBlock (← block o p) o p) p
  reswapPixelsFrom (48 * blocks) p

end PixelSwap
end FrameConvert
