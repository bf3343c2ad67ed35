/-
# Rows of a PNG picture

A row is packed samples, the first in the highest bits of a byte, each of 1, 2, 4, 8
or 16 bits.  Before packing every byte was reduced by a prediction from bytes one
pixel back (`a`), one row up (`b`) and both (`c`), and the kind of prediction stands
before the row:

| kind | prediction |
| ---: | --- |
| 0 | `0` |
| 1 | `a` |
| 2 | `b` |
| 3 | `(a + b) / 2` |
| 4 | whichever of `a`, `b`, `c` is nearest to `a + b - c`, the first if two are |

Beyond the left and upper edge all bytes count as `0`.
-/

import FrameConvert.Plane

namespace FrameConvert
namespace Demo
namespace Png

/-- Whichever of `a`, `b`, `c` is nearest to `a + b - c`. -/
def nearest (a b c : Nat) : Nat :=
  let p : Int := a + b - c
  let da := (p - a).natAbs
  let db := (p - b).natAbs
  let dc := (p - c).natAbs
  if da ≤ db ∧ da ≤ dc then a else if db ≤ dc then b else c

/-- The prediction of a byte. -/
def prediction? (kind a b c : Nat) : Option Nat :=
  match kind with
  | 0 => some 0
  | 1 => some a
  | 2 => some b
  | 3 => some ((a + b) / 2)
  | 4 => some (nearest a b c)
  | _ => none

/-- The `n` bytes of a row that is reduced from byte `o` on, for the row above it and
pixels of `step` bytes. -/
def restoreRow (kind step n : Nat) (above reduced : Plane) (o : Nat) : Option Plane :=
  (List.range n).foldlM (fun row i => do
    let a := if i < step then 0 else row.byte (i - step)
    let c := if i < step then 0 else above.byte (i - step)
    let p ← prediction? kind a.toNat (above.byte i).toNat c.toNat
    return row.push (reduced.byte (o + i) + UInt8.ofNat p)) #[]

/-- `h` rows of `n` bytes, from byte `o` on. -/
def rowsFrom? (step n : Nat) (reduced : Plane) : (h : Nat) → (above : Plane) → (o : Nat) →
    Option (List Plane)
  | 0, _, _ => some []
  | h + 1, above, o =>
    if o + 1 + n ≤ reduced.size then do
      let row ← restoreRow (reduced.byte o).toNat step n above reduced (o + 1)
      return row :: (← rowsFrom? step n reduced h row (o + 1 + n))
    else none

/-- Sample `k` of a row, of `depth` bits. -/
def sample (depth : Nat) (row : Plane) (k : Nat) : Nat :=
  if depth = 16 then (row.byte (2 * k)).toNat * 256 + (row.byte (2 * k + 1)).toNat
  else
    let bit := k * depth
    (row.byte (bit / 8)).toNat >>> (8 - depth - bit % 8) % 1 <<< depth

/-- A sample of `depth` bits on the scale of a byte, rounded to nearest. -/
def toByte (depth n : Nat) : UInt8 :=
  let top := 1 <<< depth - 1
  UInt8.ofNat ((n * 255 + top / 2) / top)

end Png
end Demo
end FrameConvert
