/-
# From luma and chroma to pixels

A pixel takes its own luma sample and the chroma sample over it: sample
`x / across` of row `y / down` of a planar frame, the pair of its macro pixel in a
packed one, neutral chroma where there is none.  Alpha is `0`.  Gray pixels take
the luma alone.

Rows of planar frames may be begun by something else, a `RowStart`: it writes some
pixels from the left and says how many, and the rest of the row follows pixel by
pixel.
-/

import FrameConvert.Transfer.Planar
import FrameConvert.Colour.Table

namespace FrameConvert

/-- The bytes of the pixel for a luma sample and a chroma pair. -/
def yuvBytes (b : PixelLayout) (y u v : UInt8) : Checked (List UInt8) :=
  match b with
  | .gray => return [Table.grayOfLuma y]
  | .colour k => do return k.bytes (← Table.rgb y u v) 0

/-- A row of pixels of which the first `done` are written. -/
structure StartedRow where
  done : Nat
  row : Plane

/-- Luma row, two chroma rows, pixel row and width; the pixel row begun. -/
abbrev RowStart := (y u v row : Plane) → (w : Nat) → Checked StartedRow

/-- No pixel of the row is written. -/
def unstarted : RowStart := fun _ _ _ row _ => return ⟨0, row⟩

/-- Pixels `x`, …, `w - 1` of a row, from their luma and `chroma x`. -/
def finishRow (b : PixelLayout) (luma : Plane) (chroma : Nat → Checked (UInt8 × UInt8))
    (w x : Nat) (row : Plane) : Checked Plane :=
  sweep (w - x) (fun i row => do
    let x := x + i
    let y ← luma.read x
    let (u, v) ← chroma x
    row.writeAll (← size (x * b.channels)) (← yuvBytes b y u v)) row

/-- A planar frame into a pixel frame, row by row. -/
def planarToPixels (a : PlanarLayout) (b : PixelLayout) (start : RowStart) : Transfer :=
    fun src dst w h => do
  let luma ← planeOf src 0
  let stride ← chunk (← size (w * b.channels))
  onPlane dst 0 (onFront (← size (w * h * b.channels)) (sweep h fun y q => do
    let yRow ← luma.row y w
    let row ← q.row y stride
    let row ← match a with
      | .luma => finishRow b yRow (fun _ => return (neutral, neutral)) w 0 row
      | .chroma s o => do
        let cw := w / s.across
        let uRow ← (← planeOf src o.u).row (y / s.down) cw
        let vRow ← (← planeOf src o.v).row (y / s.down) cw
        let begun ← start yRow uRow vRow row w
        finishRow b yRow (fun x => do
          let u ← uRow.read (x / s.across)
          let v ← vRow.read (x / s.across)
          return (u, v)) w begun.done begun.row
    q.writeAll (← size (y * stride)) row.toList))

/-- A packed frame into a pixel frame, macro pixel by macro pixel. -/
def packedToPixels (o : MacroOrder) (b : PixelLayout) : Transfer := fun src dst w h => do
  let n ← size (w * 2 * h)
  let p ← (← planeOf src 0).slice 0 n
  let pair ← chunk (b.channels * 2)
  onPlane dst 0 (onFront (← size (w * h * b.channels)) (sweep (n / 4) fun i q => do
    let m ← size (4 * i)
    let y₀ ← p.read (← size (m + o.y₀))
    let y₁ ← p.read (← size (m + o.y₁))
    let u ← p.read (← size (m + o.u))
    let v ← p.read (← size (m + o.v))
    let first ← yuvBytes b y₀ u v
    let second ← yuvBytes b y₁ u v
    q.writeAll (← size (i * pair)) (first ++ second)))

end FrameConvert
