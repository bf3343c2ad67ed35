/-
# Between pixel frames

A pixel keeps its colour.  Gray stands for three equal channels, and becomes the
weighted sum of them.  Alpha is carried over where both frames have it and is `0`
where only the target has.  Frames whose pixels are of one size and not gray are
also reworked where they stand, a pixel being read whole before it is written.
-/

import FrameConvert.Transfer
import FrameConvert.Colour.Table

namespace FrameConvert

/-- The bytes in one layout of the pixel that `p` holds at byte `i` in another. -/
def pixelBytes (a b : PixelLayout) (i : Nat) (p : Plane) : Checked (List UInt8) := do
  let c ← a.read p i
  match b with
  | .gray => return [← Table.grayOf c]
  | .colour k => return k.bytes c (← a.readAlpha p i)

/-- A pixel frame into another. -/
def pixelsToPixels (a b : PixelLayout) : Transfer := fun src dst w h => do
  let n ← size (w * h)
  let p ← (← planeOf src 0).slice 0 (← size (n * (← chunk a.channels)))
  onPlane dst 0 (onFront (← size (n * (← chunk b.channels))) (sweep n fun i q => do
    let bytes ← pixelBytes a b (← size (i * a.channels)) p
    q.writeAll (← size (i * b.channels)) bytes))

/-- A pixel frame reordered where it stands. -/
def pixelsRework (a b : PixelLayout) : Rework := fun planes w h => do
  let n ← size (w * h)
  onPlane planes 0 (onFront (← size (n * (← chunk a.channels))) (sweep n fun i p => do
    let o ← size (i * a.channels)
    p.writeAll o (← pixelBytes a b o p)))

/-- Colour frames whose pixels are of one size can be reordered where they stand. -/
def pixelsRework? (a b : PixelLayout) : Option Rework :=
  if a.channels = b.channels ∧ a ≠ .gray ∧ b ≠ .gray then some (pixelsRework a b) else none

end FrameConvert
