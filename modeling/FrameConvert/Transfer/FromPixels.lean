/-
# From pixels to luma and chroma

Every pixel gives its luma.  A chroma sample is that of one pixel, the top left one
of its block: pixel `cx · across` of row `cy · down` for a planar frame, the first
pixel of the pair for a packed one.
-/

import FrameConvert.Transfer
import FrameConvert.Colour.Table

namespace FrameConvert

/-- The luma of all pixels. -/
def pixelLuma (a : PixelLayout) (n : Nat) (p q : Plane) : Checked Plane :=
  sweep n (fun i q => do
    let c ← a.read p (← size (i * a.channels))
    q.write i (← Table.lumaOf c)) q

/-- One chroma sample, by `of`, for the top left pixel of every block. -/
def pixelChroma (a : PixelLayout) (t : Subsampling) (sample : Rgb → Checked UInt8) (w h : Nat)
    (p q : Plane) : Checked Plane := do
  let step ← chunk (a.channels * t.across)
  sweep (h / t.down) (fun cy q => do
    let cw := w / t.across
    let row ← p.slice (← size (cy * t.down * w * a.channels)) (← size (w * a.channels))
    let _ ← q.row cy cw
    sweep cw (fun cx q => do
      let c ← a.read row (← size (cx * step))
      q.write (← size (cy * cw + cx)) (← sample c)) q) q

/-- A pixel frame into a planar one. -/
def pixelsToPlanar (a : PixelLayout) (b : PlanarLayout) : Transfer := fun src dst w h => do
  let n ← size (w * h)
  let p ← (← planeOf src 0).slice 0 (← size (n * (← chunk a.channels)))
  let dst ← onPlane dst 0 (onFront n (pixelLuma a n p))
  match b with
  | .luma => return dst
  | .chroma t k =>
    onPlane (← onPlane dst k.u (pixelChroma a t Table.uOf w h p)) k.v
      (pixelChroma a t Table.vOf w h p)

/-- A pixel frame into a packed one, pair by pair. -/
def pixelsToPacked (a : PixelLayout) (o : MacroOrder) : Transfer := fun src dst w h => do
  let n ← size (w * 2 * h)
  let p ← (← planeOf src 0).slice 0 (← size (w * h * a.channels))
  let pair ← chunk (a.channels * 2)
  onPlane dst 0 (onFront n (sweep (n / 4) fun i q => do
    let m ← size (i * pair)
    let c₀ ← a.read p m
    let c₁ ← a.read p (← size (m + a.channels))
    let y₀ ← Table.lumaOf c₀
    let y₁ ← Table.lumaOf c₁
    let u ← Table.uOf c₀
    let v ← Table.vOf c₀
    q.writeAll (← size (4 * i)) (o.word y₀ y₁ u v)))

end FrameConvert
