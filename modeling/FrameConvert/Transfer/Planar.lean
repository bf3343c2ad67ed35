/-
# Between planar frames

Luma is copied.  Chroma goes from the source's grid to the target's:

| along an axis the source grid is | a target sample is |
| --- | --- |
| equal | its sample |
| finer by `k` | the mean of its `k` samples |
| coarser | the one sample over it |

The mean is over the whole block, which is one sample unless the source is finer
along an axis, and is rounded down once.  A target sample at `x` starts its block
at `x · sw / dw`, where the source has `sw` samples along the axis and the target
`dw`.  Frames of luma alone have neutral chroma, `128`.
-/

import FrameConvert.Transfer

namespace FrameConvert

/-- The chroma of a frame without colour. -/
def neutral : UInt8 := 128

/-- The sum of the samples of a block of `bw` by `bh` at `x`, `y` in a plane of
width `sw`. -/
def blockSum (p : Plane) (sw x y bw bh : Nat) : Checked Nat := do
  let sw ← chunk sw
  let stop ← size (x + bw)
  sweep bh (fun j s => do
    let run ← (← p.row (y + j) sw).slice x (stop - x)
    sweep bw (fun i s => do
      let v ← run.read i
      total (s + v.toNat)) s) 0

/-- The `sw` by `sh` samples of a plane, on a grid of `dw` by `dh`. -/
def resample (p : Plane) (sw sh dw dh : Nat) (q : Plane) : Checked Plane := do
  if sw = dw ∧ sh = dh then
    q.copy p (← size (sw * sh))
  else
    let bw := max (← quotient sw dw) 1
    let bh := max (← quotient sh dh) 1
    let count ← total (bw * bh)
    let dw ← chunk dw
    sweep dh (fun y q => do
      let sy ← quotient (← size (y * sh)) dh
      if count = 1 then do
        let row ← p.row sy sw
        sweep dw (fun x q => do
          let v ← row.read (← quotient (← size (x * sw)) dw)
          q.write (← size (y * dw + x)) v) q
      else
        sweep dw (fun x q => do
          let sx ← quotient (← size (x * sw)) dw
          let v ← quotient (← blockSum p sw sx sy bw bh) count
          q.write (← size (y * dw + x)) (UInt8.ofNat v)) q) q

/-- One chroma plane of a frame becomes the resampled one of another. -/
def resamplePlane (src : List Plane) (s : Subsampling) (i : Nat) (t : Subsampling) (j : Nat)
    (w h : Nat) (dst : List Plane) : Checked (List Plane) := do
  let p ← planeOf src i
  onPlane dst j (resample p (w / s.across) (h / s.down) (w / t.across) (h / t.down))

/-- A planar frame into another. -/
def planarToPlanar (a b : PlanarLayout) : Transfer := fun src dst w h => do
  let dst ← copyPlane src 0 (← size (w * h)) dst
  match a, b with
  | _, .luma => return dst
  | .luma, .chroma t _ =>
    let n ← chromaSamples t w h
    onPlane (← onPlane dst 1 (·.fill n neutral)) 2 (·.fill n neutral)
  | .chroma s o, .chroma t k =>
    resamplePlane src s o.v t k.v w h (← resamplePlane src s o.u t k.u w h dst)

/-- The two chroma planes of a frame change places. -/
def swapChroma (s : Subsampling) : Rework := fun planes w h => do
  let n ← chromaSamples s w h
  let u ← planeOf planes 1
  let v ← planeOf planes 2
  return (planes.set 1 (← u.copy v n)).set 2 (← v.copy u n)

/-- Frames that differ in the order of their chroma planes alone are reworked by
swapping them. -/
def planarRework? : PlanarLayout → PlanarLayout → Option Rework
  | .chroma s o, .chroma t k => if s = t ∧ o ≠ k then some (swapChroma s) else none
  | _, _ => none

end FrameConvert
