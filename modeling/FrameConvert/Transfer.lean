/-
# Moving a frame

A `Transfer` reads the planes of one frame and rewrites those of another; a
`Rework` rewrites the planes of the one frame there is.  Both trust that formats,
geometry and planes were checked, and both see the planes whole: bytes behind the
frame and surplus planes come back as they were.

Three transfers need no arithmetic on samples: `copyPlane` and what is built from
it, and `keep`, which does nothing.
-/

import FrameConvert.Format

namespace FrameConvert

/-- Source planes, destination planes, width and height; the destination planes
afterwards. -/
abbrev Transfer := (src dst : List Plane) → (w h : Nat) → Checked (List Plane)

/-- Planes, width and height; the planes afterwards. -/
abbrev Rework := (planes : List Plane) → (w h : Nat) → Checked (List Plane)

/-- The samples of one chroma plane. -/
def chromaSamples (s : Subsampling) (w h : Nat) : Checked Nat :=
  size (w / s.across * (h / s.down))

/-- The first `n` bytes of plane `i` of a frame become those of `src`. -/
def copyPlane (src : List Plane) (i n : Nat) (dst : List Plane) : Checked (List Plane) := do
  let p ← planeOf src i
  onPlane dst i (·.copy p n)

/-- A frame into another of the same format. -/
def copyFrame : Layout → Transfer
  | .planar .luma => fun src dst w h => do
    copyPlane src 0 (← size (w * h)) dst
  | .planar (.chroma s _) => fun src dst w h => do
    let dst ← copyPlane src 0 (← size (w * h)) dst
    let n ← chromaSamples s w h
    copyPlane src 2 n (← copyPlane src 1 n dst)
  | .packed _ => fun src dst w h => do
    copyPlane src 0 (← size (w * h * 2)) dst
  | .pixels l => fun src dst w h => do
    copyPlane src 0 (← size (w * h * l.channels)) dst

/-- A frame stays what it is. -/
def keep : Rework := fun planes _ _ => return planes

end FrameConvert
