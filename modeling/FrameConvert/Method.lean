/-
# Which method serves which pair

Every ordered pair of formats has a portable method but the six between `YUV411P`
and the packed formats.  Some pairs have further methods for a tier:

| tier | pairs |
| --- | --- |
| `sse2` | packed with packed, four-byte pixels with four-byte pixels |
| `sse41` | the same, and `RGB24` with `BGR24` |
| `avx2` | planar with chroma to colour, planar to planar, pixels to planar |

A method may also rework a frame where it stands: identities, packed and colour
reorders, and the exchange of chroma planes.
-/

import FrameConvert.Transfer.Interleave
import FrameConvert.Transfer.Packed
import FrameConvert.Transfer.Pixels
import FrameConvert.Transfer.ToPixels
import FrameConvert.Transfer.FromPixels
import FrameConvert.Lanes.WordShift
import FrameConvert.Lanes.ByteTable
import FrameConvert.Lanes.PixelSwap
import FrameConvert.Lanes.Row
import FrameConvert.Tier

namespace FrameConvert

/-- How to convert: into another frame, and where the frame stands if that can be
done. -/
structure Method where
  transfer : Transfer
  rework? : Option Rework

namespace Method

/-- The portable method of a pair. -/
def portable? (a b : Format) : Option Method :=
  if a = b then some ⟨copyFrame a.layout, some keep⟩
  else
    match a.layout, b.layout with
    | .planar p, .planar q => some ⟨planarToPlanar p q, planarRework? p q⟩
    | .planar (.chroma .s411 _), .packed _ => none
    | .planar p, .packed o => some ⟨planarToPacked p o, none⟩
    | .planar p, .pixels l => some ⟨planarToPixels p l unstarted, none⟩
    | .packed _, .planar (.chroma .s411 _) => none
    | .packed o, .planar q => some ⟨packedToPlanar o q, none⟩
    | .packed o, .packed k => some ⟨packedToPacked o k, some (packedRework o k)⟩
    | .packed o, .pixels l => some ⟨packedToPixels o l, none⟩
    | .pixels l, .planar q => some ⟨pixelsToPlanar l q, none⟩
    | .pixels l, .packed o => some ⟨pixelsToPacked l o, none⟩
    | .pixels l, .pixels m => some ⟨pixelsToPixels l m, pixelsRework? l m⟩

/-- The whole first planes of two frames, from one to the other. -/
def wholePlane (f : Format) (move : Plane → Plane → Checked Plane) : Transfer :=
    fun src dst w h => do
  let n ← size (w * h * f.bytesPerPixel)
  let p ← (← planeOf src 0).slice 0 n
  onPlane dst 0 (onFront n (move p))

/-- The whole first plane of a frame where it stands. -/
def wholePlaneInPlace (f : Format) (move : Plane → Checked Plane) : Rework :=
    fun planes w h => do
  let n ← size (w * h * f.bytesPerPixel)
  onPlane planes 0 (onFront n move)

/-- Word permutations by lane shifts. -/
def sse2? (a b : Format) : Option Method :=
  (WordShuffle.between? a b).map fun op =>
    ⟨wholePlane a (WordShift.shuffleWords op),
      some (wholePlaneInPlace a (WordShift.reshuffleWords op))⟩

/-- Word permutations and the exchange of red and blue by byte tables. -/
def sse41? (a b : Format) : Option Method :=
  if (a = .rgb24 ∧ b = .bgr24) ∨ (a = .bgr24 ∧ b = .rgb24) then
    some ⟨wholePlane a PixelSwap.swap, some (wholePlaneInPlace a PixelSwap.reswap)⟩
  else
    (WordShuffle.between? a b).map fun op =>
      ⟨wholePlane a (ByteTable.shuffleWords op),
        some (wholePlaneInPlace a (ByteTable.reshuffleWords op))⟩

/-- Planar sources and targets; rows of colour pixels are begun in lanes. -/
def avx2? (a b : Format) : Option Method :=
  match a.layout, b.layout with
  | .planar (.chroma s o), .pixels (.colour k) =>
    some ⟨planarToPixels (.chroma s o) (.colour k) (RowLanes.start s k), none⟩
  | .planar p, .planar q =>
    if p = q then none else some ⟨planarToPlanar p q, planarRework? p q⟩
  | .pixels l, .planar q => some ⟨pixelsToPlanar l q, none⟩
  | _, _ => none

/-- The method of a tier for a pair, where the tier has one of its own. -/
def accelerated? : Tier → Format → Format → Option Method
  | .sse2 => sse2?
  | .sse41 => sse41?
  | .avx2 => avx2?
  | .portable | .neon => fun _ _ => none

end Method
end FrameConvert
