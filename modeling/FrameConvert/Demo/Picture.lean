/-
# Pictures of the demonstration

What a picture file holds is for a library of pictures to say; the demonstration asks it
for the sides, the top left part, and the colour pixels (`Codec`).  Every format accepts
a picture whose width is a multiple of four and whose height is even, so `aligned` cuts
both sides down to that.

`maxDivergence` compares two interleaved pictures channel by channel, over the
pixels that both have.
-/

import FrameConvert.Plane

namespace FrameConvert
namespace Demo

/-- A library of pictures. -/
structure Codec where
  /-- a decoded picture -/
  Image : Type
  /-- the picture in a file, whose name tells of its kind -/
  decode : (name : String) → (file : Plane) → Option Image
  width : Image → UInt32
  height : Image → UInt32
  /-- the part with the given sides at the top left -/
  crop : Image → (width height : UInt32) → Image
  /-- the colour of the pixels, in three bytes each, row by row -/
  toRgb : Image → Plane
  /-- the file that holds colour pixels -/
  encode : (rgb : Plane) → (width height : UInt32) → Plane

namespace Codec

/-- What the library says of its pictures: they have all their pixels, and a part that is
cut within a picture has the sides that were asked for and the pixels that are there. -/
structure Lawful (c : Codec) : Prop where
  size_toRgb : ∀ image,
    (c.toRgb image).size = (c.width image).toNat * (c.height image).toNat * 3
  sides_crop : ∀ (image : c.Image) (w h : UInt32), w ≤ c.width image → h ≤ c.height image →
    c.width (c.crop image w h) = w ∧ c.height (c.crop image w h) = h
  byte_crop : ∀ (image : c.Image) (w h : UInt32), w ≤ c.width image → h ≤ c.height image →
    ∀ x < w.toNat, ∀ y < h.toNat, ∀ k < 3,
      (c.toRgb (c.crop image w h)).byte ((y * w.toNat + x) * 3 + k) =
        (c.toRgb image).byte ((y * (c.width image).toNat + x) * 3 + k)

end Codec

/-- The largest sides that are not above the given ones and that every format
accepts. -/
def aligned (w h : UInt32) : UInt32 × UInt32 := (w &&& ~~~3, h &&& ~~~1)

/-- The distance of two samples. -/
def distance (a b : UInt8) : Nat := max (a.toNat - b.toNat) (b.toNat - a.toNat)

/-- The largest distance in each channel of two interleaved pictures. -/
def maxDivergence (p q : Plane) (channels : Nat) : Checked (List Nat) := do
  let pixels := min (← quotient p.size channels) (← quotient q.size channels)
  return (List.range channels).map fun c =>
    (List.range pixels).foldl
      (fun m i => max m (distance (p.byte (i * channels + c)) (q.byte (i * channels + c)))) 0

end Demo
end FrameConvert
