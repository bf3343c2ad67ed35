/-
# PNG files as a library of pictures

A picture is decoded to colour pixels at once, so nothing is left to do for its colour;
a part that reaches beyond the picture ends where the picture ends.
-/

import FrameConvert.Demo.Picture
import FrameConvert.Demo.Png.Decode
import FrameConvert.Demo.Png.Encode

namespace FrameConvert
namespace Demo
namespace Png

/-- The part of `w` by `h` pixels at the top left, as far as the picture reaches. -/
def Picture.crop (p : Picture) (w h : UInt32) : Picture :=
  let w := min w p.width
  let h := min h p.height
  let row := w.toNat * 3
  { width := w
    height := h
    rgb := .ofFn (n := w.toNat * h.toNat * 3) fun i =>
      p.rgb.byte (i / row * (p.width.toNat * 3) + i % row)
    size := Array.size_ofFn }

/-- The library of PNG files, whatever they are called. -/
def codec : Codec where
  Image := Picture
  decode _ := decode?
  width := Picture.width
  height := Picture.height
  crop := Picture.crop
  toRgb := Picture.rgb
  encode := encode

end Png
end Demo
end FrameConvert
