/-
# Reading a PNG picture

The first chunk of a file says how large the picture is, how many bits a sample has,
and what the colours are made of:

| number | colour | bits per sample |
| ---: | --- | --- |
| 0 | gray | 1, 2, 4, 8, 16 |
| 2 | red, green, blue | 8, 16 |
| 3 | a place in the palette | 1, 2, 4, 8 |
| 4 | gray and alpha | 8, 16 |
| 6 | red, green, blue and alpha | 8, 16 |

Alpha is dropped and gray stands for three equal channels.  Interlaced pictures come
in seven passes, each a picture of its own whose pixels lie on a grid of the whole.
-/

import FrameConvert.Demo.Png.Chunk
import FrameConvert.Demo.Png.Inflate
import FrameConvert.Demo.Png.Scanline
import FrameConvert.Layout

namespace FrameConvert
namespace Demo
namespace Png

/-- What colours are made of. -/
inductive ColourKind
  | gray | rgb | palette | grayAlpha | rgba
  deriving DecidableEq, Repr

namespace ColourKind

/-- The kind with a number. -/
def ofNumber? : Nat → Option ColourKind
  | 0 => some gray
  | 2 => some rgb
  | 3 => some palette
  | 4 => some grayAlpha
  | 6 => some rgba
  | _ => none

/-- Samples per pixel. -/
def samples : ColourKind → Nat
  | gray | palette => 1
  | grayAlpha => 2
  | rgb => 3
  | rgba => 4

/-- The numbers of bits that a sample may have. -/
def depths : ColourKind → List Nat
  | gray => [1, 2, 4, 8, 16]
  | palette => [1, 2, 4, 8]
  | rgb | grayAlpha | rgba => [8, 16]

end ColourKind

/-- What the first chunk says. -/
structure Heading where
  width : Nat
  height : Nat
  depth : Nat
  kind : ColourKind
  interlaced : Bool

namespace Heading

/-- The heading in the content of its chunk. -/
def ofContent? (p : Plane) : Option Heading := do
  let kind ← ColourKind.ofNumber? (p.byte 9).toNat
  let depth := (p.byte 8).toNat
  if p.size = 13 ∧ 0 < word p 0 ∧ 0 < word p 4 ∧ depth ∈ kind.depths ∧ p.byte 10 = 0 ∧
      p.byte 11 = 0 ∧ (p.byte 12).toNat < 2 then
    some ⟨word p 0, word p 4, depth, kind, p.byte 12 = 1⟩
  else none

/-- Bits per pixel. -/
def pixelBits (x : Heading) : Nat := x.kind.samples * x.depth

/-- Bytes of a row of `w` pixels. -/
def rowBytes (x : Heading) (w : Nat) : Nat := (w * x.pixelBits + 7) / 8

/-- The colour of pixel `i` of a row. -/
def colour? (x : Heading) (palette row : Plane) (i : Nat) : Option Rgb :=
  let channel (k : Nat) := toByte x.depth (sample x.depth row (i * x.kind.samples + k))
  match x.kind with
  | .gray | .grayAlpha => some ⟨channel 0, channel 0, channel 0⟩
  | .rgb | .rgba => some ⟨channel 0, channel 1, channel 2⟩
  | .palette =>
    let o := 3 * sample x.depth row i
    if o + 3 ≤ palette.size then
      some ⟨palette.byte o, palette.byte (o + 1), palette.byte (o + 2)⟩
    else none

end Heading

/-- The pixels of a picture that lie on a grid. -/
structure Pass where
  left : Nat
  top : Nat
  across : Nat
  down : Nat

namespace Pass

/-- All pixels. -/
def whole : Pass := ⟨0, 0, 1, 1⟩

/-- The seven passes of an interlaced picture. -/
def seven : List Pass :=
  [⟨0, 0, 8, 8⟩, ⟨4, 0, 8, 8⟩, ⟨0, 4, 4, 8⟩, ⟨2, 0, 4, 4⟩, ⟨0, 2, 2, 4⟩, ⟨1, 0, 2, 2⟩,
    ⟨0, 1, 1, 2⟩]

/-- How many pixels of a row of `w` are on the grid. -/
def width (g : Pass) (w : Nat) : Nat := (w - g.left + g.across - 1) / g.across

/-- How many rows of `h` are on the grid. -/
def height (g : Pass) (h : Nat) : Nat := (h - g.top + g.down - 1) / g.down

end Pass

/-- Colour pixels of three bytes with those of one row of a pass filled in. -/
def placeRow (x : Heading) (palette : Plane) (g : Pass) (row : Plane) (y : Nat)
    (rgb : Plane) : Option Plane :=
  (List.range (g.width x.width)).foldlM (fun rgb i => do
    let c ← x.colour? palette row i
    let o := 3 * ((g.top + y * g.down) * x.width + (g.left + i * g.across))
    return ((rgb.setIfInBounds o c.r).setIfInBounds (o + 1) c.g).setIfInBounds (o + 2) c.b) rgb

/-- Colour pixels with those of all passes filled in, from byte `o` of the rows on. -/
def placeAll (x : Heading) (palette reduced : Plane) : List Pass → (o : Nat) → Plane →
    Option Plane
  | [], _, rgb => some rgb
  | g :: gs, o, rgb =>
    let w := g.width x.width
    let h := g.height x.height
    if w = 0 ∨ h = 0 then placeAll x palette reduced gs o rgb
    else do
      let n := x.rowBytes w
      let rows ← rowsFrom? (max 1 (x.pixelBits / 8)) n reduced h #[] o
      let rgb ← rows.zipIdx.foldlM (fun rgb row => placeRow x palette g row.1 row.2 rgb) rgb
      placeAll x palette reduced gs (o + h * (1 + n)) rgb

/-- Colour pixels of three bytes, row by row; there are as many as the sides say. -/
structure Picture where
  width : UInt32
  height : UInt32
  rgb : Plane
  size : rgb.size = width.toNat * height.toNat * 3

/-- Pixels as a picture, if they are as many as the sides say. -/
def Picture.ofPixels? (w h : UInt32) (rgb : Plane) : Option Picture :=
  if size : rgb.size = w.toNat * h.toNat * 3 then some ⟨w, h, rgb, size⟩ else none

/-- The picture in a file. -/
def decode? (file : Plane) : Option Picture := do
  if file.extract 0 8 ≠ mark then none
  let chunks ← Chunk.allFrom? file 8
  let first ← chunks.head?
  if first.name ≠ ChunkName.heading.bytes then none
  let x ← Heading.ofContent? first.content
  let reduced ← inflate? (Chunk.contentOf chunks .pixels)
  let passes := if x.interlaced then Pass.seven else [Pass.whole]
  let black := Array.replicate (x.width * x.height * 3) 0
  let palette := Chunk.contentOf chunks .palette
  Picture.ofPixels? (.ofNat x.width) (.ofNat x.height)
    (← placeAll x palette reduced passes 0 black)

end Png
end Demo
end FrameConvert
