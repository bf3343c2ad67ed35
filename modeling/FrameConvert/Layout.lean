/-
# Where samples and channels lie

Three ways of laying out a frame:

* *planar*: a luma plane, and for all but luma-only frames two chroma planes
  that hold one sample per block of pixels;
* *packed*: 4:2:2 macro pixels of four bytes, two luma samples sharing one chroma
  pair;
* *pixels*: interleaved channels, full range; gray is a single channel.

| subsampling | block across | block down |
| --- | ---: | ---: |
| 4:2:0 | 2 | 2 |
| 4:1:1 | 4 | 1 |
| 4:2:2 | 2 | 1 |
| 4:4:4 | 1 | 1 |

Positions say where a reader looks; `MacroOrder.word` and `PixelOrder.bytes` are
what a writer leaves.  `MacroOrder.word_at` and `PixelOrder.bytes_at` tie them
together: what was written is found at its position.  `PixelLayout.colourAt` and
`alphaAt` are what a reader finds in a plane that holds the pixel (`read_eq_ok`,
`readAlpha_eq_ok`).
-/

import FrameConvert.Plane

namespace FrameConvert

/-- How many pixels share a chroma sample. -/
inductive Subsampling
  | s420 | s411 | s422 | s444
  deriving DecidableEq, Repr

namespace Subsampling

/-- Pixels per chroma sample along a row. -/
def across : Subsampling → Nat
  | s420 | s422 => 2
  | s411 => 4
  | s444 => 1

/-- Rows per chroma sample. -/
def down : Subsampling → Nat
  | s420 => 2
  | s411 | s422 | s444 => 1

theorem across_pos (s : Subsampling) : 0 < s.across := by cases s <;> decide

theorem down_pos (s : Subsampling) : 0 < s.down := by cases s <;> decide

end Subsampling

/-- Which chroma plane comes first. -/
inductive ChromaOrder
  | uv | vu
  deriving DecidableEq, Repr

namespace ChromaOrder

/-- Index of the U plane. -/
def u : ChromaOrder → Nat
  | uv => 1
  | vu => 2

/-- Index of the V plane. -/
def v : ChromaOrder → Nat
  | uv => 2
  | vu => 1

end ChromaOrder

/-- A luma plane, alone or with two chroma planes. -/
inductive PlanarLayout
  | luma
  | chroma (s : Subsampling) (order : ChromaOrder)
  deriving DecidableEq, Repr

/-- Byte order of a 4:2:2 macro pixel. -/
inductive MacroOrder
  | yuyv | uyvy | yvyu
  deriving DecidableEq, Repr

namespace MacroOrder

/-- Position of the first luma sample. -/
def y₀ : MacroOrder → Nat
  | yuyv | yvyu => 0
  | uyvy => 1

/-- Position of the second luma sample. -/
def y₁ : MacroOrder → Nat
  | yuyv | yvyu => 2
  | uyvy => 3

/-- Position of the U sample. -/
def u : MacroOrder → Nat
  | yuyv => 1
  | uyvy => 0
  | yvyu => 3

/-- Position of the V sample. -/
def v : MacroOrder → Nat
  | yuyv => 3
  | uyvy => 2
  | yvyu => 1

/-- The four bytes of a macro pixel. -/
def word (o : MacroOrder) (y₀ y₁ u v : UInt8) : List UInt8 :=
  match o with
  | yuyv => [y₀, u, y₁, v]
  | uyvy => [u, y₀, v, y₁]
  | yvyu => [y₀, v, y₁, u]

theorem length_word (o : MacroOrder) (a b c d : UInt8) : (o.word a b c d).length = 4 := by
  cases o <;> rfl

/-- **Each sample is found at its position.** -/
theorem word_at (o : MacroOrder) (a b c d : UInt8) :
    (o.word a b c d).getD o.y₀ 0 = a ∧ (o.word a b c d).getD o.y₁ 0 = b ∧
      (o.word a b c d).getD o.u 0 = c ∧ (o.word a b c d).getD o.v 0 = d := by
  cases o <;> exact ⟨rfl, rfl, rfl, rfl⟩

end MacroOrder

/-- A colour in full range. -/
structure Rgb where
  r : UInt8
  g : UInt8
  b : UInt8
  deriving DecidableEq, Repr

/-- Channel order of a colour pixel. -/
inductive PixelOrder
  | rgb | bgr | rgba | abgr | argb | bgra
  deriving DecidableEq, Repr

namespace PixelOrder

/-- Bytes per pixel. -/
def channels : PixelOrder → Nat
  | rgb | bgr => 3
  | rgba | abgr | argb | bgra => 4

/-- Position of red. -/
def r : PixelOrder → Nat
  | rgb | rgba => 0
  | argb => 1
  | bgr | bgra => 2
  | abgr => 3

/-- Position of green. -/
def g : PixelOrder → Nat
  | rgb | bgr | rgba | bgra => 1
  | abgr | argb => 2

/-- Position of blue. -/
def b : PixelOrder → Nat
  | bgr | bgra => 0
  | abgr => 1
  | rgb | rgba => 2
  | argb => 3

/-- Position of alpha, where there is one. -/
def alpha? : PixelOrder → Option Nat
  | rgb | bgr => none
  | rgba | bgra => some 3
  | abgr | argb => some 0

/-- The bytes of a pixel; alpha `a` is dropped where the order has none. -/
def bytes (o : PixelOrder) (c : Rgb) (a : UInt8) : List UInt8 :=
  match o with
  | rgb => [c.r, c.g, c.b]
  | bgr => [c.b, c.g, c.r]
  | rgba => [c.r, c.g, c.b, a]
  | abgr => [a, c.b, c.g, c.r]
  | argb => [a, c.r, c.g, c.b]
  | bgra => [c.b, c.g, c.r, a]

theorem length_bytes (o : PixelOrder) (c : Rgb) (a : UInt8) :
    (o.bytes c a).length = o.channels := by
  cases o <;> rfl

/-- **Each channel is found at its position.** -/
theorem bytes_at (o : PixelOrder) (c : Rgb) (a : UInt8) :
    (o.bytes c a).getD o.r 0 = c.r ∧ (o.bytes c a).getD o.g 0 = c.g ∧
      (o.bytes c a).getD o.b 0 = c.b ∧ ∀ i ∈ o.alpha?, (o.bytes c a).getD i 0 = a := by
  cases o <;> simp [bytes, r, g, b, alpha?]

theorem channels_le (o : PixelOrder) : o.channels ≤ 4 := by cases o <;> decide

/-- The positions of a pixel's colour are within it. -/
theorem position_lt (o : PixelOrder) :
    o.r < o.channels ∧ o.g < o.channels ∧ o.b < o.channels := by
  cases o <;> decide

/-- So is the position of its alpha. -/
theorem alpha_lt {o : PixelOrder} {i : Nat} (h : i ∈ o.alpha?) : i < o.channels := by
  revert i
  cases o <;> simp [alpha?, channels]

end PixelOrder

/-- Interleaved channels: a single gray one, or colour. -/
inductive PixelLayout
  | gray
  | colour (order : PixelOrder)
  deriving DecidableEq, Repr

namespace PixelLayout

/-- Bytes per pixel. -/
def channels : PixelLayout → Nat
  | gray => 1
  | colour o => o.channels

/-- Whether pixels carry alpha. -/
def hasAlpha : PixelLayout → Bool
  | gray => false
  | colour o => o.alpha?.isSome

theorem channels_pos (l : PixelLayout) : 0 < l.channels := by
  rcases l with _ | o
  · decide
  · cases o <;> decide

/-- The colour of the pixel whose bytes start at `o`; gray stands for three equal
channels. -/
def read (l : PixelLayout) (p : Plane) (o : Nat) : Checked Rgb :=
  match l with
  | gray => do
    let y ← p.read o
    return ⟨y, y, y⟩
  | colour k => do
    let r ← p.read (← size (o + k.r))
    let g ← p.read (← size (o + k.g))
    let b ← p.read (← size (o + k.b))
    return ⟨r, g, b⟩

/-- The alpha of the pixel whose bytes start at `o`; `0` where there is none. -/
def readAlpha (l : PixelLayout) (p : Plane) (o : Nat) : Checked UInt8 :=
  match l with
  | gray => return 0
  | colour k =>
    match k.alpha? with
    | some i => do p.read (← size (o + i))
    | none => return 0

/-- The colour of the pixel at byte `o`. -/
def colourAt (l : PixelLayout) (p : Plane) (o : Nat) : Rgb :=
  match l with
  | gray => ⟨p.byte o, p.byte o, p.byte o⟩
  | colour k => ⟨p.byte (o + k.r), p.byte (o + k.g), p.byte (o + k.b)⟩

/-- The alpha of the pixel at byte `o`; `0` where there is none. -/
def alphaAt (l : PixelLayout) (p : Plane) (o : Nat) : UInt8 :=
  match l with
  | gray => 0
  | colour k => (k.alpha?.map fun i => p.byte (o + i)).getD 0

theorem channels_le (l : PixelLayout) : l.channels ≤ 4 := by
  rcases l with _ | k
  · decide
  · exact k.channels_le

/-- A pixel within a plane is read. -/
theorem read_eq_ok {l : PixelLayout} {p : Plane} {o : Nat} (h : o + l.channels ≤ p.size)
    (hw : o + l.channels ≤ 0x10000000000000000) : l.read p o = .ok (l.colourAt p o) := by
  rcases l with _ | k
  · exact bind_eq_of_ok (Plane.read_eq_ok h)
  · obtain ⟨hr, hg, hb⟩ := k.position_lt
    simp only [channels] at h hw
    simp only [read]
    rw [bind_eq_of_ok (size_eq_ok (by omega)), bind_eq_of_ok (Plane.read_eq_ok (by omega)),
      bind_eq_of_ok (size_eq_ok (by omega)), bind_eq_of_ok (Plane.read_eq_ok (by omega)),
      bind_eq_of_ok (size_eq_ok (by omega)), bind_eq_of_ok (Plane.read_eq_ok (by omega))]
    rfl

/-- The alpha of a pixel within a plane is read. -/
theorem readAlpha_eq_ok {l : PixelLayout} {p : Plane} {o : Nat} (h : o + l.channels ≤ p.size)
    (hw : o + l.channels ≤ 0x10000000000000000) : l.readAlpha p o = .ok (l.alphaAt p o) := by
  rcases l with _ | k
  · rfl
  · simp only [channels] at h hw
    cases ha : k.alpha? with
    | none => simp only [readAlpha, alphaAt, ha]; rfl
    | some i =>
      have := PixelOrder.alpha_lt ha
      simp only [readAlpha, alphaAt, ha]
      rw [bind_eq_of_ok (size_eq_ok (by omega)), Plane.read_eq_ok (by omega)]
      rfl

end PixelLayout

/-- What the bytes of a frame stand for. -/
inductive Family
  | yuvPlanar | yuvPacked | rgbPacked | gray
  deriving DecidableEq, Repr

/-- How the bytes of a frame are laid out. -/
inductive Layout
  | planar (layout : PlanarLayout)
  | packed (order : MacroOrder)
  | pixels (layout : PixelLayout)
  deriving DecidableEq, Repr

namespace Layout

/-- What the bytes stand for; a single channel is gray, whatever its range. -/
def family : Layout → Family
  | planar .luma => .gray
  | planar (.chroma _ _) => .yuvPlanar
  | packed _ => .yuvPacked
  | pixels .gray => .gray
  | pixels (.colour _) => .rgbPacked

/-- The block of pixels that shares a chroma sample, across and down. -/
def block : Layout → Nat × Nat
  | planar (.chroma s _) => (s.across, s.down)
  | packed _ => (2, 1)
  | planar .luma | pixels _ => (1, 1)

/-- Whether pixels carry alpha. -/
def hasAlpha : Layout → Bool
  | pixels l => l.hasAlpha
  | planar _ | packed _ => false

/-- Bytes per pixel of the first plane. -/
def bytesPerPixel : Layout → Nat
  | planar _ => 1
  | packed _ => 2
  | pixels l => l.channels

end Layout

end FrameConvert
