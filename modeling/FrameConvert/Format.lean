/-
# The catalogue of pixel formats

| format | code | layout | planes | bytes per pixel |
| --- | --- | --- | ---: | ---: |
| `YUV420P` | `1001` | planar 4:2:0, U before V | 3 | 1 |
| `YV12` | `1002` | planar 4:2:0, V before U | 3 | 1 |
| `YUV411P` | `1003` | planar 4:1:1 | 3 | 1 |
| `YUV422P` | `1004` | planar 4:2:2 | 3 | 1 |
| `YUV444P` | `1005` | planar 4:4:4 | 3 | 1 |
| `YUY2`, `UYVY`, `YVYU` | `1006` … `1008` | packed 4:2:2 | 1 | 2 |
| `Y8` | `1009` | luma alone, limited range | 1 | 1 |
| `RGB24`, `BGR24` | `2001`, `2002` | colour pixels | 1 | 3 |
| `RGBA32`, `ABGR32`, `ARGB32`, `BGRA32` | `2003` … `2006` | colour pixels with alpha | 1 | 4 |
| `GRAY8` | `2007` | gray pixels, full range | 1 | 1 |

The high digit of a code tells the YUV formats (`1`) from the RGB ones (`2`); no
two formats share a code or a name (`ofCode?_code`, `ofName?_name`).

Family, chroma block, bytes per pixel and alpha stand in tables of the formats, and
sizes of planes are computed from these.  Whoever moves a frame goes by its layout
instead, which has a geometry of its own.  `family_eq_layout`,
`chromaBlock_eq_layout`, `bytesPerPixel_eq_layout` and `hasAlpha_eq_layout` say that
the two are the same.
-/

import FrameConvert.Layout

namespace FrameConvert

/-- A pixel format. -/
inductive Format
  | yuv420p | yv12 | yuv411p | yuv422p | yuv444p
  | yuy2 | uyvy | yvyu
  | y8
  | rgb24 | bgr24
  | rgba32 | abgr32 | argb32 | bgra32
  | gray8
  deriving DecidableEq, Repr

namespace Format

/-- Every format, in the order of the codes. -/
def all : List Format :=
  [yuv420p, yv12, yuv411p, yuv422p, yuv444p, yuy2, uyvy, yvyu, y8,
    rgb24, bgr24, rgba32, abgr32, argb32, bgra32, gray8]

theorem mem_all (f : Format) : f ∈ all := by cases f <;> decide

/-- The number of a format. -/
def code : Format → Nat
  | yuv420p => 0x1001
  | yv12 => 0x1002
  | yuv411p => 0x1003
  | yuv422p => 0x1004
  | yuv444p => 0x1005
  | yuy2 => 0x1006
  | uyvy => 0x1007
  | yvyu => 0x1008
  | y8 => 0x1009
  | rgb24 => 0x2001
  | bgr24 => 0x2002
  | rgba32 => 0x2003
  | abgr32 => 0x2004
  | argb32 => 0x2005
  | bgra32 => 0x2006
  | gray8 => 0x2007

/-- The format with a number. -/
def ofCode? (c : Nat) : Option Format := all.find? (·.code == c)

theorem ofCode?_code (f : Format) : ofCode? f.code = some f := by cases f <;> rfl

/-- The name of a format. -/
def name : Format → String
  | yuv420p => "YUV420P"
  | yv12 => "YV12"
  | yuv411p => "YUV411P"
  | yuv422p => "YUV422P"
  | yuv444p => "YUV444P"
  | yuy2 => "YUY2"
  | uyvy => "UYVY"
  | yvyu => "YVYU"
  | y8 => "Y8"
  | rgb24 => "RGB24"
  | bgr24 => "BGR24"
  | rgba32 => "RGBA32"
  | abgr32 => "ABGR32"
  | argb32 => "ARGB32"
  | bgra32 => "BGRA32"
  | gray8 => "GRAY8"

/-- The format with a name. -/
def ofName? (s : String) : Option Format := all.find? (·.name == s)

theorem ofName?_name (f : Format) : ofName? f.name = some f := by
  cases f <;> decide +kernel

instance : ToString Format := ⟨name⟩

/-- How the bytes of a frame are laid out. -/
def layout : Format → Layout
  | yuv420p => .planar (.chroma .s420 .uv)
  | yv12 => .planar (.chroma .s420 .vu)
  | yuv411p => .planar (.chroma .s411 .uv)
  | yuv422p => .planar (.chroma .s422 .uv)
  | yuv444p => .planar (.chroma .s444 .uv)
  | yuy2 => .packed .yuyv
  | uyvy => .packed .uyvy
  | yvyu => .packed .yvyu
  | y8 => .planar .luma
  | rgb24 => .pixels (.colour .rgb)
  | bgr24 => .pixels (.colour .bgr)
  | rgba32 => .pixels (.colour .rgba)
  | abgr32 => .pixels (.colour .abgr)
  | argb32 => .pixels (.colour .argb)
  | bgra32 => .pixels (.colour .bgra)
  | gray8 => .pixels .gray

/-- What the bytes stand for; both one-channel formats are gray. -/
def family : Format → Family
  | yuv420p | yv12 | yuv411p | yuv422p | yuv444p => .yuvPlanar
  | yuy2 | uyvy | yvyu => .yuvPacked
  | y8 | gray8 => .gray
  | rgb24 | bgr24 | rgba32 | abgr32 | argb32 | bgra32 => .rgbPacked

/-- Limited-range luma and chroma, as the high digit of the code tells. -/
def isYuv (f : Format) : Bool := f.code / 0x1000 == 1

/-- Luma and chroma in planes of their own. -/
def isPlanar (f : Format) : Bool := f.family == .yuvPlanar

/-- How many planes a frame has. -/
def planeCount (f : Format) : Nat := if f.isPlanar then 3 else 1

/-- The block of pixels that shares a chroma sample, across and down. -/
def chromaBlock : Format → Nat × Nat
  | yuv420p | yv12 => (2, 2)
  | yuv411p => (4, 1)
  | yuv422p | yuy2 | uyvy | yvyu => (2, 1)
  | _ => (1, 1)

/-- Whether pixels carry alpha. -/
def hasAlpha : Format → Bool
  | rgba32 | abgr32 | argb32 | bgra32 => true
  | _ => false

/-- Bytes per pixel of the first plane. -/
def bytesPerPixel : Format → Nat
  | yuy2 | uyvy | yvyu => 2
  | rgb24 | bgr24 => 3
  | rgba32 | abgr32 | argb32 | bgra32 => 4
  | _ => 1

theorem family_eq_layout (f : Format) : f.family = f.layout.family := by cases f <;> rfl

/-- **The block of a format is the block of its layout.** -/
theorem chromaBlock_eq_layout (f : Format) : f.chromaBlock = f.layout.block := by cases f <;> rfl

theorem hasAlpha_eq_layout (f : Format) : f.hasAlpha = f.layout.hasAlpha := by cases f <;> rfl

/-- **The bytes per pixel of a format are those of its layout.** -/
theorem bytesPerPixel_eq_layout (f : Format) : f.bytesPerPixel = f.layout.bytesPerPixel := by
  cases f <;> rfl

theorem bytesPerPixel_pos (f : Format) : 0 < f.bytesPerPixel := by cases f <;> decide

theorem bytesPerPixel_le (f : Format) : f.bytesPerPixel ≤ 4 := by cases f <;> decide

theorem chromaBlock_pos (f : Format) : 0 < f.chromaBlock.1 ∧ 0 < f.chromaBlock.2 := by
  cases f <;> decide

end Format

end FrameConvert
