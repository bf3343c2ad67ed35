/-
# The colour of a pixel, sample by sample

A YUV frame has one luma sample for the pixel in column `x` of row `y`, and one sample of each
chroma channel for the block that the pixel is in:

| layout | luma of `(x, y)` | chroma of `(x, y)` |
| --- | --- | --- |
| planar | byte `y w + x` of the first plane | sample `(x / across, y / down)` of its plane |
| packed | the first or the second of the macro pixel `(x / 2, y)` | that of the macro pixel |
| luma alone | byte `y w + x` | `128` |

`view_yuv` says that this is what the frame shows there.  The other side is what a layout of pixels
has for a luma sample and a chroma pair (`PixelLayout.Renders`): red, green and blue by the formula,
each rounded to nearest and clamped to a byte, at their positions, and `0` for alpha; in gray, luma
alone.  Neither tables nor registers appear in it.
-/

import FrameConvert.Proofs.Chroma
import FrameConvert.Proofs.Precedence

namespace FrameConvert

namespace FixedPoint

/-- A number in units of `2 ^ -16`, rounded to nearest and clamped to a byte. -/
def rounded (n : Int) : Int := max 0 (min ((n + 32768) / 65536) 255)

theorem toNat_saturate_whole (n : Int) :
    ((saturate (whole (n + half))).toNat : Int) = rounded n := by
  rw [toNat_saturate, whole_eq]
  rfl

end FixedPoint

open FixedPoint

namespace Format

/-- Where the luma of pixel `(x, y)` is in the first plane. -/
def lumaPlace (f : Format) (w x y : Nat) : Nat :=
  match f.layout with
  | .packed o => 4 * (y * (w / 2) + x / 2) + if x % 2 = 0 then o.y₀ else o.y₁
  | .planar _ | .pixels _ => y * w + x

/-- The number of the block that pixel `(x, y)` is in. -/
def blockAt (f : Format) (w x y : Nat) : Nat :=
  y / f.chromaBlock.2 * (w / f.chromaBlock.1) + x / f.chromaBlock.1

end Format

/-- Pixel `n` of a plane has the colour of a luma sample and a chroma pair, and no alpha. -/
def PixelLayout.Renders (l : PixelLayout) (p : Plane) (n : Nat) (y u v : UInt8) : Prop :=
  let luma : Int := 71392 * ((y.toNat : Int) - 16)
  let cb : Int := (u.toNat : Int) - 128
  let cr : Int := (v.toNat : Int) - 128
  match l with
  | gray => ((p.byte n).toNat : Int) = rounded luma
  | colour k =>
    ((p.byte (n * k.channels + k.r)).toNat : Int) = rounded (luma + 98007 * cr) ∧
      ((p.byte (n * k.channels + k.g)).toNat : Int) = rounded (luma - 24057 * cb - 51842 * cr) ∧
      ((p.byte (n * k.channels + k.b)).toNat : Int) = rounded (luma + 123872 * cb) ∧
      ∀ i ∈ k.alpha?, p.byte (n * k.channels + i) = 0

variable {a b : Format} {l : PixelLayout} {w h : Nat} {x y : Nat}

/-- **What a YUV frame shows at a pixel:** its own luma, and the chroma of its block. -/
theorem view_yuv (ha : a.isYuv = true) (hf : Fit a w h) (z : FrameBytes) (y : Nat) (hx : x < w) :
    a.layout.view w z (y * w + x) = .yuv (z 0 (a.lumaPlace w x y))
      (a.layout.sample .u z (a.blockAt w x y)) (a.layout.sample .v z (a.blockAt w x y)) := by
  cases hl : a.layout with
  | planar p =>
    cases p with
    | luma => simp only [Layout.view, Layout.sample, Format.lumaPlace, hl]
    | chroma s o =>
      simp only [Layout.view, Layout.sample, Format.lumaPlace, Format.blockAt,
        Format.chromaBlock_eq_layout, Layout.block, hl, s.cell_index y hx, Chroma.plane]
  | packed o =>
    obtain ⟨v, rfl⟩ := hf.even hl
    -- the rows are of whole macro pixels
    have hrow : y * (2 * v) = 2 * (y * v) := Nat.mul_left_comm y 2 v
    have hdiv : (y * (2 * v) + x) / 2 = y * v + x / 2 := by omega
    have hmod : (y * (2 * v) + x) % 2 = x % 2 := by omega
    simp only [Layout.view, Layout.sample, Format.lumaPlace, Format.blockAt,
      Format.chromaBlock_eq_layout, Layout.block, hl, hdiv, hmod,
      Nat.mul_div_cancel_left v two_pos, Nat.div_one, Chroma.position]
  | pixels l =>
    have hrgb := isRgb_view ha w z 0
    rw [hl] at hrgb
    cases hrgb

/-- **The bytes that a layout has for a YUV pixel** are those of the formula. -/
theorem renders_of_bytes {p : Plane} {n : Nat} {y u v : UInt8}
    (hp : ∀ i < l.channels, p.byte (n * l.channels + i) = (l.bytesFor (.yuv y u v)).getD i 0) :
    l.Renders p n y u v := by
  cases l with
  | gray =>
    have h0 := hp 0 (by decide)
    rw [PixelLayout.channels, Nat.mul_one, Nat.add_zero] at h0
    rw [PixelLayout.Renders, h0]
    exact toNat_saturate_whole _
  | colour k =>
    obtain ⟨hr, hg, hb⟩ := k.position_lt
    obtain ⟨hbr, hbg, hbb, hba⟩ := k.bytes_at (rgbOf y u v) 0
    change ∀ i < k.channels, p.byte (n * k.channels + i) = (k.bytes (rgbOf y u v) 0).getD i 0 at hp
    unfold PixelLayout.Renders
    dsimp only
    refine ⟨?_, ?_, ?_, fun i hi => ?_⟩
    · rw [hp _ hr, hbr]
      exact toNat_saturate_whole _
    · rw [hp _ hg, hbg]
      exact toNat_saturate_whole _
    · rw [hp _ hb, hbb]
      exact toNat_saturate_whole _
    · rw [hp _ (PixelOrder.alpha_lt hi), hba i hi]

/-- Everything converts to pixels. -/
theorem isSome_portable?_pixels (a : Format) (hb : b.layout = .pixels l) :
    (Method.portable? a b).isSome = true := by
  refine Method.isSome_portable?_unless (fun o ho => ?_) fun o _ => ?_
  · rw [hb] at ho
    cases ho
  · rintro rfl
    cases hb

/-- Frames that exist in some format exist in pixels. -/
theorem Fit.pixels (hf : Fit a w h) (hb : b.layout = .pixels l) : Fit b w h := by
  obtain ⟨hw, hh, hsmall, -⟩ := hf
  have hblock : b.chromaBlock = (1, 1) := by rw [Format.chromaBlock_eq_layout, hb, Layout.block]
  rw [Fit, hblock]
  exact ⟨hw, hh, hsmall, one_dvd w, one_dvd h⟩

namespace Engine

/-- **YUV becomes colour by one formula, at the samples of the pixel.**  Whatever the mask, a YUV
frame goes through into every format of pixels, colour or gray; and each pixel there is rendered
from its own luma and the chroma of its block. -/
theorem pixels_follow_formula (m : Mask) {w h : UInt32} {src dst : List Plane}
    (ha : a.isYuv = true) (hb : b.layout = .pixels l) (hfit : Fit a w.toNat h.toNat)
    (hs : Holds a w.toNat h.toNat src) (hd : Holds b w.toNat h.toNat dst) :
    ∃ out, (build m).convert a b w.toNat h.toNat src dst = ⟨out, none⟩ ∧
      ∀ x < w.toNat, ∀ y < h.toNat, l.Renders (planeAt out 0) (y * w.toNat + x)
        (bytesOf src 0 (a.lumaPlace w.toNat x y))
        (a.layout.sample .u (bytesOf src) (a.blockAt w.toNat x y))
        (a.layout.sample .v (bytesOf src) (a.blockAt w.toNat x y)) := by
  have hsupports : (build m).supports a b = true :=
    (supports_build m a b).trans (isSome_portable?_pixels a hb)
  obtain ⟨out, hout, ho⟩ := convert_of_valid hsupports
    ⟨w.toNat_lt, h.toNat_lt, hfit, hfit.pixels hb, hs, hd⟩
  refine ⟨out, hout, fun x hx y hy => renders_of_bytes fun i hi => ?_⟩
  have hplace : (y * w.toNat + x) * l.channels + i < b.planeSize w.toNat h.toNat 0 := by
    rw [Format.planeSize_zero_pixels hb, Nat.mul_comm (w.toNat * h.toNat)]
    exact index_lt hi (index_lt hx hy)
  rw [ho.byte hd b.planeCount_pos hplace, hb, Layout.translated, draw_pixels l w.toNat _ _ hi,
    view_yuv ha hfit (bytesOf src) y hx]

/-- Two pixels of `UYVY` side by side, luma `16` and `235` and chroma `90` and `240`, in `ARGB32`:
alpha, red, green and blue of each. -/
theorem colours_of_macro_pixel :
    ∃ out, (build .detected).convert .uyvy .argb32 2 1 [#[90, 16, 240, 235]]
        [.replicate 8 7] = ⟨out, none⟩ ∧
      [0, 1, 2, 3, 4, 5, 6, 7].map (planeAt out 0).byte = [0, 167, 0, 0, 0, 255, 164, 167] := by
  have hs : Holds .uyvy 2 1 [#[90, 16, 240, 235]] := by decide
  have hd : Holds .argb32 2 1 [.replicate 8 7] := by decide
  obtain ⟨out, hout, hrenders⟩ := pixels_follow_formula .detected (w := 2) (h := 1) rfl rfl
    (by decide) hs hd
  refine ⟨out, hout, ?_⟩
  obtain ⟨hr₀, hg₀, hb₀, hα₀⟩ := hrenders 0 (by decide) 0 (by decide)
  obtain ⟨hr₁, hg₁, hb₁, hα₁⟩ := hrenders 1 (by decide) 0 (by decide)
  have hbyte : ∀ {k : Nat} {v : Int} {c : UInt8},
      (((planeAt out 0).byte k).toNat : Int) = v → v = c.toNat → (planeAt out 0).byte k = c :=
    fun hk hv => UInt8.toNat_inj.1 (Int.ofNat.inj (hk.trans hv))
  have h0 : (planeAt out 0).byte 0 = 0 := hα₀ 0 rfl
  have h1 : (planeAt out 0).byte 1 = 167 := hbyte hr₀ (by decide)
  have h2 : (planeAt out 0).byte 2 = 0 := hbyte hg₀ (by decide)
  have h3 : (planeAt out 0).byte 3 = 0 := hbyte hb₀ (by decide)
  have h4 : (planeAt out 0).byte 4 = 0 := hα₁ 0 rfl
  have h5 : (planeAt out 0).byte 5 = 255 := hbyte hr₁ (by decide)
  have h6 : (planeAt out 0).byte 6 = 164 := hbyte hg₁ (by decide)
  have h7 : (planeAt out 0).byte 7 = 167 := hbyte hb₁ (by decide)
  simp only [List.map_cons, List.map_nil, h0, h1, h2, h3, h4, h5, h6, h7]

end Engine
end FrameConvert
