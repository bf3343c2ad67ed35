/-
# The samples of a colour, pixel by pixel

A frame of pixels, colour or gray, gives a YUV frame one luma sample for every pixel and one pair of
chroma samples for every block:

| sample | is taken of | is |
| --- | --- | --- |
| luma of `(x, y)` | pixel `(x, y)` | `unclampedLuma` of its colour |
| U of block `(cx, cy)` | the top left one, `(cx across, cy down)` | `unclampedU` of its colour |
| V of block `(cx, cy)` | the same pixel | `unclampedV` of its colour |

The other pixels of a block have no part in its chroma (`sample_of_pixels`).  The numbers are those
of the formula before its clamp, because the clamp has nothing to do: no colour leaves limited range
(`unclampedLuma_legal` and its like).  The extremes are reached, so these bounds are the best there
are: black and white are at the ends of luma, blue and yellow at those of U, red and cyan at those
of V.
-/

import FrameConvert.Proofs.ColourFormula
import FrameConvert.Proofs.Luma
import FrameConvert.Proofs.ThroughColour

namespace FrameConvert

namespace FixedPoint

/-- The luma of a colour before the clamp. -/
def unclampedLuma (c : Rgb) : Int :=
  (16829 * c.r.toNat + 33039 * c.g.toNat + 6416 * c.b.toNat + 32768) / 65536 + 16

/-- The U sample of a colour before the clamp. -/
def unclampedU (c : Rgb) : Int :=
  (-9714 * c.r.toNat - 19070 * c.g.toNat + 28784 * c.b.toNat + 32768) / 65536 + 128

/-- The V sample of a colour before the clamp. -/
def unclampedV (c : Rgb) : Int :=
  (28784 * c.r.toNat - 24103 * c.g.toNat - 4681 * c.b.toNat + 32768) / 65536 + 128

/-- **The luma of a colour is in limited range.** -/
theorem unclampedLuma_legal (c : Rgb) : 16 ≤ unclampedLuma c ∧ unclampedLuma c ≤ 235 := by
  have hr := c.r.toNat_lt
  have hg := c.g.toNat_lt
  have hb := c.b.toNat_lt
  unfold unclampedLuma
  omega

/-- **The U sample of a colour is in limited range.** -/
theorem unclampedU_legal (c : Rgb) : 16 ≤ unclampedU c ∧ unclampedU c ≤ 240 := by
  have hr := c.r.toNat_lt
  have hg := c.g.toNat_lt
  have hb := c.b.toNat_lt
  unfold unclampedU
  omega

/-- **The V sample of a colour is in limited range.** -/
theorem unclampedV_legal (c : Rgb) : 16 ≤ unclampedV c ∧ unclampedV c ≤ 240 := by
  have hr := c.r.toNat_lt
  have hg := c.g.toNat_lt
  have hb := c.b.toNat_lt
  unfold unclampedV
  omega

/-- The extremes of luma, of U and of V. -/
example : unclampedLuma ⟨0, 0, 0⟩ = 16 ∧ unclampedLuma ⟨255, 255, 255⟩ = 235 ∧
    unclampedU ⟨255, 255, 0⟩ = 16 ∧ unclampedU ⟨0, 0, 255⟩ = 240 ∧
    unclampedV ⟨0, 255, 255⟩ = 16 ∧ unclampedV ⟨255, 0, 0⟩ = 240 := by
  decide

/-- So the clamp leaves luma as it is, -/
theorem toNat_lumaOf (c : Rgb) : ((lumaOf c).toNat : Int) = unclampedLuma c := by
  have hlegal := unclampedLuma_legal c
  have hclamp : lumaOf c = saturate (unclampedLuma c) := by
    rw [lumaOf, whole_eq]
    rfl
  rw [hclamp, toNat_saturate]
  omega

/-- and U, -/
theorem toNat_uOf (c : Rgb) : ((uOf c).toNat : Int) = unclampedU c := by
  have hlegal := unclampedU_legal c
  have hclamp : uOf c = saturate (unclampedU c) := by
    rw [uOf, whole_eq]
    rfl
  rw [hclamp, toNat_saturate]
  omega

/-- and V. -/
theorem toNat_vOf (c : Rgb) : ((vOf c).toNat : Int) = unclampedV c := by
  have hlegal := unclampedV_legal c
  have hclamp : vOf c = saturate (unclampedV c) := by
    rw [vOf, whole_eq]
    rfl
  rw [hclamp, toNat_saturate]
  omega

end FixedPoint

open FixedPoint

variable {a b f : Format} {l : PixelLayout} {s t : Subsampling} {w h : Nat} {x : FrameBytes}

/-- The block of a format is that of its grid. -/
theorem Format.chromaBlock_eq (hs : f.grid? = some s) : f.chromaBlock = (s.across, s.down) := by
  cases f <;> cases hs <;> rfl

/-- Pixels are not YUV. -/
theorem Format.isYuv_pixels (ha : a.layout = .pixels l) : a.isYuv = false := by
  cases a <;> first | rfl | cases ha

/-- **A chroma sample of pixels is that of one pixel,** the top left one of its block. -/
theorem sample_of_pixels (ha : a.isYuv = false) (ht : b.grid? = some t) (k : Chroma) (w : Nat)
    (x : FrameBytes) (c : Nat) :
    b.layout.sample k (Layout.translated a.layout b.layout w x) c =
      k.ofPixel (a.layout.view w x (t.corner w c)) := by
  rw [Layout.translated, sample_draw ht, chromaOf, if_pos (by simp [isRgb_view ha])]

/-- The pixels of a frame of pixels. -/
theorem view_pixels (ha : a.layout = .pixels l) (w : Nat) (planes : List Plane) (n : Nat) :
    a.layout.view w (bytesOf planes) n = .rgb (l.colourAt (planeAt planes 0) (n * l.channels))
      (l.alphaAt (planeAt planes 0) (n * l.channels)) := by
  rw [ha, Layout.view, l.colourAt_eq, l.alphaAt_eq]
  rfl

namespace Engine

/-- **Colours become luma and chroma by one formula, at the corner of the block.**  Whatever the
mask, a frame of pixels, colour or gray, goes through into every YUV format.  The luma there is that
of the pixel's colour, and the chroma of a block that of its top left pixel's; of gray the three
channels are equal.  The path through tables, some of which are shared and one of which in each sum
is rounded, gives these integers for every colour. -/
theorem samples_follow_formula (m : Mask) {w h : UInt32} {src dst : List Plane}
    (ha : a.layout = .pixels l) (hb : b.isYuv = true) (hfit : Fit b w.toNat h.toNat)
    (hs : Holds a w.toNat h.toNat src) (hd : Holds b w.toNat h.toNat dst) :
    (∃ out, (build m).convert a b w.toNat h.toNat src dst = ⟨out, none⟩ ∧
      (∀ x < w.toNat, ∀ y < h.toNat,
        ((bytesOf out 0 (b.lumaPlace w.toNat x y)).toNat : Int) =
          unclampedLuma (l.colourAt (planeAt src 0) ((y * w.toNat + x) * l.channels))) ∧
      (b.grid?.isSome = true →
        ∀ cx < w.toNat / b.chromaBlock.1, ∀ cy < h.toNat / b.chromaBlock.2,
          let corner := cy * b.chromaBlock.2 * w.toNat + cx * b.chromaBlock.1
          let colour := l.colourAt (planeAt src 0) (corner * l.channels)
          let c := cy * (w.toNat / b.chromaBlock.1) + cx
          ((b.layout.sample .u (bytesOf out) c).toNat : Int) = unclampedU colour ∧
            ((b.layout.sample .v (bytesOf out) c).toNat : Int) = unclampedV colour)) ∧
    ∀ c : Rgb, ∃ y u v, Table.lumaOf c = .ok y ∧ Table.uOf c = .ok u ∧ Table.vOf c = .ok v ∧
      (y.toNat : Int) = unclampedLuma c ∧ (u.toNat : Int) = unclampedU c ∧
      (v.toNat : Int) = unclampedV c := by
  have hrgb : a.isYuv = false := Format.isYuv_pixels ha
  have hsupports : (build m).supports a b = true :=
    (supports_build m a b).trans (isSome_portable?_colour (.inl hrgb))
  obtain ⟨out, hout, ho⟩ := convert_of_valid hsupports
    ⟨w.toNat_lt, h.toNat_lt, hfit.pixels ha, hfit, hs, hd⟩
  have hcarries := ho.carries hd
  refine ⟨⟨out, hout, fun x hx y hy => ?_, fun hgrid cx hcx cy hcy => ?_⟩, fun c => ?_⟩
  · have hluma : bytesOf out 0 (b.lumaPlace w.toNat x y) =
        a.lumaAt w.toNat (bytesOf src) (y * w.toNat + x) := by
      rw [← lumaAt_translated hb hfit, ← hcarries.lumaAt hfit (index_lt hx hy), Format.lumaAt,
        view_yuv hb hfit _ y hx, Pixel.luma]
    rw [hluma, Format.lumaAt, view_pixels ha]
    exact toNat_lumaOf _
  · obtain ⟨t, ht⟩ := Option.isSome_iff_exists.1 hgrid
    rw [Format.chromaBlock_eq ht] at hcx hcy ⊢
    dsimp only at hcx hcy ⊢
    have hc : cy * (w.toNat / t.across) + cx < b.gridSize w.toNat h.toNat := by
      rw [Format.gridSize_eq ht]
      exact index_lt hcx hcy
    have hsample : ∀ k : Chroma, b.layout.sample k (bytesOf out) (cy * (w.toNat / t.across) + cx) =
        k.ofPixel (a.layout.view w.toNat (bytesOf src)
          (cy * t.down * w.toNat + cx * t.across)) := by
      intro k
      refine (sample_congr hfit hcarries.byte k hc).trans ?_
      rw [sample_of_pixels hrgb ht, t.corner_index cy hcx]
    rw [hsample, hsample, view_pixels ha]
    exact ⟨toNat_uOf _, toNat_vOf _⟩
  · exact ⟨_, _, _, Table.lumaOf_eq_ok c, Table.uOf_eq_ok c, Table.vOf_eq_ok c, toNat_lumaOf c,
      toNat_uOf c, toNat_vOf c⟩

/-- A red pixel of `BGRA32`, a green one beside it, a blue one below, and a gray one, in `YV12`:
luma of each, and the chroma of the red one, V before U. -/
theorem samples_of_red_corner :
    ∃ out, (build .detected).convert .bgra32 .yv12 2 2
        [#[0, 0, 255, 7, 0, 255, 0, 7, 255, 0, 0, 7, 9, 9, 9, 7]]
        [.replicate 4 0, #[0], #[0]] = ⟨out, none⟩ ∧
      [0, 1, 2, 3].map (planeAt out 0).byte = [81, 145, 41, 24] ∧
      (planeAt out 1).byte 0 = 240 ∧ (planeAt out 2).byte 0 = 90 := by
  have hs : Holds .bgra32 2 2 [#[0, 0, 255, 7, 0, 255, 0, 7, 255, 0, 0, 7, 9, 9, 9, 7]] := by
    decide
  have hd : Holds .yv12 2 2 [.replicate 4 0, #[0], #[0]] := by decide
  obtain ⟨⟨out, hout, hluma, hchroma⟩, -⟩ := samples_follow_formula .detected (w := 2) (h := 2)
    rfl rfl (by decide) hs hd
  obtain ⟨hu, hv⟩ := hchroma rfl 0 (by decide) 0 (by decide)
  have hbyte : ∀ {p : UInt8} {n : Int} {c : UInt8}, (p.toNat : Int) = n → n = c.toNat → p = c :=
    fun hp hn => UInt8.toNat_inj.1 (Int.ofNat.inj (hp.trans hn))
  have h0 : (planeAt out 0).byte 0 = 81 := hbyte (hluma 0 (by decide) 0 (by decide)) (by decide)
  have h1 : (planeAt out 0).byte 1 = 145 := hbyte (hluma 1 (by decide) 0 (by decide)) (by decide)
  have h2 : (planeAt out 0).byte 2 = 41 := hbyte (hluma 0 (by decide) 1 (by decide)) (by decide)
  have h3 : (planeAt out 0).byte 3 = 24 := hbyte (hluma 1 (by decide) 1 (by decide)) (by decide)
  refine ⟨out, hout, ?_, hbyte hv (by decide), hbyte hu (by decide)⟩
  simp only [List.map_cons, List.map_nil, h0, h1, h2, h3]

end Engine
end FrameConvert
