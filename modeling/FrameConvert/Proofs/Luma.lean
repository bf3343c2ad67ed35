/-
# Luma

Every YUV format keeps the luma of every pixel (`luma_kept`), and what it draws of pixels is
their luma and their chroma samples (`draw_yuv_congr`).  So luma is one projection: whatever
YUV formats a frame passes, what is left of a pixel's luma is what a direct conversion to `Y8`
leaves (`luma_along`).  Three consequences for the formats of one channel:

| way | is | because |
| --- | --- | --- |
| source, YUV, `Y8` | source, `Y8` | luma is kept in between |
| YUV, `Y8`, `GRAY8` | YUV, `GRAY8` | gray is a function of luma |
| `GRAY8`, `Y8`, YUV | `GRAY8`, YUV | gray has neutral chroma, as luma alone has |

The last is arithmetic: the weights of U and of V add up to zero (`ofPixel_gray`), so the
formula leaves exactly `128` of a gray pixel, the constant that stands for chroma beside luma.
-/

import FrameConvert.Proofs.Chroma

namespace FrameConvert

/-- The luma of pixel `n` of a frame. -/
def Format.lumaAt (f : Format) (w : Nat) (x : FrameBytes) (n : Nat) : UInt8 :=
  (f.layout.view w x n).luma

namespace FixedPoint

/-- **Gray has neutral chroma.** -/
theorem uOf_gray (y : UInt8) : uOf ⟨y, y, y⟩ = neutral := by
  have hzero : (-9714 * (y.toNat : Int) - 19070 * y.toNat + 28784 * y.toNat + half) = half := by
    omega
  unfold uOf
  rw [hzero]
  rfl

theorem vOf_gray (y : UInt8) : vOf ⟨y, y, y⟩ = neutral := by
  have hzero : (28784 * (y.toNat : Int) - 24103 * y.toNat - 4681 * y.toNat + half) = half := by
    omega
  unfold vOf
  rw [hzero]
  rfl

end FixedPoint

section Draw

variable {a b f : Format} {w h : Nat} {px py : Nat → Pixel} {x : FrameBytes}

theorem ofPixel_gray (k : Chroma) (y α : UInt8) : k.ofPixel (.rgb ⟨y, y, y⟩ α) = neutral := by
  cases k with
  | u => exact FixedPoint.uOf_gray y
  | v => exact FixedPoint.vOf_gray y

/-- Pixels of neutral chroma are drawn with neutral chroma. -/
theorem chromaOf_neutral {channel : Pixel → UInt8} (hpx : ∀ n, channel (px n) = neutral)
    (s : Subsampling) (w c : Nat) : chromaOf s w channel px c = neutral := by
  unfold chromaOf
  split
  · exact hpx _
  · simp only [hpx]
    exact s.mean_const neutral

/-- **A YUV format draws luma and chroma samples** of pixels, and nothing else. -/
theorem draw_yuv_congr (hf : f.isYuv = true) (hluma : ∀ n, (px n).luma = (py n).luma)
    (hchroma : ∀ k s c, chromaOf s w (Chroma.ofPixel k) px c = chromaOf s w k.ofPixel py c) :
    f.layout.draw w px = f.layout.draw w py := by
  have hu := hchroma .u
  have hv := hchroma .v
  simp only [Chroma.ofPixel] at hu hv
  funext i j
  cases hl : f.layout with
  | planar p =>
    cases p with
    | luma => exact hluma j
    | chroma s o =>
      simp only [Layout.draw]
      split
      · exact hluma j
      · split
        · exact hu s j
        · exact hv s j
  | packed o => simp only [Layout.draw, Layout.macroOf, hluma, hu, hv]
  | pixels l =>
    exfalso
    revert hl hf
    cases f <;> simp [Format.layout, Format.isYuv, Format.code]

/-- **A YUV format keeps luma.** -/
theorem luma_kept (hf : f.isYuv = true) (w : Nat) (px : Nat → Pixel) (n : Nat) :
    (f.content.kept w px n).luma = (px n).luma := by
  rw [content_yuv hf]
  cases f.grid? <;> rfl

/-- The luma of pixels is drawn by every YUV format. -/
theorem lumaAt_draw (hb : b.isYuv = true) (hfit : Fit b w h) (px : Nat → Pixel) (n : Nat) :
    b.lumaAt w (b.layout.draw w px) n = (px n).luma := by
  rw [Format.lumaAt, view_draw hfit, luma_kept hb]

/-- A step of the induction: one conversion to a YUV format. -/
theorem lumaAt_translated (hb : b.isYuv = true) (hfit : Fit b w h) (a : Format) (x : FrameBytes)
    (n : Nat) : b.lumaAt w (Layout.translated a.layout b.layout w x) n = a.lumaAt w x n :=
  lumaAt_draw hb hfit _ n

/-- **Luma stays along YUV formats,** however many. -/
theorem luma_along {bs : List Format} : ∀ {a x}, (∀ b ∈ bs, Fit b w h ∧ b.isYuv = true) →
    ∀ n, (bs.getLastD a).lumaAt w (along w a x bs) n = a.lumaAt w x n := by
  intro a x hbs n
  induction bs generalizing a x with
  | nil => rfl
  | cons b bs ih =>
    obtain ⟨hfit, hb⟩ := hbs b List.mem_cons_self
    rw [List.getLastD_cons, along, ih fun c hc => hbs c (List.mem_cons_of_mem b hc)]
    exact lumaAt_translated hb hfit a x n

/-- The luma of pixels is that of the frame that the planes carry. -/
theorem Carries.lumaAt {planes : List Plane} {n : Nat} (hf : Fit f w h)
    (hp : Carries f w h x planes) (hn : n < w * h) :
    f.lumaAt w (bytesOf planes) n = f.lumaAt w x n :=
  congrArg Pixel.luma (view_congr hf hp.byte hn)

/-- By way of a YUV format the same luma is drawn. -/
theorem draw_luma_kept (hb : b.isYuv = true) (w : Nat) (px : Nat → Pixel) :
    Format.y8.layout.draw w (b.content.kept w px) = Format.y8.layout.draw w px :=
  funext fun _ => funext fun j => luma_kept hb w px j

/-- The gray of a YUV pixel is that of its luma. -/
theorem Pixel.grayOfLuma_luma {p : Pixel} (hp : p.isRgb = false) :
    FixedPoint.grayOfLuma p.luma = p.gray := by
  cases p with
  | yuv y u v => rfl
  | rgb c α => cases hp

/-- By way of luma the same gray is drawn. -/
theorem draw_gray_kept (ha : a.isYuv = true) (w : Nat) (x : FrameBytes) :
    Format.gray8.layout.draw w (Format.y8.content.kept w (a.layout.view w x)) =
      Format.gray8.layout.draw w (a.layout.view w x) := by
  have hgray : ∀ n, (Format.y8.content.kept w (a.layout.view w x) n).gray =
      (a.layout.view w x n).gray := fun n => Pixel.grayOfLuma_luma (isRgb_view ha w x n)
  have hdraw : ∀ px i j, Format.gray8.layout.draw w px i j = [(px (j / 1)).gray].getD (j % 1) 0 :=
    fun _ _ _ => rfl
  funext i j
  rw [hdraw, hdraw, hgray]

/-- **What gray draws in a channel is neutral.** -/
theorem chromaOf_gray (k : Chroma) (s : Subsampling) (w : Nat) (x : FrameBytes) (c : Nat) :
    chromaOf s w k.ofPixel (Format.gray8.layout.view w x) c = neutral :=
  chromaOf_neutral (fun _ => ofPixel_gray k _ _) s w c

/-- By way of luma gray is drawn as it was. -/
theorem draw_yuv_kept (hb : b.isYuv = true) (w : Nat) (x : FrameBytes) :
    b.layout.draw w (Format.y8.content.kept w (Format.gray8.layout.view w x)) =
      b.layout.draw w (Format.gray8.layout.view w x) := by
  refine draw_yuv_congr hb (fun n => rfl) fun k s c => ?_
  rw [chromaOf_gray]
  exact chromaOf_neutral (fun n => by cases k <;> rfl) s w c

end Draw

/-- Everything converts to and from the formats of one channel. -/
theorem isSome_portable?_luma (f : Format) :
    (Method.portable? f .y8).isSome = true ∧ (Method.portable? .y8 f).isSome = true ∧
      (Method.portable? f .gray8).isSome = true ∧ (Method.portable? .gray8 f).isSome = true := by
  cases f <;> decide

/-- Frames that exist in some format exist with luma alone, and in gray. -/
theorem Fit.single {f : Format} {w h : Nat} (hf : Fit f w h) : Fit .y8 w h ∧ Fit .gray8 w h := by
  obtain ⟨hw, hh, hsmall, -⟩ := hf
  exact ⟨⟨hw, hh, hsmall, one_dvd w, one_dvd h⟩, hw, hh, hsmall, one_dvd w, one_dvd h⟩

namespace Engine

/-- **Luma is one projection, whatever the route.**  A frame of any format comes to `Y8` by way
of any YUV format as it comes there directly, and a journey of any length from one YUV format
over others leaves the luma of every pixel as it was.  By way of `Y8` a YUV frame comes to
`GRAY8` as directly, and so does a gray frame to any YUV format, where its chroma samples are
all neutral.  Everything converts to and from `Y8` and `GRAY8`. -/
theorem luma_is_one_projection (m : Mask) (w h : UInt32) :
    (∀ s g, g.isYuv = true → Fit s w.toNat h.toNat →
      (build m).Invisible w.toNat h.toNat s g .y8) ∧
    (∀ f src legs, f.isYuv = true → Fit f w.toNat h.toNat → Holds f w.toNat h.toNat src →
      (∀ leg ∈ legs, leg.target.isYuv = true) → Ready (build m) w.toNat h.toNat f legs →
        ∃ out, (build m).journey w.toNat h.toNat f src legs = ⟨out, none⟩ ∧
          ∀ n < w.toNat * h.toNat,
            ((legs.map Leg.target).getLastD f).lumaAt w.toNat (bytesOf out) n =
              f.lumaAt w.toNat (bytesOf src) n) ∧
    (∀ f, f.isYuv = true → Fit f w.toNat h.toNat →
      (build m).Invisible w.toNat h.toNat f .y8 .gray8) ∧
    (∀ g, g.isYuv = true → Fit g w.toNat h.toNat →
      (build m).Invisible w.toNat h.toNat .gray8 .y8 g ∧
        ∀ src dst, Holds .gray8 w.toNat h.toNat src → Holds g w.toNat h.toNat dst →
          ∃ out, (build m).convert .gray8 g w.toNat h.toNat src dst = ⟨out, none⟩ ∧
            ∀ k c, g.channel w.toNat h.toNat k (bytesOf out) c = neutral) ∧
    ∀ f, (build m).supports f .y8 = true ∧ (build m).supports .y8 f = true ∧
      (build m).supports f .gray8 = true ∧ (build m).supports .gray8 f = true := by
  have hw := w.toNat_lt
  have hh := h.toNat_lt
  have hsupports : ∀ f, (build m).supports f .y8 = true ∧ (build m).supports .y8 f = true ∧
      (build m).supports f .gray8 = true ∧ (build m).supports .gray8 f = true := by
    intro f
    simp only [supports_build]
    exact isSome_portable?_luma f
  refine ⟨?_, ?_, ?_, ?_, hsupports⟩
  · intro s g hg hs
    refine invisible_of_draw hw hh (hsupports s).1 hs fun x i hi j hj => ?_
    rw [draw_luma_kept hg, Layout.translated]
  · intro f src legs hf hfit hs hyuv hr
    obtain ⟨out, hout, ho⟩ := journey_of_ready hw hh hfit hs.carries hr
    refine ⟨out, hout, fun n hn => ?_⟩
    rw [ho.lumaAt (fit_last_of_ready hfit hr) hn, luma_along (targets_of_ready hfit hr hyuv)]
  · intro f hf hfit
    refine invisible_of_draw hw hh (hsupports f).2.2.1 hfit fun x i hi j hj => ?_
    rw [draw_gray_kept hf, Layout.translated]
  · intro g hg hfit
    constructor
    · refine invisible_of_draw hw hh (hsupports g).2.2.2 hfit.single.2 fun x i hi j hj => ?_
      rw [draw_yuv_kept hg, Layout.translated]
    · intro src dst hs hd
      obtain ⟨out, hout, ho⟩ := convert_of_valid (hsupports g).2.2.2
        ⟨hw, hh, hfit.single.2, hfit, hs, hd⟩
      refine ⟨out, hout, fun k c => ?_⟩
      obtain ⟨t, ht⟩ := Format.exists_grid c.isLt
      rw [(ho.carries hd).channel hfit, Format.channel, Layout.translated, sample_draw ht,
        chromaOf_gray]

/-- Two by two pixels: from `RGB24` by way of `YUV420P` to `Y8`; from `YV12` into `YUY2`, to
`UYVY` where they stand, and into `Y8`; from `YUV420P` by way of `Y8` to `GRAY8`; and from
`GRAY8` by way of `Y8` to `YVYU`, and at once. -/
theorem luma_of_four_pixels :
    (∃ via direct,
      (build .detected).journey 2 2 .rgb24 [#[1, 2, 3, 4, 5, 6, 7, 8, 9, 10, 11, 12]]
        [.fresh .yuv420p [.replicate 4 0, #[0], #[0]], .fresh .y8 [.replicate 4 0]] =
        ⟨via, none⟩ ∧
      (build .detected).convert .rgb24 .y8 2 2 [#[1, 2, 3, 4, 5, 6, 7, 8, 9, 10, 11, 12]]
        [.replicate 5 9] = ⟨direct, none⟩ ∧ SameFrame .y8 2 2 via direct) ∧
    (∃ out,
      (build .detected).journey 2 2 .yv12 [#[16, 81, 145, 235], #[240], #[90]]
        [.fresh .yuy2 [.replicate 8 0], .inPlace .uyvy, .fresh .y8 [.replicate 4 0]] =
        ⟨out, none⟩ ∧
      ∀ n < 2 * 2, Format.y8.lumaAt 2 (bytesOf out) n =
        Format.yv12.lumaAt 2 (bytesOf [#[16, 81, 145, 235], #[240], #[90]]) n) ∧
    (∃ via direct,
      (build .detected).journey 2 2 .yuv420p [#[16, 81, 145, 235], #[90], #[240]]
        [.fresh .y8 [.replicate 4 0], .fresh .gray8 [.replicate 4 0]] = ⟨via, none⟩ ∧
      (build .detected).convert .yuv420p .gray8 2 2 [#[16, 81, 145, 235], #[90], #[240]]
        [.replicate 4 9] = ⟨direct, none⟩ ∧ SameFrame .gray8 2 2 via direct) ∧
    (∃ via direct,
      (build .detected).journey 2 2 .gray8 [#[0, 77, 178, 255]]
        [.fresh .y8 [.replicate 4 0], .fresh .yvyu [.replicate 8 0]] = ⟨via, none⟩ ∧
      (build .detected).convert .gray8 .yvyu 2 2 [#[0, 77, 178, 255]] [.replicate 8 9] =
        ⟨direct, none⟩ ∧ SameFrame .yvyu 2 2 via direct) ∧
    ∃ out, (build .detected).convert .gray8 .yvyu 2 2 [#[0, 77, 178, 255]] [.replicate 8 9] =
        ⟨out, none⟩ ∧ ∀ k c, Format.yvyu.channel 2 2 k (bytesOf out) c = neutral := by
  obtain ⟨hluma, hchain, hgray, hback, -⟩ := luma_is_one_projection .detected 2 2
  obtain ⟨hinvisible, hneutral⟩ := hback .yvyu rfl (by decide)
  refine ⟨?_, ?_, ?_, ?_, ?_⟩
  · exact hluma .rgb24 .yuv420p rfl (by decide) _ _ _ (by decide) (by decide) rfl
      ⟨.fresh rfl (by decide) (by decide), .fresh rfl (by decide) (by decide), trivial⟩
  · exact hchain .yv12 [#[16, 81, 145, 235], #[240], #[90]]
      [.fresh .yuy2 [.replicate 8 0], .inPlace .uyvy, .fresh .y8 [.replicate 4 0]] rfl (by decide)
      (by decide) (by simp [Leg.target, Format.isYuv, Format.code])
      ⟨.fresh rfl (by decide) (by decide), exists_lookup _ (by decide),
        .fresh rfl (by decide) (by decide), trivial⟩
  · exact hgray .yuv420p rfl (by decide) _ _ _ (by decide) (by decide) rfl
      ⟨.fresh rfl (by decide) (by decide), .fresh rfl (by decide) (by decide), trivial⟩
  · exact hinvisible _ _ _ (by decide) (by decide) rfl
      ⟨.fresh rfl (by decide) (by decide), .fresh rfl (by decide) (by decide), trivial⟩
  · exact hneutral _ _ (by decide) (by decide)

end Engine
end FrameConvert
