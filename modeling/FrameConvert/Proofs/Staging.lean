/-
# Chroma in two stages

A frame may come to a coarse grid by way of a grid in between.  Where the blocks of that grid make
up those of the coarse one, both ways take a mean over the same pixels of a block:

| way | a sample is | rounded down |
| --- | --- | --- |
| directly | the sum over the block, by the size of the block | once |
| in two stages | the sum of the means of its `n` parts, by `n` | `n` times, and once more |

A part loses less than one by rounding, so `n` of them less than `n`, which by `n` is less than one
again: the second sample is the first or the one below (`mean_of_means`).  In the sums every pixel
of the block stands for the part that it is in, so that a part is counted as often as it has pixels
(`sum_part_of_block`).  Luma passes both ways as it is.

So much is said here of every YUV frame (`exists_staged`).  The grid in between may lie in planes or
in macro pixels, whose kernels differ, and halve along one axis what the second stage halves along
the same axis (`YUV411P`) or along the other (`YUV420P`, `YV12`).
-/

import FrameConvert.Proofs.Luma
import FrameConvert.Proofs.Precedence

namespace FrameConvert

open Finset

/-- **The mean of means.**  To divide every number of a sum by `m`, rounded down, and the sum by how
many they are, loses at most one against dividing once. -/
theorem mean_of_means {ι : Type} (parts : Finset ι) (f : ι → Nat) {m : Nat} (hm : 0 < m) :
    (∑ i ∈ parts, f i / m) / parts.card ≤ (∑ i ∈ parts, f i) / (m * parts.card) ∧
      (∑ i ∈ parts, f i) / (m * parts.card) ≤ (∑ i ∈ parts, f i / m) / parts.card + 1 := by
  rw [← Nat.div_div_eq_div_mul]
  have hlow : ∑ i ∈ parts, f i / m ≤ (∑ i ∈ parts, f i) / m := by
    rw [Nat.le_div_iff_mul_le hm, sum_mul]
    exact sum_le_sum fun i _ => Nat.div_mul_le_self (f i) m
  have hhigh : (∑ i ∈ parts, f i) / m ≤ ∑ i ∈ parts, f i / m + parts.card := by
    refine Nat.div_le_of_le_mul ?_
    rw [card_eq_sum_ones, ← sum_add_distrib, mul_sum]
    exact sum_le_sum fun i _ => (Nat.lt_mul_div_succ (f i) hm).le
  refine ⟨Nat.div_le_div_right hlow, ?_⟩
  rcases Nat.eq_zero_or_pos parts.card with h0 | hpos
  · rw [h0, Nat.div_zero, Nat.div_zero]
    exact Nat.zero_le _
  · rw [← Nat.add_div_right _ hpos]
    exact Nat.div_le_div_right hhigh

namespace Subsampling

/-- The blocks of `s` make up those of `t`. -/
def Refines (s t : Subsampling) : Prop := s.across ∣ t.across ∧ s.down ∣ t.down

instance (s t : Subsampling) : Decidable (s.Refines t) := by
  unfold Refines
  infer_instance

variable {s t : Subsampling} {w : Nat}

/-- **Along an axis every pixel is counted `a` times** when each pixel of a block stands for the run
of `a` pixels that it is in. -/
theorem sum_run_of_block {a b : Nat} (ha : 0 < a) (hab : a ∣ b) (g : Nat → Nat) (x : Nat) :
    ∑ i ∈ range b, ∑ i' ∈ range a, g ((x * b + i) / a * a + i') =
      a * ∑ i ∈ range b, g (x * b + i) := by
  obtain ⟨k, rfl⟩ := hab
  have hx : x * (a * k) = a * (x * k) := by ring
  have hrun : ∀ i i', (x * k + i) * a + i' = a * (x * k) + (a * i + i') := fun i i' => by ring
  rw [hx, sum_repeated ha (fun n => ∑ i' ∈ range a, g (n * a + i')), sum_runs]
  simp only [hrun]

/-- The same of a block with rows and columns. -/
theorem sum_part_of_block (hst : s.Refines t) (g : Nat → Nat → Nat) (x y : Nat) :
    ∑ j ∈ range t.down, ∑ i ∈ range t.across, ∑ j' ∈ range s.down, ∑ i' ∈ range s.across,
        g ((x * t.across + i) / s.across * s.across + i')
          ((y * t.down + j) / s.down * s.down + j') =
      s.across * s.down * ∑ j ∈ range t.down, ∑ i ∈ range t.across,
        g (x * t.across + i) (y * t.down + j) := by
  have hrow : ∀ m, ∑ i ∈ range t.across, ∑ j' ∈ range s.down, ∑ i' ∈ range s.across,
      g ((x * t.across + i) / s.across * s.across + i') (m + j') =
        ∑ j' ∈ range s.down, s.across * ∑ i ∈ range t.across, g (x * t.across + i) (m + j') := by
    intro m
    rw [sum_comm]
    exact sum_congr rfl fun j' _ =>
      sum_run_of_block s.across_pos hst.1 (fun n => g n (m + j')) x
  simp only [hrow, ← mul_sum]
  rw [sum_run_of_block s.down_pos hst.2 (fun n => ∑ i ∈ range t.across, g (x * t.across + i) n) y,
    Nat.mul_assoc]

/-- What is left of a channel through a grid is the mean over the block of every pixel. -/
theorem smooth_index (hs : s.across ∣ w) {x : Nat} (hx : x < w) (y : Nat) (v : Nat → UInt8) :
    smooth (some s) w v (y * w + x) =
      s.mean fun i j => v ((y / s.down * s.down + j) * w + (x / s.across * s.across + i)) := by
  have hcol : x / s.across < w / s.across := Nat.div_lt_div_of_lt_of_dvd hs hx
  rw [smooth, s.cell_index y hx]
  simp only [s.under_index _ _ _ hcol]

/-- **A sample that comes through a finer grid** is the sample that comes directly, or the one
below. -/
theorem mean_smooth (hst : s.Refines t) (hw : t.across ∣ w) (v : Nat → UInt8) {h c : Nat}
    (hc : c < w / t.across * (h / t.down)) :
    (t.mean fun i j => smooth (some s) w v (t.under w c i j)).toNat ≤
        (t.mean fun i j => v (t.under w c i j)).toNat ∧
      (t.mean fun i j => v (t.under w c i j)).toNat ≤
        (t.mean fun i j => smooth (some s) w v (t.under w c i j)).toNat + 1 := by
  obtain ⟨cx, cy, hcx, hcy, rfl⟩ := exists_index hc
  have hm : 0 < s.across * s.down := Nat.mul_pos s.across_pos s.down_pos
  let sample : Nat → Nat → Nat := fun x y => (v (y * w + x)).toNat
  -- the sum over the part that a pixel of the block is in
  let part : Nat × Nat → Nat := fun k => ∑ j ∈ range s.down, ∑ i ∈ range s.across,
    sample ((cx * t.across + k.2) / s.across * s.across + i)
      ((cy * t.down + k.1) / s.down * s.down + j)
  have hcard : (range t.down ×ˢ range t.across).card = t.across * t.down := by
    rw [card_product, card_range, card_range, Nat.mul_comm]
  have hstaged : (t.mean fun i j => smooth (some s) w v
      (t.under w (cy * (w / t.across) + cx) i j)).toNat =
        (∑ k ∈ range t.down ×ˢ range t.across, part k / (s.across * s.down)) /
          (range t.down ×ˢ range t.across).card := by
    rw [toNat_mean, hcard, sum_product]
    congr 1
    refine sum_congr rfl fun j _ => sum_congr rfl fun i hi => ?_
    rw [t.under_index cy i j hcx, smooth_index (Nat.dvd_trans hst.1 hw)
      (column_lt hw hcx (mem_range.1 hi)), toNat_mean]
  have hdirect : (t.mean fun i j => v (t.under w (cy * (w / t.across) + cx) i j)).toNat =
      (∑ k ∈ range t.down ×ˢ range t.across, part k) /
        (s.across * s.down * (range t.down ×ˢ range t.across).card) := by
    rw [toNat_mean, hcard, sum_product, sum_part_of_block hst sample cx cy,
      Nat.mul_div_mul_left _ _ hm]
    simp only [t.under_index cy _ _ hcx, sample]
  rw [hstaged, hdirect]
  exact mean_of_means _ part hm

/-- The one is lost of the samples `1`, `2` over `1`, `0`. -/
example : (s420.mean fun i j => smooth (some s422) 2 (Plane.byte #[1, 2, 1, 0])
      (s420.under 2 0 i j)) = 0 ∧
    (s420.mean fun i j => Plane.byte #[1, 2, 1, 0] (s420.under 2 0 i j)) = 1 := by decide

end Subsampling

/-- A frame has the luma of another, and each sample of its chroma is that of the other or the one
below. -/
structure AtMostOneBelow (f : Format) (w h : Nat) (planes others : List Plane) : Prop where
  luma : ∀ n < w * h, f.lumaAt w (bytesOf planes) n = f.lumaAt w (bytesOf others) n
  chroma : ∀ k i,
    (f.channel w h k (bytesOf planes) i).toNat ≤ (f.channel w h k (bytesOf others) i).toNat ∧
      (f.channel w h k (bytesOf others) i).toNat ≤ (f.channel w h k (bytesOf planes) i).toNat + 1

/-- What a format keeps of a channel of YUV pixels. -/
theorem ofPixel_kept {f : Format} {px : Nat → Pixel} (hf : f.isYuv = true)
    (hpx : ∀ n, (px n).isRgb = false) (k : Chroma) (w n : Nat) :
    k.ofPixel (f.content.kept w px n) = smooth f.grid? w (fun n => k.ofPixel (px n)) n := by
  rw [kept_yuv hf hpx]
  cases k <;> rfl

namespace Format

/-- A format in between and a target, halving chroma one after the other. -/
def halvings : List (Format × Format) :=
  [.yuv422p, .yuy2, .uyvy, .yvyu].product [.yuv420p, .yv12] ++ [(.yuv422p, .yuv411p)]

/-- Nothing is in the way of halving the chroma of `YUV444P` twice, or at once. -/
theorem halvings_nested : ∀ r ∈ halvings, (r.1.grid? = some .s422 ∧
    (r.2.grid? = some .s420 ∨ r.2.grid? = some .s411)) ∧
    ((yuv444p, r.1) ∉ unconvertible ∧ r ∉ unconvertible ∧ (yuv444p, r.2) ∉ unconvertible) ∧
    r.1.chromaBlock.1 ∣ r.2.chromaBlock.1 ∧ r.1.chromaBlock.2 ∣ r.2.chromaBlock.2 := by
  decide

end Format

/-- Frames that exist in one format exist in another with smaller blocks. -/
theorem Fit.of_dvd {f g : Format} {w h : Nat} (hg : Fit g w h)
    (hx : f.chromaBlock.1 ∣ g.chromaBlock.1) (hy : f.chromaBlock.2 ∣ g.chromaBlock.2) :
    Fit f w h := by
  obtain ⟨hw, hh, hsmall, hgx, hgy⟩ := hg
  exact ⟨hw, hh, hsmall, Nat.dvd_trans hx hgx, Nat.dvd_trans hy hgy⟩

namespace Engine

variable {a b c : Format} {s t : Subsampling} {w h : Nat}

/-- **In two stages and at once:** of a YUV frame, by way of a grid whose blocks make up those of
the target. -/
theorem exists_staged (m : Mask) (ha : a.isYuv = true) (hs : b.grid? = some s)
    (ht : c.grid? = some t) (hst : s.Refines t) (hab : (build m).supports a b = true)
    (hbc : (build m).supports b c = true) (hac : (build m).supports a c = true)
    (hw : w < 0x100000000) (hh : h < 0x100000000) (hfa : Fit a w h) (hfb : Fit b w h)
    (hfc : Fit c w h) {src between dst dst' : List Plane} (hsrc : Holds a w h src)
    (hbetween : Holds b w h between) (hdst : Holds c w h dst) (hdst' : Holds c w h dst') :
    ∃ staged direct,
      (build m).journey w h a src [.fresh b between, .fresh c dst] = ⟨staged, none⟩ ∧
      (build m).convert a c w h src dst' = ⟨direct, none⟩ ∧
      AtMostOneBelow c w h staged direct := by
  have hb : b.isYuv = true := Format.isYuv_of_grid hs
  have hc : c.isYuv = true := Format.isYuv_of_grid ht
  have hready : Ready (build m) w h a [.fresh b between, .fresh c dst] :=
    ⟨⟨hab, hfb, hbetween⟩, ⟨hbc, hfc, hdst⟩, trivial⟩
  obtain ⟨staged, direct, hstaged, hdirect, hvia, hat⟩ :=
    exists_detour (b := b) hw hh hac hfa hsrc hdst' rfl hready
  refine ⟨staged, direct, hstaged, hdirect, fun n hn => ?_, fun k i => ?_⟩
  · rw [hvia.lumaAt hfc hn, hat.lumaAt hfc hn, lumaAt_draw hc hfc, luma_kept hb,
      lumaAt_translated hc hfc, Format.lumaAt]
  · have hpx := isRgb_view ha w (bytesOf src)
    have hi : (i : Nat) < w / t.across * (h / t.down) := Format.gridSize_eq ht ▸ i.isLt
    rw [hvia.channel hfc, hat.channel hfc, Format.channel, Format.channel, Layout.translated,
      sample_draw ht, sample_draw ht, chromaOf_yuv (isRgb_kept hb hpx w),
      chromaOf_yuv hpx]
    simp only [ofPixel_kept hb hpx, hs]
    exact Subsampling.mean_smooth hst (hfc.divides t ht).1 _ hi

/-- **Chroma that is halved twice loses at most one.**  A frame of `YUV444P` comes to `YUV420P` and
`YV12` by way of any format with 4:2:2, and to `YUV411P` by way of `YUV422P`, into whatever planes:
its luma is that of the direct conversion, and each sample of its chroma is that of the direct
conversion or the one below. -/
theorem halving_twice_loses_at_most_one (m : Mask) {b c : Format} (hbc : (b, c) ∈ Format.halvings)
    (w h : UInt32) (hfit : Fit c w.toNat h.toNat) {src between dst dst' : List Plane}
    (hsrc : Holds .yuv444p w.toNat h.toNat src) (hbetween : Holds b w.toNat h.toNat between)
    (hdst : Holds c w.toNat h.toNat dst) (hdst' : Holds c w.toNat h.toNat dst') :
    ∃ staged direct,
      (build m).journey w.toNat h.toNat .yuv444p src [.fresh b between, .fresh c dst] =
        ⟨staged, none⟩ ∧
      (build m).convert .yuv444p c w.toNat h.toNat src dst' = ⟨direct, none⟩ ∧
      AtMostOneBelow c w.toNat h.toNat staged direct := by
  obtain ⟨⟨hs, ht⟩, ⟨hab, hsecond, hac⟩, hx, hy⟩ := Format.halvings_nested _ hbc
  have hsupports : ∀ {f g : Format}, (f, g) ∉ Format.unconvertible →
      (build m).supports f g = true := fun hfg =>
    (supports_build m _ _).trans (Method.isSome_portable?_iff.2 hfg)
  have hpixels : Fit .yuv444p w.toNat h.toNat := hfit.of_dvd (one_dvd _) (one_dvd _)
  obtain ⟨t, ht, hst⟩ : ∃ t, c.grid? = some t ∧ Subsampling.Refines .s422 t := by
    rcases ht with ht | ht
    · exact ⟨.s420, ht, by decide⟩
    · exact ⟨.s411, ht, by decide⟩
  exact exists_staged m rfl hs ht hst (hsupports hab) (hsupports hsecond) (hsupports hac) w.toNat_lt
    h.toNat_lt hpixels (hfit.of_dvd hx hy) hfit hsrc hbetween hdst hdst'

/-- Two by two pixels by way of `UYVY` to `YV12`, and four in a row by way of `YUV422P` to
`YUV411P`. -/
theorem four_pixels_halved_twice :
    (∃ staged direct,
      (build .detected).journey 2 2 .yuv444p [#[16, 81, 145, 235], #[1, 2, 1, 0], #[240, 16, 7, 9]]
        [.fresh .uyvy [.replicate 8 0], .fresh .yv12 [.replicate 4 0, #[0], #[0]]] =
        ⟨staged, none⟩ ∧
      (build .detected).convert .yuv444p .yv12 2 2
        [#[16, 81, 145, 235], #[1, 2, 1, 0], #[240, 16, 7, 9]] [.replicate 4 9, #[9], #[9]] =
        ⟨direct, none⟩ ∧ AtMostOneBelow .yv12 2 2 staged direct) ∧
    ∃ staged direct,
      (build .detected).journey 4 1 .yuv444p [#[16, 81, 145, 235], #[1, 2, 1, 0], #[240, 16, 7, 9]]
        [.fresh .yuv422p [.replicate 4 0, #[0, 0], #[0, 0]],
          .fresh .yuv411p [.replicate 4 0, #[0], #[0]]] = ⟨staged, none⟩ ∧
      (build .detected).convert .yuv444p .yuv411p 4 1
        [#[16, 81, 145, 235], #[1, 2, 1, 0], #[240, 16, 7, 9]] [.replicate 4 9, #[9], #[9]] =
        ⟨direct, none⟩ ∧ AtMostOneBelow .yuv411p 4 1 staged direct := by
  constructor
  · exact halving_twice_loses_at_most_one .detected (b := .uyvy) (c := .yv12) (by decide) 2 2
      (by decide) (by decide) (by decide) (by decide) (by decide)
  · exact halving_twice_loses_at_most_one .detected (b := .yuv422p) (c := .yuv411p) (by decide) 4 1
      (by decide) (by decide) (by decide) (by decide) (by decide)

end Engine
end FrameConvert
