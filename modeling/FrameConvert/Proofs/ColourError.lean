/-
# What colours lose on the way through luma and chroma

A colour that goes to luma and chroma of its own and back is not quite the same.  The two matrices
are not inverse to each other: full range is stretched over limited range by a little less than the
way back takes for granted.  What comes back of a colour, before its own rounding and clamp, is

| channel | by the matrices | and by the roundings of luma and chroma at most |
| --- | --- | ---: |
| red | `0.93656 R - 0.00082 G - 0.00017 B` | `1.2924` |
| green | `-0.01329 R + 0.94693 G + 0.00192 B` | `1.1237` |
| blue | `-0.00043 R - 0.00082 G + 0.93681 B` | `1.4897` |

The roundings reach the channels by the coefficients of the way back, half a unit for each.
Together with the last rounding this is a loss of `18` at most and a gain of `2` at most in every
channel (`restored_near`).  The clamp only brings a channel nearer to where it was, because that is
a byte (`rounded_near`).  There are colours that lose `18`.
-/

import FrameConvert.Proofs.SampleFormula
import FrameConvert.Proofs.Hub
import FrameConvert.Proofs.Split
import FrameConvert.Demo.Picture
import Mathlib.Tactic.LinearCombination

namespace FrameConvert

/-- A byte has lost `18` at most and gained `2` at most. -/
def Near (before after : UInt8) : Prop :=
  -18 ≤ (after.toNat : Int) - before.toNat ∧ (after.toNat : Int) - before.toNat ≤ 2

namespace FixedPoint

/-- The colour that comes back of the luma and chroma of a colour. -/
def restored (c : Rgb) : Rgb := rgbOf (lumaOf c) (uOf c) (vOf c)

/-- Rounding to whole units is off by half a unit at most. -/
theorem exists_remainder (n : Int) :
    ∃ e, 65536 * ((n + 32768) / 65536) = n + e ∧ -32768 ≤ e ∧ e ≤ 32768 :=
  ⟨65536 * ((n + 32768) / 65536) - n, by omega, by omega, by omega⟩

/-- **Luma, as the form that is rounded** and a remainder. -/
theorem luma_remainder (c : Rgb) : ∃ e, 65536 * (unclampedLuma c - 16) =
    16829 * c.r.toNat + 33039 * c.g.toNat + 6416 * c.b.toNat + e ∧ -32768 ≤ e ∧ e ≤ 32768 := by
  rw [unclampedLuma, Int.add_sub_cancel]
  exact exists_remainder _

/-- U likewise. -/
theorem u_remainder (c : Rgb) : ∃ e, 65536 * (unclampedU c - 128) =
    -9714 * c.r.toNat - 19070 * c.g.toNat + 28784 * c.b.toNat + e ∧ -32768 ≤ e ∧ e ≤ 32768 := by
  rw [unclampedU, Int.add_sub_cancel]
  exact exists_remainder _

/-- V likewise. -/
theorem v_remainder (c : Rgb) : ∃ e, 65536 * (unclampedV c - 128) =
    28784 * c.r.toNat - 24103 * c.g.toNat - 4681 * c.b.toNat + e ∧ -32768 ≤ e ∧ e ≤ 32768 := by
  rw [unclampedV, Int.add_sub_cancel]
  exact exists_remainder _

/-- **Rounding and clamping keep a number near a byte,** as near as it was to whole units. -/
theorem rounded_near {n low high : Int} (x : UInt8) (hlow : low ≤ 0) (hhigh : 0 ≤ high)
    (hn : 65536 * (x.toNat + low) ≤ n + 32768) (hn' : n + 32768 < 65536 * (x.toNat + high + 1)) :
    low ≤ rounded n - x.toNat ∧ rounded n - x.toNat ≤ high := by
  have hx := x.toNat_lt
  unfold rounded
  omega

section Channels

variable (c : Rgb)

/-- Red, from luma and V. -/
theorem red_near : Near c.r (restored c).r := by
  have hr := c.r.toNat_lt
  have hg := c.g.toNat_lt
  have hb := c.b.toNat_lt
  obtain ⟨e, hluma, he⟩ := luma_remainder c
  obtain ⟨f, hv, hf⟩ := v_remainder c
  have hback : ((restored c).r.toNat : Int) =
      rounded (71392 * (unclampedLuma c - 16) + 98007 * (unclampedV c - 128)) := by
    rw [restored, rgbOf, toNat_saturate_whole, toNat_lumaOf, toNat_vOf]
  have hform : 65536 * (71392 * (unclampedLuma c - 16) + 98007 * (unclampedV c - 128)) =
      4022489456 * c.r.toNat - 3542433 * c.g.toNat - 719695 * c.b.toNat +
        (71392 * e + 98007 * f) := by
    linear_combination 71392 * hluma + 98007 * hv
  rw [Near, hback]
  exact rounded_near c.r (by decide) (by decide) (by omega) (by omega)

/-- Green, from luma and both channels of chroma. -/
theorem green_near : Near c.g (restored c).g := by
  have hr := c.r.toNat_lt
  have hg := c.g.toNat_lt
  have hb := c.b.toNat_lt
  obtain ⟨e, hluma, he⟩ := luma_remainder c
  obtain ⟨d, hu, hd⟩ := u_remainder c
  obtain ⟨f, hv, hf⟩ := v_remainder c
  have hback : ((restored c).g.toNat : Int) = rounded (71392 * (unclampedLuma c - 16) -
      24057 * (unclampedU c - 128) - 51842 * (unclampedV c - 128)) := by
    rw [restored, rgbOf, toNat_saturate_whole, toNat_lumaOf, toNat_uOf, toNat_vOf]
  have hform : 65536 * (71392 * (unclampedLuma c - 16) - 24057 * (unclampedU c - 128) -
      51842 * (unclampedV c - 128)) =
      -57074462 * c.r.toNat + 4067035004 * c.g.toNat + 8266786 * c.b.toNat +
        (71392 * e - 24057 * d - 51842 * f) := by
    linear_combination 71392 * hluma - 24057 * hu - 51842 * hv
  rw [Near, hback]
  exact rounded_near c.g (by decide) (by decide) (by omega) (by omega)

/-- Blue, from luma and U. -/
theorem blue_near : Near c.b (restored c).b := by
  have hr := c.r.toNat_lt
  have hg := c.g.toNat_lt
  have hb := c.b.toNat_lt
  obtain ⟨e, hluma, he⟩ := luma_remainder c
  obtain ⟨d, hu, hd⟩ := u_remainder c
  have hback : ((restored c).b.toNat : Int) =
      rounded (71392 * (unclampedLuma c - 16) + 123872 * (unclampedU c - 128)) := by
    rw [restored, rgbOf, toNat_saturate_whole, toNat_lumaOf, toNat_uOf]
  have hform : 65536 * (71392 * (unclampedLuma c - 16) + 123872 * (unclampedU c - 128)) =
      -1836640 * c.r.toNat - 3518752 * c.g.toNat + 4023582720 * c.b.toNat +
        (71392 * e + 123872 * d) := by
    linear_combination 71392 * hluma + 123872 * hu
  rw [Near, hback]
  exact rounded_near c.b (by decide) (by decide) (by omega) (by omega)

/-- **A colour comes back nearly as it was.** -/
theorem restored_near :
    Near c.r (restored c).r ∧ Near c.g (restored c).g ∧ Near c.b (restored c).b :=
  ⟨red_near c, green_near c, blue_near c⟩

end Channels

/-- Colours that lose most, in red, in green and in blue. -/
example : (restored ⟨253, 247, 235⟩).r = 253 - 18 ∧ (restored ⟨230, 255, 9⟩).g = 255 - 18 ∧
    (restored ⟨0, 98, 255⟩).b = 255 - 18 := by
  decide

end FixedPoint

open FixedPoint

section Frames

variable {a : Format} {k : PixelOrder} {w h : Nat} {i : Nat}

theorem PixelOrder.lt_of_mem (hi : i ∈ [k.r, k.g, k.b]) : i < k.channels := by
  obtain ⟨hr, hg, hb⟩ := k.position_lt
  simp only [List.mem_cons, List.not_mem_nil, or_false] at hi
  rcases hi with rfl | rfl | rfl <;> assumption

/-- **The bytes of a restored colour are near those of the colour.** -/
theorem near_of_restored (hi : i ∈ [k.r, k.g, k.b]) (x : Nat → UInt8) (o : Nat) :
    Near (x (o + i))
      ((k.bytes (restored ((PixelLayout.colour k).colourIn x o)) 0).getD i 0) := by
  obtain ⟨hr, hg, hb, -⟩ := k.bytes_at (restored ((PixelLayout.colour k).colourIn x o)) 0
  obtain ⟨hred, hgreen, hblue⟩ := restored_near ((PixelLayout.colour k).colourIn x o)
  simp only [List.mem_cons, List.not_mem_nil, or_false] at hi
  rcases hi with rfl | rfl | rfl
  · rw [hr]
    exact hred
  · rw [hg]
    exact hgreen
  · rw [hb]
    exact hblue

/-- With full chroma every pixel has luma and chroma of its own. -/
theorem view_draw_own (hfit : Fit .yuv444p w h) (px : Nat → Pixel) (n : Nat) :
    Format.yuv444p.layout.view w (Format.yuv444p.layout.draw w px) n =
      .yuv (px n).luma (px n).u (px n).v := by
  have hcontent : Format.yuv444p.content = .chroma .s444 := rfl
  rw [view_draw hfit, hcontent, Content.kept, chromaOf_s444, chromaOf_s444,
    Subsampling.cell_s444]

/-- **By way of full chroma a pixel gets the colour that is restored of its own.** -/
theorem translated_back (ha : a.layout = .pixels (.colour k)) (hfit : Fit .yuv444p w h)
    (x : FrameBytes) (n : Nat) (hi : i < k.channels) :
    Layout.translated Format.yuv444p.layout a.layout w
        (Layout.translated a.layout Format.yuv444p.layout w x) 0 (n * k.channels + i) =
      (k.bytes (restored ((PixelLayout.colour k).colourIn (x 0) (n * k.channels))) 0).getD i 0 := by
  rw [Layout.translated, Layout.translated, ha]
  refine (draw_pixels (.colour k) w _ n hi).trans ?_
  rw [view_draw_own hfit]
  rfl

/-- **The bytes of colours that have been there and back** are near those that they were. -/
theorem Carries.near (ha : a.layout = .pixels (.colour k)) (hfit : Fit .yuv444p w h)
    {src out : List Plane} (hout : Carries a w h (Layout.translated Format.yuv444p.layout a.layout w
      (Layout.translated a.layout Format.yuv444p.layout w (bytesOf src))) out)
    {n : Nat} (hn : n < w * h) (hi : i ∈ [k.r, k.g, k.b]) :
    Near ((planeAt src 0).byte (n * k.channels + i))
      ((planeAt out 0).byte (n * k.channels + i)) := by
  have hlt : n * k.channels + i < a.planeSize w h 0 := by
    rw [Format.planeSize_zero_pixels ha, Nat.mul_comm (w * h)]
    exact index_lt (PixelOrder.lt_of_mem hi) hn
  rw [hout.byte 0 a.planeCount_pos _ hlt,
    translated_back ha hfit (bytesOf src) n (PixelOrder.lt_of_mem hi)]
  exact near_of_restored hi (bytesOf src 0) (n * k.channels)

end Frames

namespace Demo

/-- A greatest value is no greater than a bound for all. -/
theorem foldl_max_le {f : Nat → Nat} {bound : Nat} {l : List Nat} (hl : ∀ i ∈ l, f i ≤ bound) :
    ∀ {m}, m ≤ bound → l.foldl (fun m i => max m (f i)) m ≤ bound := by
  induction l with
  | nil => exact id
  | cons i l ih =>
    intro m hm
    have hi : f i ≤ bound := hl i List.mem_cons_self
    exact ih (fun j hj => hl j (List.mem_cons_of_mem i hj)) (max_le hm hi)

theorem distance_of_near {before after : UInt8} (hn : Near before after) :
    distance before after ≤ 18 := by
  unfold Near at hn
  unfold distance
  omega

theorem maxDivergence_eq_ok (p q : Plane) {channels : Nat} (hc : channels ≠ 0) :
    maxDivergence p q channels = .ok ((List.range channels).map fun c =>
      (List.range (min (p.size / channels) (q.size / channels))).foldl (fun m i =>
        max m (distance (p.byte (i * channels + c)) (q.byte (i * channels + c)))) 0) := by
  rw [maxDivergence, bind_eq_of_ok (quotient_eq_ok hc), bind_eq_of_ok (quotient_eq_ok hc)]
  rfl

/-- **Pictures are as far apart in a channel as their pixels at most.** -/
theorem exists_maxDivergence (p q : Plane) {channels : Nat} (hc : channels ≠ 0) :
    ∃ d, maxDivergence p q channels = .ok d ∧ d.length = channels ∧
      ∀ c < channels, ∀ bound,
        (∀ n < min (p.size / channels) (q.size / channels),
          distance (p.byte (n * channels + c)) (q.byte (n * channels + c)) ≤ bound) →
        d.getD c 0 ≤ bound := by
  refine ⟨_, maxDivergence_eq_ok p q hc, ?_, fun c hcc bound hbound => ?_⟩
  · rw [List.length_map, List.length_range]
  · rw [List.getD_eq_getElem?_getD, List.getElem?_map, List.getElem?_range hcc]
    exact foldl_max_le (fun n hn => hbound n (List.mem_range.1 hn)) (Nat.zero_le bound)

/-- The first pixels of two planes likewise. -/
theorem exists_divergence_of_fronts (p q : Plane) {channels : Nat} (hc : 0 < channels)
    (count : Nat) :
    ∃ d, maxDivergence (p.extract 0 (count * channels)) (q.extract 0 (count * channels))
        channels = .ok d ∧ d.length = channels ∧
      ∀ c < channels, ∀ bound,
        (∀ n < count,
          distance (p.byte (n * channels + c)) (q.byte (n * channels + c)) ≤ bound) →
        d.getD c 0 ≤ bound := by
  obtain ⟨d, hok, hlength, hmax⟩ := exists_maxDivergence (p.extract 0 (count * channels))
    (q.extract 0 (count * channels)) hc.ne'
  refine ⟨d, hok, hlength, fun c hcc bound hbound => hmax c hcc bound fun n hn => ?_⟩
  have hn : n < count := by
    have hfront : (p.extract 0 (count * channels)).size ≤ channels * count := by
      rw [Array.size_extract, Nat.mul_comm channels]
      omega
    exact lt_of_lt_of_le (Nat.lt_min.1 hn).1 (Nat.div_le_of_le_mul hfront)
  have hlt : n * channels + c < count * channels := by
    rw [Nat.mul_comm count]
    exact index_lt hcc hn
  rw [Plane.byte_extract (by omega), Plane.byte_extract (by omega), Nat.zero_add]
  exact hbound n hn

end Demo

namespace Engine

variable {a : Format} {k : PixelOrder}

/-- **Colours come back from YUV444P nearly as they were.**  Whatever the mask, a frame of colours
goes into `YUV444P` and back, and in every channel of colour of every pixel it has lost `18` at most
and gained `2` at most.  So `18` is the most that the divergence of the two pictures can be in these
channels, which in `RGB24` are all. -/
theorem colours_come_back_near (m : Mask) {w h : UInt32} {src mid dst : List Plane}
    (ha : a.layout = .pixels (.colour k)) (hfit : Fit a w.toNat h.toNat)
    (hs : Holds a w.toNat h.toNat src) (hm : Holds .yuv444p w.toNat h.toNat mid)
    (hd : Holds a w.toNat h.toNat dst) :
    ∃ hub out, (build m).convert a .yuv444p w.toNat h.toNat src mid = ⟨hub, none⟩ ∧
      (build m).convert .yuv444p a w.toNat h.toNat hub dst = ⟨out, none⟩ ∧
      (∀ n < w.toNat * h.toNat, ∀ i ∈ [k.r, k.g, k.b],
        Near ((planeAt src 0).byte (n * k.channels + i))
          ((planeAt out 0).byte (n * k.channels + i))) ∧
      ∃ d, Demo.maxDivergence ((planeAt src 0).extract 0 (w.toNat * h.toNat * k.channels))
          ((planeAt out 0).extract 0 (w.toNat * h.toNat * k.channels)) k.channels = .ok d ∧
        d.length = k.channels ∧ ∀ i ∈ [k.r, k.g, k.b], d.getD i 0 ≤ 18 := by
  have hw := w.toNat_lt
  have hh := h.toNat_lt
  have hfm := hfit.yuv444p
  obtain ⟨hub, hhub, ohub⟩ := convert_of_valid (supports_to_yuv444p m a)
    ⟨hw, hh, hfit, hfm, hs, hm⟩
  obtain ⟨out, hout, oout⟩ := convert_of_valid (supports_from_yuv444p m a)
    ⟨hw, hh, hfm, hfit, ohub.holds hm, hd⟩
  -- the frame in between is read only where it was drawn
  have hback : Carries a w.toNat h.toNat (Layout.translated Format.yuv444p.layout a.layout w.toNat
      (Layout.translated a.layout Format.yuv444p.layout w.toNat (bytesOf src))) out :=
    (oout.carries hd).congr fun i hi j hj =>
      translated_congr hfm hfit (fun k hk l hl => ohub.byte hm hk hl) hi hj
  have hnear : ∀ n < w.toNat * h.toNat, ∀ i ∈ [k.r, k.g, k.b],
      Near ((planeAt src 0).byte (n * k.channels + i))
        ((planeAt out 0).byte (n * k.channels + i)) := fun n hn i hi => hback.near ha hfm hn hi
  obtain ⟨d, hok, hlength, hmax⟩ := Demo.exists_divergence_of_fronts (planeAt src 0)
    (planeAt out 0) (Nat.zero_lt_of_lt k.position_lt.1) (w.toNat * h.toNat)
  refine ⟨hub, out, hhub, hout, hnear, d, hok, hlength, fun i hi => ?_⟩
  refine hmax i (PixelOrder.lt_of_mem hi) 18 fun n hn => ?_
  exact Demo.distance_of_near (hnear n hn i hi)

/-- Three pixels of `RGB24` there and back, of which the first loses `18` of its red, the second of
its green and the third of its blue. -/
theorem three_colours_come_back :
    ∃ hub out, (build .detected).convert .rgb24 .yuv444p 3 1
        [#[253, 247, 235, 230, 255, 9, 0, 98, 255]]
        [.replicate 3 0, .replicate 3 0, .replicate 3 0] = ⟨hub, none⟩ ∧
      (build .detected).convert .yuv444p .rgb24 3 1 hub [.replicate 9 0] = ⟨out, none⟩ ∧
      ∃ d, Demo.maxDivergence #[253, 247, 235, 230, 255, 9, 0, 98, 255]
          ((planeAt out 0).extract 0 9) 3 = .ok d ∧
        d.length = 3 ∧ ∀ i ∈ [0, 1, 2], d.getD i 0 ≤ 18 := by
  have hs : Holds .rgb24 3 1 [#[253, 247, 235, 230, 255, 9, 0, 98, 255]] := by decide
  have hm : Holds .yuv444p 3 1 [.replicate 3 0, .replicate 3 0, .replicate 3 0] := by decide
  have hd : Holds .rgb24 3 1 [.replicate 9 0] := by decide
  obtain ⟨hub, out, hhub, hout, -, d, hok, hlength, hmax⟩ :=
    colours_come_back_near .detected (w := 3) (h := 1) rfl (by decide) hs hm hd
  exact ⟨hub, out, hhub, hout, d, hok, hlength, hmax⟩

end Engine
end FrameConvert
