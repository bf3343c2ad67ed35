/-
# What a frame shows, and how it is drawn

The bytes of a frame are byte `j` of plane `i`.  A layout *shows* them as pixels, one
for each number `n = y w + x`: luma with the chroma over it, or a colour with its
alpha.  The other way, a layout *draws* pixels:

| layout | draws |
| --- | --- |
| planar | the luma of every pixel, one chroma sample for every block |
| packed | macro pixels of two lumas and the chroma of the pair |
| colour | colour and alpha of every pixel |
| gray | the gray of every pixel |

A chroma sample is the mean over its block where pixels have chroma, and that of the
top left pixel where they have colours (`chromaOf`).  `translated a b w x` is the
frame in layout `b` that draws what `x` shows in layout `a`; it is what a conversion
writes.  Only the bytes of the frame are looked at (`view_congr`) and only its pixels
drawn (`draw_congr`); what a layout shows it draws again as it was (`draw_view`).
-/

import FrameConvert.Proofs.Grid
import FrameConvert.Proofs.Frames
import FrameConvert.Transfer.Planar
import FrameConvert.Colour.FixedPoint
import Mathlib.Tactic.IntervalCases

namespace FrameConvert

/-- A pixel: luma with a chroma pair, or a colour with its alpha. -/
inductive Pixel
  | yuv (y u v : UInt8)
  | rgb (colour : Rgb) (alpha : UInt8)
  deriving DecidableEq, Repr

namespace Pixel

/-- Whether a pixel is a colour. -/
def isRgb : Pixel → Bool
  | yuv _ _ _ => false
  | rgb _ _ => true

/-- The luma of a pixel. -/
def luma : Pixel → UInt8
  | yuv y _ _ => y
  | rgb c _ => FixedPoint.lumaOf c

/-- The U sample of a pixel. -/
def u : Pixel → UInt8
  | yuv _ u _ => u
  | rgb c _ => FixedPoint.uOf c

/-- The V sample of a pixel. -/
def v : Pixel → UInt8
  | yuv _ _ v => v
  | rgb c _ => FixedPoint.vOf c

/-- The colour of a pixel. -/
def colour : Pixel → Rgb
  | yuv y u v => FixedPoint.rgbOf y u v
  | rgb c _ => c

/-- The full-range gray of a pixel. -/
def gray : Pixel → UInt8
  | yuv y _ _ => FixedPoint.grayOfLuma y
  | rgb c _ => FixedPoint.grayOf c

/-- The alpha of a pixel; `0` where it has none. -/
def alpha : Pixel → UInt8
  | yuv _ _ _ => 0
  | rgb _ a => a

end Pixel

/-- One chroma sample for a block of pixels. -/
def chromaOf (s : Subsampling) (w : Nat) (channel : Pixel → UInt8) (px : Nat → Pixel)
    (c : Nat) : UInt8 :=
  if (px (s.corner w c)).isRgb then channel (px (s.corner w c))
  else s.mean fun i j => channel (px (s.under w c i j))

/-- Byte `j` of plane `i`. -/
abbrev FrameBytes := Nat → Nat → UInt8

/-- The bytes of planes. -/
def bytesOf (planes : List Plane) : FrameBytes := fun i j => (planeAt planes i).byte j

namespace PixelLayout

/-- The colour among the bytes of a plane, at byte `o`. -/
def colourIn (l : PixelLayout) (x : Nat → UInt8) (o : Nat) : Rgb :=
  match l with
  | gray => ⟨x o, x o, x o⟩
  | colour k => ⟨x (o + k.r), x (o + k.g), x (o + k.b)⟩

/-- The alpha among the bytes of a plane, at byte `o`. -/
def alphaIn (l : PixelLayout) (x : Nat → UInt8) (o : Nat) : UInt8 :=
  match l with
  | gray => 0
  | colour k => (k.alpha?.map fun i => x (o + i)).getD 0

theorem colourAt_eq (l : PixelLayout) (p : Plane) (o : Nat) :
    l.colourAt p o = l.colourIn p.byte o := by
  cases l <;> rfl

theorem alphaAt_eq (l : PixelLayout) (p : Plane) (o : Nat) :
    l.alphaAt p o = l.alphaIn p.byte o := by
  cases l <;> rfl

/-- The colour depends on the bytes of the pixel alone, wherever they lie. -/
theorem colourIn_congr (l : PixelLayout) {x y : Nat → UInt8} {o o' : Nat}
    (h : ∀ i < l.channels, x (o + i) = y (o' + i)) : l.colourIn x o = l.colourIn y o' := by
  cases l with
  | gray =>
    have := h 0 (by decide)
    rw [Nat.add_zero, Nat.add_zero] at this
    simp only [colourIn, this]
  | colour k =>
    obtain ⟨hr, hg, hb⟩ := k.position_lt
    simp only [colourIn, h _ hr, h _ hg, h _ hb]

theorem alphaIn_congr (l : PixelLayout) {x y : Nat → UInt8} {o o' : Nat}
    (h : ∀ i < l.channels, x (o + i) = y (o' + i)) : l.alphaIn x o = l.alphaIn y o' := by
  cases l with
  | gray => rfl
  | colour k =>
    cases ha : k.alpha? with
    | none => simp only [alphaIn, ha]; rfl
    | some i =>
      simp only [alphaIn, ha, Option.map_some, Option.getD_some]
      exact h i (PixelOrder.alpha_lt ha)

/-- The bytes that a layout has for a pixel. -/
def bytesFor (l : PixelLayout) (p : Pixel) : List UInt8 :=
  match l with
  | gray => [p.gray]
  | colour k => k.bytes p.colour p.alpha

theorem length_bytesFor (l : PixelLayout) (p : Pixel) : (l.bytesFor p).length = l.channels := by
  cases l with
  | gray => rfl
  | colour k => exact k.length_bytes _ _

end PixelLayout

namespace Layout

/-- The pixels that the bytes of a frame show. -/
def view (l : Layout) (w : Nat) (x : FrameBytes) (n : Nat) : Pixel :=
  match l with
  | planar .luma => .yuv (x 0 n) neutral neutral
  | planar (.chroma s o) => .yuv (x 0 n) (x o.u (s.cell w n)) (x o.v (s.cell w n))
  | packed o =>
    .yuv (x 0 (4 * (n / 2) + if n % 2 = 0 then o.y₀ else o.y₁)) (x 0 (4 * (n / 2) + o.u))
      (x 0 (4 * (n / 2) + o.v))
  | pixels l => .rgb (l.colourIn (x 0) (n * l.channels)) (l.alphaIn (x 0) (n * l.channels))

/-- The bytes of the macro pixel `m`. -/
def macroOf (o : MacroOrder) (w : Nat) (px : Nat → Pixel) (m : Nat) : List UInt8 :=
  o.word (px (2 * m)).luma (px (2 * m + 1)).luma (chromaOf .s422 w Pixel.u px m)
    (chromaOf .s422 w Pixel.v px m)

/-- The bytes of the frame that draws pixels. -/
def draw (l : Layout) (w : Nat) (px : Nat → Pixel) : FrameBytes := fun i j =>
  match l with
  | planar .luma => (px j).luma
  | planar (.chroma s o) =>
    if i = 0 then (px j).luma else chromaOf s w (if i = o.u then Pixel.u else Pixel.v) px j
  | packed o => (macroOf o w px (j / 4)).getD (j % 4) 0
  | pixels l => (l.bytesFor (px (j / l.channels))).getD (j % l.channels) 0

/-- The frame in layout `b` that draws what `x` shows in layout `a`. -/
def translated (a b : Layout) (w : Nat) (x : FrameBytes) : FrameBytes := b.draw w (a.view w x)

end Layout

/-- YUV formats show luma and chroma, the others colours. -/
theorem isRgb_view {f : Format} {yuv : Bool} (hf : f.isYuv = yuv) (w : Nat) (x : FrameBytes)
    (n : Nat) : (f.layout.view w x n).isRgb = !yuv := by
  rw [← hf]
  cases f <;> rfl

section Locality

variable {f : Format} {w h : Nat} {x y : FrameBytes} {px py : Nat → Pixel}

/-- The bytes of macro pixels. -/
theorem macro_lt (hw : 2 ∣ w) {n i : Nat} (hn : n < w * h) (hi : i < 4) :
    4 * (n / 2) + i < w * h * 2 := by
  obtain ⟨v, rfl⟩ := hw
  rw [Nat.mul_assoc 2 v h] at hn ⊢
  omega

theorem MacroOrder.position_lt (o : MacroOrder) :
    o.y₀ < 4 ∧ o.y₁ < 4 ∧ o.u < 4 ∧ o.v < 4 := by
  cases o <;> decide

/-- **A frame shows its own bytes only.**  Bytes behind the frame and surplus planes are
not looked at. -/
theorem view_congr (hf : Fit f w h)
    (hxy : ∀ i < f.planeCount, ∀ j < f.planeSize w h i, x i j = y i j) {n : Nat}
    (hn : n < w * h) : f.layout.view w x n = f.layout.view w y n := by
  cases hl : f.layout with
  | planar p =>
    cases p with
    | luma =>
      rw [Format.planeCount_luma hl] at hxy
      have h0 := hxy 0 (by decide) n (by rwa [Format.planeSize_zero_planar hl])
      simp only [Layout.view, h0]
    | chroma s o =>
      rw [Format.planeCount_chroma hl] at hxy
      have h0 := hxy 0 (by decide) n (by rwa [Format.planeSize_zero_planar hl])
      have hc := Subsampling.cell_lt (hf.across_dvd hl) (hf.down_dvd hl) hn
      have hi : ∀ i, i = 1 ∨ i = 2 → x i (s.cell w n) = y i (s.cell w n) := fun i hi =>
        hxy i (by omega) _ (by rwa [Format.planeSize_chroma hl hi])
      have hp := o.u_v
      simp only [Layout.view, h0, hi o.u (by omega), hi o.v (by omega)]
  | packed o =>
    rw [Format.planeCount_packed hl] at hxy
    have h0 : ∀ i < 4, x 0 (4 * (n / 2) + i) = y 0 (4 * (n / 2) + i) := fun i hi =>
      hxy 0 (by decide) _ (by
        rw [Format.planeSize_zero_packed hl]
        exact macro_lt (hf.even hl) hn hi)
    obtain ⟨h₀, h₁, hu, hv⟩ := o.position_lt
    simp only [Layout.view, h0 _ hu, h0 _ hv]
    split
    · rw [h0 _ h₀]
    · rw [h0 _ h₁]
  | pixels l =>
    rw [Format.planeCount_pixels hl] at hxy
    have h0 : ∀ i < l.channels, x 0 (n * l.channels + i) = y 0 (n * l.channels + i) := fun i hi =>
      hxy 0 (by decide) _ (by
        rw [Format.planeSize_zero_pixels hl, Nat.mul_comm (w * h)]
        exact index_lt hi hn)
    simp only [Layout.view, l.colourIn_congr h0, l.alphaIn_congr h0]

/-- A chroma sample sees the pixels of its block, wherever that is. -/
theorem chromaOf_of_under {s : Subsampling} {w' c c' : Nat} (channel : Pixel → UInt8)
    (h : ∀ i < s.across, ∀ j < s.down, px (s.under w c i j) = py (s.under w' c' i j)) :
    chromaOf s w channel px c = chromaOf s w' channel py c' := by
  have h0 : px (s.corner w c) = py (s.corner w' c') := by
    simpa [Subsampling.under] using h 0 s.across_pos 0 s.down_pos
  rw [chromaOf, chromaOf, h0,
    Subsampling.mean_congr fun i hi j hj => congrArg channel (h i hi j hj)]

theorem chromaOf_congr {s : Subsampling} (channel : Pixel → UInt8) (hw : s.across ∣ w)
    (hh : s.down ∣ h) (hp : ∀ n < w * h, px n = py n) {c : Nat}
    (hc : c < w / s.across * (h / s.down)) :
    chromaOf s w channel px c = chromaOf s w channel py c :=
  chromaOf_of_under channel fun _ hi _ hj => hp _ (Subsampling.under_lt hw hh hc hi hj)

/-- **A frame draws its own pixels only.** -/
theorem draw_congr (hf : Fit f w h) (hp : ∀ n < w * h, px n = py n) {i j : Nat}
    (hi : i < f.planeCount) (hj : j < f.planeSize w h i) :
    f.layout.draw w px i j = f.layout.draw w py i j := by
  cases hl : f.layout with
  | planar p =>
    cases p with
    | luma =>
      rw [Format.planeCount_luma hl] at hi
      obtain rfl : i = 0 := by omega
      rw [Format.planeSize_zero_planar hl] at hj
      simp only [Layout.draw, hp j hj]
    | chroma s o =>
      rw [Format.planeCount_chroma hl] at hi
      by_cases h0 : i = 0
      · subst h0
        rw [Format.planeSize_zero_planar hl] at hj
        simp only [Layout.draw, if_pos, hp j hj]
      · rw [Format.planeSize_chroma hl (by omega)] at hj
        simp only [Layout.draw, if_neg h0]
        exact chromaOf_congr _ (hf.across_dvd hl) (hf.down_dvd hl) hp hj
  | packed o =>
    rw [Format.planeCount_packed hl] at hi
    obtain rfl : i = 0 := by omega
    rw [Format.planeSize_zero_packed hl] at hj
    obtain ⟨v, rfl⟩ := hf.even hl
    have hv : 2 * v * h = 2 * (v * h) := Nat.mul_assoc 2 v h
    have hm : j / 4 < 2 * v / Subsampling.across .s422 * (h / Subsampling.down .s422) := by
      simp only [Subsampling.across, Subsampling.down, Nat.div_one,
        Nat.mul_div_cancel_left v two_pos]
      omega
    simp only [Layout.draw, Layout.macroOf, hp (2 * (j / 4)) (by omega),
      hp (2 * (j / 4) + 1) (by omega)]
    rw [chromaOf_congr Pixel.u (Nat.dvd_mul_right 2 v) (Nat.one_dvd h) hp hm,
      chromaOf_congr Pixel.v (Nat.dvd_mul_right 2 v) (Nat.one_dvd h) hp hm]
  | pixels l =>
    rw [Format.planeCount_pixels hl] at hi
    obtain rfl : i = 0 := by omega
    rw [Format.planeSize_zero_pixels hl, Nat.mul_comm] at hj
    simp only [Layout.draw, hp _ (Nat.div_lt_of_lt_mul hj)]

/-- **A translated frame depends on the bytes of the frame alone.** -/
theorem translated_congr {a b : Format} (ha : Fit a w h) (hb : Fit b w h)
    (hxy : ∀ i < a.planeCount, ∀ j < a.planeSize w h i, x i j = y i j) {i j : Nat}
    (hi : i < b.planeCount) (hj : j < b.planeSize w h i) :
    Layout.translated a.layout b.layout w x i j = Layout.translated a.layout b.layout w y i j :=
  draw_congr hb (fun _ hn => view_congr ha hxy hn) hi hj

end Locality

section Bytes

/-- The first pixel of a macro pixel. -/
theorem view_packed_first (o : MacroOrder) (w : Nat) (x : FrameBytes) (m : Nat) :
    Layout.view (.packed o) w x (2 * m) =
      .yuv (x 0 (4 * m + o.y₀)) (x 0 (4 * m + o.u)) (x 0 (4 * m + o.v)) := by
  have hd : 2 * m / 2 = m := by omega
  have hm : 2 * m % 2 = 0 := by omega
  simp only [Layout.view, hd, if_pos hm]

/-- The second pixel of a macro pixel. -/
theorem view_packed_second (o : MacroOrder) (w : Nat) (x : FrameBytes) (m : Nat) :
    Layout.view (.packed o) w x (2 * m + 1) =
      .yuv (x 0 (4 * m + o.y₁)) (x 0 (4 * m + o.u)) (x 0 (4 * m + o.v)) := by
  have hd : (2 * m + 1) / 2 = m := by omega
  have hm : ¬(2 * m + 1) % 2 = 0 := by omega
  simp only [Layout.view, hd, if_neg hm]

/-- A byte of a macro pixel. -/
theorem draw_packed (o : MacroOrder) (w : Nat) (px : Nat → Pixel) (m : Nat) {i : Nat}
    (hi : i < 4) : Layout.draw (.packed o) w px 0 (4 * m + i) =
      (Layout.macroOf o w px m).getD i 0 := by
  have hd : (4 * m + i) / 4 = m := by omega
  have hm : (4 * m + i) % 4 = i := by omega
  simp only [Layout.draw, hd, hm]

/-- A byte of a pixel. -/
theorem draw_pixels (l : PixelLayout) (w : Nat) (px : Nat → Pixel) (n : Nat) {i : Nat}
    (hi : i < l.channels) : Layout.draw (.pixels l) w px 0 (n * l.channels + i) =
      (l.bytesFor (px n)).getD i 0 := by
  obtain ⟨hd, hm⟩ := index_div_mod n hi
  simp only [Layout.draw, hd, hm]

/-- The first pixels alone are drawn into their bytes. -/
theorem draw_pixels_congr {l : PixelLayout} {w d : Nat} {px py : Nat → Pixel}
    (hp : ∀ n < d, px n = py n) :
    ∀ j < d * l.channels,
      Layout.draw (.pixels l) w px 0 j = Layout.draw (.pixels l) w py 0 j := by
  intro j hj
  rw [Nat.mul_comm] at hj
  simp only [Layout.draw, hp _ (Nat.div_lt_of_lt_mul hj)]

end Bytes

section Identity

variable {f : Format} {w h : Nat}

theorem MacroOrder.getD_word (o : MacroOrder) (g : Nat → UInt8) {r : Nat} (hr : r < 4) :
    (o.word (g o.y₀) (g o.y₁) (g o.u) (g o.v)).getD r 0 = g r := by
  cases o <;> interval_cases r <;> rfl

theorem PixelLayout.getD_bytesFor (l : PixelLayout) (g : Nat → UInt8) (o : Nat) {r : Nat}
    (hr : r < l.channels) :
    (l.bytesFor (.rgb (l.colourIn g o) (l.alphaIn g o))).getD r 0 = g (o + r) := by
  cases l with
  | gray =>
    obtain rfl : r = 0 := by simpa [PixelLayout.channels] using hr
    simp only [PixelLayout.bytesFor, PixelLayout.colourIn, Pixel.gray, List.getD_cons_zero,
      FixedPoint.grayOf_gray, Nat.add_zero]
  | colour k =>
    simp only [PixelLayout.channels] at hr
    cases k <;> simp only [PixelOrder.channels] at hr <;> interval_cases r <;> rfl

/-- A sample of chroma that is the same all over its block. -/
theorem chromaOf_block {s : Subsampling} {channel : Pixel → UInt8} {px : Nat → Pixel} {c : Nat}
    {b : UInt8} (hpx : (px (s.corner w c)).isRgb = false)
    (hb : ∀ i < s.across, ∀ j < s.down, channel (px (s.under w c i j)) = b) :
    chromaOf s w channel px c = b := by
  rw [chromaOf, if_neg (by simp [hpx]), Subsampling.mean_congr hb, Subsampling.mean_const]

/-- The macro pixels of what a packed frame shows are its own, in another order. -/
theorem macroOf_packed (hw : 2 ∣ w) (a b : MacroOrder) (x : FrameBytes) (m : Nat) :
    Layout.macroOf b w (Layout.view (.packed a) w x) m =
      b.word (x 0 (4 * m + a.y₀)) (x 0 (4 * m + a.y₁)) (x 0 (4 * m + a.u))
        (x 0 (4 * m + a.v)) := by
  have hpair : ∀ i < 2, ∀ j < 1, Subsampling.under .s422 w m i j / 2 = m := by
    intro i hi j hj
    obtain rfl : j = 0 := by omega
    rw [Subsampling.under_s422 hw]
    omega
  have hu : chromaOf .s422 w Pixel.u (Layout.view (.packed a) w x) m = x 0 (4 * m + a.u) := by
    refine chromaOf_block rfl fun i hi j hj => ?_
    simp only [Layout.view, Pixel.u, hpair i hi j hj]
  have hv : chromaOf .s422 w Pixel.v (Layout.view (.packed a) w x) m = x 0 (4 * m + a.v) := by
    refine chromaOf_block rfl fun i hi j hj => ?_
    simp only [Layout.view, Pixel.v, hpair i hi j hj]
  rw [Layout.macroOf, hu, hv, view_packed_first, view_packed_second, Pixel.luma, Pixel.luma]

/-- What a packed frame shows is shown again by the frame that draws it in any order. -/
theorem view_draw_packed (hw : 2 ∣ w) (a b : MacroOrder) (x : FrameBytes) (n : Nat) :
    Layout.view (.packed b) w (Layout.draw (.packed b) w (Layout.view (.packed a) w x)) n =
      Layout.view (.packed a) w x n := by
  obtain ⟨h₀, h₁, hu, hv⟩ := b.position_lt
  obtain ⟨hw₀, hw₁, hwu, hwv⟩ := b.word_at (x 0 (4 * (n / 2) + a.y₀)) (x 0 (4 * (n / 2) + a.y₁))
    (x 0 (4 * (n / 2) + a.u)) (x 0 (4 * (n / 2) + a.v))
  rw [Layout.view, draw_packed b w _ _ hu, draw_packed b w _ _ hv, macroOf_packed hw, hwu, hwv]
  by_cases hn : n % 2 = 0
  · rw [if_pos hn, draw_packed b w _ _ h₀, macroOf_packed hw, hw₀]
    simp only [Layout.view, if_pos hn]
  · rw [if_neg hn, draw_packed b w _ _ h₁, macroOf_packed hw, hw₁]
    simp only [Layout.view, if_neg hn]

/-- **What a frame shows it draws again as it was.** -/
theorem draw_view (hf : Fit f w h) (x : FrameBytes) {i j : Nat} (hi : i < f.planeCount)
    (hj : j < f.planeSize w h i) : f.layout.draw w (f.layout.view w x) i j = x i j := by
  cases hl : f.layout with
  | planar p =>
    cases p with
    | luma =>
      rw [Format.planeCount_luma hl] at hi
      obtain rfl : i = 0 := by omega
      rfl
    | chroma s o =>
      rw [Format.planeCount_chroma hl] at hi
      by_cases h0 : i = 0
      · subst h0
        rfl
      · rw [Format.planeSize_chroma hl (by omega)] at hj
        have huv := o.u_v
        simp only [Layout.draw, if_neg h0]
        refine chromaOf_block rfl fun a ha b hb => ?_
        simp only [Layout.view]
        rw [Subsampling.cell_under (hf.across_dvd hl) hf.1 ha hb]
        by_cases hu : i = o.u
        · rw [if_pos hu, hu, Pixel.u]
        · rw [if_neg hu, Pixel.v, show i = o.v by omega]
  | packed o =>
    rw [Format.planeCount_packed hl] at hi
    obtain rfl : i = 0 := by omega
    simp only [Layout.draw]
    rw [macroOf_packed (hf.even hl)]
    rw [o.getD_word (fun k => x 0 (4 * (j / 4) + k)) (Nat.mod_lt j (by decide)), Nat.div_add_mod]
  | pixels l =>
    rw [Format.planeCount_pixels hl] at hi
    obtain rfl : i = 0 := by omega
    simp only [Layout.draw, Layout.view]
    rw [l.getD_bytesFor _ _ (Nat.mod_lt j l.channels_pos), Nat.div_add_mod']

end Identity

end FrameConvert
