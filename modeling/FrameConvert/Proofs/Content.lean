/-
# What a format keeps of pixels

A frame shows of the pixels that it draws what its format has room for, its *content*:

| content | formats | is left of a pixel |
| --- | --- | --- |
| `luma` | `Y8` | luma; chroma is neutral |
| `chroma s` | planar, packed with 4:2:2 | luma, and the chroma drawn for its block |
| `gray` | `GRAY8` | its gray in all three channels, alpha `0` |
| `colour alpha` | colour | colour, and alpha or `0` |

`c.kept w px` are the pixels that are left, and `view_draw` says that a frame shows just
these.  They are all that its format draws (`draw_kept`), and the pixels that a frame shows
are left as they are (`kept_view`).  So a conversion by way of another format draws what
is left in between (`translated_translated`), and the order of bytes and planes, which is
not part of the content, is forgotten on the way.
-/

import FrameConvert.Proofs.View

namespace FrameConvert

/-- What the pixels of a frame have room for. -/
inductive Content
  | luma
  | chroma (s : Subsampling)
  | gray
  | colour (alpha : Bool)
  deriving DecidableEq, Repr

/-- What the pixels of a format have room for. -/
def Format.content (f : Format) : Content :=
  match f.layout with
  | .planar .luma => .luma
  | .planar (.chroma s _) => .chroma s
  | .packed _ => .chroma .s422
  | .pixels .gray => .gray
  | .pixels (.colour k) => .colour k.alpha?.isSome

/-- What is left of pixels. -/
def Content.kept (c : Content) (w : Nat) (px : Nat → Pixel) (n : Nat) : Pixel :=
  match c with
  | luma => .yuv (px n).luma neutral neutral
  | chroma s =>
    .yuv (px n).luma (chromaOf s w Pixel.u px (s.cell w n)) (chromaOf s w Pixel.v px (s.cell w n))
  | gray => .rgb ⟨(px n).gray, (px n).gray, (px n).gray⟩ 0
  | colour alpha => .rgb (px n).colour (if alpha then (px n).alpha else 0)

variable {a b c f : Format} {w h : Nat}

/-- The sample over a pixel of a macro pixel. -/
theorem Subsampling.cell_s422 (hw : 2 ∣ w) (n : Nat) : s422.cell w n = n / 2 := by
  obtain ⟨v, rfl⟩ := hw
  have hv : 2 * v / 2 = v := Nat.mul_div_cancel_left v two_pos
  simp only [cell, across, down, Nat.div_one, hv]
  calc n / (2 * v) * v + n % (2 * v) / 2
      = n / 2 / v * v + n / 2 % v := by rw [Nat.div_div_eq_div_mul, Nat.mod_mul_right_div_self]
    _ = n / 2 := Nat.div_add_mod' (n / 2) v

/-- The macro pixels of what is drawn. -/
theorem view_draw_macro (hw : 2 ∣ w) (o : MacroOrder) (px : Nat → Pixel) (n : Nat) :
    Layout.view (.packed o) w (Layout.draw (.packed o) w px) n =
      Content.kept (.chroma .s422) w px n := by
  obtain ⟨h₀, h₁, hu, hv⟩ := o.position_lt
  obtain ⟨hw₀, hw₁, hwu, hwv⟩ := o.word_at (px (2 * (n / 2))).luma (px (2 * (n / 2) + 1)).luma
    (chromaOf .s422 w Pixel.u px (n / 2)) (chromaOf .s422 w Pixel.v px (n / 2))
  rw [Layout.view, draw_packed o w _ _ hu, draw_packed o w _ _ hv, Layout.macroOf, hwu, hwv,
    Content.kept, Subsampling.cell_s422 hw]
  -- the two pixels of a macro pixel differ in where their luma is
  rcases Nat.mod_two_eq_zero_or_one n with hn | hn
  · rw [if_pos hn, draw_packed o w _ _ h₀, Layout.macroOf, hw₀, show 2 * (n / 2) = n by omega]
  · rw [if_neg (by omega), draw_packed o w _ _ h₁, Layout.macroOf, hw₁,
      show 2 * (n / 2) + 1 = n by omega]

/-- The colour pixels of what is drawn. -/
theorem view_draw_colour (k : PixelOrder) (w : Nat) (px : Nat → Pixel) (n : Nat) :
    Layout.view (.pixels (.colour k)) w (Layout.draw (.pixels (.colour k)) w px) n =
      Content.kept (.colour k.alpha?.isSome) w px n := by
  obtain ⟨hr, hg, hb⟩ := k.position_lt
  obtain ⟨hkr, hkg, hkb, hka⟩ := k.bytes_at (px n).colour (px n).alpha
  simp only [Content.kept, Layout.view, PixelLayout.colourIn, PixelLayout.alphaIn]
  rw [draw_pixels (.colour k) w px n hr, draw_pixels (.colour k) w px n hg,
    draw_pixels (.colour k) w px n hb, PixelLayout.bytesFor, hkr, hkg, hkb]
  cases ha : k.alpha? with
  | none => rfl
  | some i =>
    rw [Option.map_some, Option.getD_some,
      draw_pixels (.colour k) w px n (PixelOrder.alpha_lt ha), PixelLayout.bytesFor, hka i ha]
    rfl

/-- **A frame shows what its format keeps** of the pixels that it draws. -/
theorem view_draw (hf : Fit f w h) (px : Nat → Pixel) :
    f.layout.view w (f.layout.draw w px) = f.content.kept w px := by
  funext n
  rw [Format.content]
  cases hl : f.layout with
  | planar p =>
    cases p with
    | luma => rfl
    | chroma s o =>
      have hu : o.u ≠ 0 := by cases o <;> decide
      have hv : o.v ≠ 0 := by cases o <;> decide
      have hvu : o.v ≠ o.u := by cases o <;> decide
      simp only [Content.kept, Layout.view, Layout.draw, if_pos, if_neg hu, if_neg hv, if_neg hvu]
  | packed o => exact view_draw_macro (hf.even hl) o px n
  | pixels l =>
    cases l with
    | gray =>
      have hgray : Layout.draw (.pixels .gray) w px 0 (n * PixelLayout.gray.channels) =
          (px n).gray :=
        draw_pixels .gray w px n (i := 0) (by decide)
      simp only [Content.kept, Layout.view, PixelLayout.colourIn, PixelLayout.alphaIn, hgray]
    | colour k => exact view_draw_colour k w px n

/-- **What is left of pixels is all that is drawn of them.** -/
theorem draw_kept (hf : Fit f w h) (px : Nat → Pixel) {i j : Nat} (hi : i < f.planeCount)
    (hj : j < f.planeSize w h i) :
    f.layout.draw w (f.content.kept w px) i j = f.layout.draw w px i j := by
  rw [← view_draw hf]
  exact draw_view hf _ hi hj

/-- **What a frame shows is left as it is.** -/
theorem kept_view (hf : Fit f w h) (x : FrameBytes) {n : Nat} (hn : n < w * h) :
    f.content.kept w (f.layout.view w x) n = f.layout.view w x n := by
  rw [← view_draw hf]
  exact view_congr hf (fun i hi j hj => draw_view hf x hi hj) hn

/-- **By way of another format** what is left in between is drawn. -/
theorem translated_translated (hb : Fit b w h) (x : FrameBytes) :
    Layout.translated b.layout c.layout w (Layout.translated a.layout b.layout w x) =
      c.layout.draw w (b.content.kept w (a.layout.view w x)) := by
  rw [Layout.translated, Layout.translated, view_draw hb]

end FrameConvert
