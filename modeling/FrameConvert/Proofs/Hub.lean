/-
# YUV444P as a hub

A frame with a chroma sample of its own for every pixel shows luma and chroma as they
were drawn (`view_draw_yuv444`): its blocks are single pixels, and the mean over one is
that one.  So nothing that a YUV format shows is lost on the way through `YUV444P`, and
what any format draws from it, it draws from the frame in between as well
(`translated_through_hub`); the one rounded mean that a coarser target takes is taken
at the end, on either way.

Colours are not among this: a YUV frame keeps only what is left of them.
-/

import FrameConvert.Proofs.Kernels

namespace FrameConvert

section Hub

variable {w n : Nat} {o : ChromaOrder} {px : Nat → Pixel} {a : Format}

/-- Every pixel has a sample of its own over it. -/
theorem Subsampling.cell_s444 (w n : Nat) : s444.cell w n = n := by
  simp only [cell, across, down, Nat.div_one]
  exact Nat.div_add_mod' n w

/-- And it is the only one under it. -/
theorem Subsampling.corner_s444 (w n : Nat) : s444.corner w n = n := by
  simp only [corner, across, Nat.div_one, down, Nat.mul_one]
  exact Nat.div_add_mod' n w

/-- The chroma of a single pixel. -/
theorem chromaOf_s444 (w : Nat) (channel : Pixel → UInt8) (px : Nat → Pixel) (n : Nat) :
    chromaOf .s444 w channel px n = channel (px n) := by
  have hmean : (Subsampling.s444.mean fun i j => channel (px (Subsampling.s444.under w n i j))) =
      channel (px n) := by
    refine (Subsampling.mean_congr fun i hi j hj => ?_).trans (Subsampling.mean_const _ _)
    obtain rfl : i = 0 := Nat.lt_one_iff.1 hi
    obtain rfl : j = 0 := Nat.lt_one_iff.1 hj
    rw [Subsampling.under, Subsampling.corner_s444, Nat.zero_mul, Nat.add_zero]
  rw [chromaOf, Subsampling.corner_s444, hmean, ite_self]

/-- **Full chroma shows what was drawn.** -/
theorem view_draw_yuv444 (hpx : (px n).isRgb = false) :
    Layout.view (.planar (.chroma .s444 o)) w (Layout.draw (.planar (.chroma .s444 o)) w px) n =
      px n := by
  have hu : o.u ≠ 0 := by cases o <;> decide
  have hv : o.v ≠ 0 := by cases o <;> decide
  have hvu : o.v ≠ o.u := by cases o <;> decide
  simp only [Layout.view, Layout.draw, Subsampling.cell_s444, chromaOf_s444, if_pos, if_neg hu,
    if_neg hv, if_neg hvu]
  cases hp : px n with
  | yuv y u v => rfl
  | rgb c α =>
    rw [hp] at hpx
    cases hpx

/-- **Drawn from the frame in between as from the source.** -/
theorem translated_through_hub (ha : a.isYuv = true) (b : Format) (w : Nat) (x : FrameBytes) :
    Layout.translated Format.yuv444p.layout b.layout w
        (Layout.translated a.layout Format.yuv444p.layout w x) =
      Layout.translated a.layout b.layout w x := by
  have hview : Format.yuv444p.layout.view w
      (Layout.translated a.layout Format.yuv444p.layout w x) = a.layout.view w x :=
    funext fun n => view_draw_yuv444 (isRgb_view ha w x n)
  rw [Layout.translated, hview, Layout.translated]

/-- Frames that exist in some format exist with full chroma. -/
theorem Fit.yuv444p {h : Nat} (ha : Fit a w h) : Fit .yuv444p w h :=
  ⟨ha.1, ha.2.1, ha.2.2.1, Nat.one_dvd w, Nat.one_dvd h⟩

theorem supports_to_yuv444p (m : Mask) (a : Format) :
    (Engine.build m).supports a .yuv444p = true := by
  rw [Engine.supports_build]
  cases a <;> rfl

theorem supports_from_yuv444p (m : Mask) (b : Format) :
    (Engine.build m).supports .yuv444p b = true := by
  rw [Engine.supports_build]
  cases b <;> rfl

end Hub

namespace Engine

/-- **Every conversion from YUV goes through YUV444P.**  Where `a` is a YUV format that can
be converted into `b`, all three conversions go through, and the frame that comes by way
of `YUV444P` is the one that comes directly, byte for byte; into the same planes the
outcome is the same altogether.  With `b = a` it is the source's own frame. -/
theorem convert_through_yuv444p (m : Mask) {a b : Format} {w h : UInt32}
    {src mid dst dst' : List Plane} (ha : a.isYuv = true)
    (hab : (build m).supports a b = true) (hfa : Fit a w.toNat h.toNat)
    (hfb : Fit b w.toNat h.toNat) (hs : Holds a w.toNat h.toNat src)
    (hm : Holds .yuv444p w.toNat h.toNat mid) (hd : Holds b w.toNat h.toNat dst)
    (hd' : Holds b w.toNat h.toNat dst') :
    ∃ hub via direct,
      (build m).convert a .yuv444p w.toNat h.toNat src mid = ⟨hub, none⟩ ∧
      (build m).convert .yuv444p b w.toNat h.toNat hub dst' = ⟨via, none⟩ ∧
      (build m).convert a b w.toNat h.toNat src dst = ⟨direct, none⟩ ∧
      SameFrame b w.toNat h.toNat via direct ∧
      (dst' = dst → via = direct) ∧
      (b = a → SameFrame a w.toNat h.toNat via src) := by
  have hw := w.toNat_lt
  have hh := h.toNat_lt
  have hfm := hfa.yuv444p
  obtain ⟨hub, hhub, ohub⟩ := convert_of_valid (supports_to_yuv444p m a)
    ⟨hw, hh, hfa, hfm, hs, hm⟩
  obtain ⟨via, hvia, ovia⟩ := convert_of_valid (supports_from_yuv444p m b)
    ⟨hw, hh, hfm, hfb, ohub.holds hm, hd'⟩
  obtain ⟨direct, hdirect, odirect⟩ := convert_of_valid hab ⟨hw, hh, hfa, hfb, hs, hd⟩
  -- the frame in between is read only where it was drawn
  have ovia' : Overwrites b w.toNat h.toNat
      (Layout.translated a.layout b.layout w.toNat (bytesOf src)) dst' via := by
    refine ovia.congr fun i hi j hj => ?_
    rw [← translated_through_hub ha]
    exact translated_congr hfm hfb (fun k hk l hl => ohub.byte hm hk hl) hi hj
  refine ⟨hub, via, direct, hhub, hvia, hdirect, fun i hi j hj => ?_, ?_, ?_⟩
  · rw [ovia'.byte hd' hi hj, odirect.byte hd hi hj]
  · rintro rfl
    exact ovia'.unique odirect
  · rintro rfl i hi j hj
    rw [ovia'.byte hd' hi hj]
    exact draw_view hfb (bytesOf src) hi hj

/-- Two by two pixels from `YUV420P` to `RGB24`, with a surplus byte behind the target. -/
theorem convert_yuv420p_through_yuv444p :
    ∃ hub via direct,
      (build .detected).convert .yuv420p .yuv444p 2 2 [#[16, 81, 145, 235], #[90], #[240]]
        [.replicate 4 0, .replicate 4 0, .replicate 4 0] = ⟨hub, none⟩ ∧
      (build .detected).convert .yuv444p .rgb24 2 2 hub [.replicate 13 0] = ⟨via, none⟩ ∧
      (build .detected).convert .yuv420p .rgb24 2 2 [#[16, 81, 145, 235], #[90], #[240]]
        [.replicate 13 0] = ⟨direct, none⟩ ∧
      SameFrame .rgb24 2 2 via direct ∧ via = direct := by
  have hs : Holds .yuv420p 2 2 [#[16, 81, 145, 235], #[90], #[240]] := ⟨by decide, by decide⟩
  have hm : Holds .yuv444p 2 2 [.replicate 4 0, .replicate 4 0, .replicate 4 0] :=
    ⟨by decide, by decide⟩
  have hd : Holds .rgb24 2 2 [.replicate 13 0] := ⟨by decide, by decide⟩
  obtain ⟨hub, via, direct, hhub, hvia, hdirect, hsame, heq, -⟩ :=
    convert_through_yuv444p .detected (w := 2) (h := 2) rfl
      (supports_build .detected .yuv420p .rgb24) (by decide) (by decide) hs hm hd hd
  exact ⟨hub, via, direct, hhub, hvia, hdirect, hsame, heq rfl⟩

end Engine
end FrameConvert
