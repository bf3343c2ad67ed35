/-
# Frames joined from two

Two frames of one format make a larger one, whose tiles they are:

| joined | bytes | tiles |
| --- | --- | --- |
| `Stacked` | of each plane, those of the upper frame, then those of the lower | at the top, below |
| `Abreast` | of each row, those of the left frame, then those of the right | at the left, beside |

A conversion leaves tiles where they are, so of joined frames it makes the joined conversions
(`joinsAlike_of_tiles`).  Where vector blocks end and rows begin is of no consequence, as
`Translates` says of every kernel alike.  The joined frame is fit if both parts are
(`Fit.stack`, `Fit.abreast`), unless it has become too large; then it is refused.
-/

import FrameConvert.Proofs.Kernels
import FrameConvert.Proofs.Tiles

namespace FrameConvert

/-- One frame above another: their planes one after the other. -/
def Stacked (f : Format) (w h₁ h₂ : Nat) (x y z : FrameBytes) : Prop :=
  ∀ i < f.planeCount, (∀ j < f.planeSize w h₁ i, z i j = x i j) ∧
    ∀ j < f.planeSize w h₂ i, z i (f.planeSize w h₁ i + j) = y i j

/-- One frame beside another: the rows of their planes one after the other. -/
def Abreast (f : Format) (w₁ w₂ h : Nat) (x y z : FrameBytes) : Prop :=
  ∀ i < f.planeCount, ∀ r < f.rowCount h i,
    (∀ j < f.rowSize w₁ i,
      z i (r * f.rowSize (w₁ + w₂) i + j) = x i (r * f.rowSize w₁ i + j)) ∧
    ∀ j < f.rowSize w₂ i,
      z i (r * f.rowSize (w₁ + w₂) i + (f.rowSize w₁ i + j)) = y i (r * f.rowSize w₂ i + j)

instance (f : Format) (w h₁ h₂ : Nat) (x y z : FrameBytes) :
    Decidable (Stacked f w h₁ h₂ x y z) :=
  inferInstanceAs (Decidable (∀ i < f.planeCount, _ ∧ _))

instance (f : Format) (w₁ w₂ h : Nat) (x y z : FrameBytes) :
    Decidable (Abreast f w₁ w₂ h x y z) :=
  inferInstanceAs (Decidable (∀ i < f.planeCount, ∀ r < f.rowCount h i, _ ∧ _))

/-- **Of joined frames comes what the frames become, joined:** all three are converted, and the
third is joined from the other two in the target format as it was in the source format. -/
def Engine.JoinsAlike (e : Engine) (a b : Format) (w₁ h₁ w₂ h₂ w h : Nat)
    (joined : Format → FrameBytes → FrameBytes → FrameBytes → Prop) : Prop :=
  ∀ src₁ src₂ src dst₁ dst₂ dst, Holds a w₁ h₁ src₁ → Holds a w₂ h₂ src₂ → Holds a w h src →
    Holds b w₁ h₁ dst₁ → Holds b w₂ h₂ dst₂ → Holds b w h dst →
    joined a (bytesOf src₁) (bytesOf src₂) (bytesOf src) →
      ∃ out₁ out₂ out, e.convert a b w₁ h₁ src₁ dst₁ = ⟨out₁, none⟩ ∧
        e.convert a b w₂ h₂ src₂ dst₂ = ⟨out₂, none⟩ ∧ e.convert a b w h src dst = ⟨out, none⟩ ∧
        joined b (bytesOf out₁) (bytesOf out₂) (bytesOf out)

section Joined

variable {f : Format} {w₁ w₂ w h₁ h₂ h : Nat} {x y z : FrameBytes}

/-- The bytes of a plane, row by row. -/
theorem forall_index_iff {P : Nat → Prop} :
    (∀ n < w * h, P n) ↔ ∀ y < h, ∀ x < w, P (y * w + x) := by
  constructor
  · intro hP y hy x hx
    exact hP _ (index_lt hx hy)
  · intro hP n hn
    obtain ⟨x, y, hx, hy, rfl⟩ := exists_index hn
    exact hP y hy x hx

/-- Frames above each other are the upper and the lower tile. -/
theorem stacked_iff : Stacked f w h₁ h₂ x y z ↔
    Tile.Cut ⟨0, 0, w, h₁⟩ f w x z ∧ Tile.Cut ⟨0, h₁, w, h₂⟩ f w y z := by
  rw [Tile.Cut, Tile.Cut, ← forall₂_and]
  refine forall₂_congr fun i hi => and_congr ?_ ?_
  · simp only [Tile.CutPlane, Format.rowSize_zero, Format.rowCount_zero, Nat.zero_add,
      Format.planeSize_eq_rows hi]
    exact forall_index_iff
  · have hplace : ∀ r j, (f.rowCount h₁ i + r) * f.rowSize w i + (f.rowSize 0 i + j) =
        f.planeSize w h₁ i + (r * f.rowSize w i + j) := by
      intro r j
      rw [f.rowSize_zero, Format.planeSize_eq_rows hi]
      ring
    simp only [Tile.CutPlane, hplace, Format.planeSize_eq_rows hi]
    exact forall_index_iff

/-- Frames beside each other are the left and the right tile. -/
theorem abreast_iff : Abreast f w₁ w₂ h x y z ↔
    Tile.Cut ⟨0, 0, w₁, h⟩ f (w₁ + w₂) x z ∧ Tile.Cut ⟨w₁, 0, w₂, h⟩ f (w₁ + w₂) y z := by
  simp only [Abreast, Tile.Cut, Tile.CutPlane, Format.rowSize_zero, Format.rowCount_zero,
    Nat.zero_add, forall_and]

/-- Frames above each other are fit if both are, up to the bound on sizes. -/
theorem Fit.stack (hu : Fit f w h₁) (hl : Fit f w h₂)
    (hs : w * (h₁ + h₂) * 4 < 0x10000000000000000) : Fit f w (h₁ + h₂) :=
  ⟨hu.1, Nat.add_pos_left hu.2.1 h₂, hs, hu.2.2.2.1, Nat.dvd_add hu.2.2.2.2 hl.2.2.2.2⟩

/-- And so are frames beside each other. -/
theorem Fit.abreast (hl : Fit f w₁ h) (hr : Fit f w₂ h)
    (hs : (w₁ + w₂) * h * 4 < 0x10000000000000000) : Fit f (w₁ + w₂) h :=
  ⟨Nat.add_pos_left hl.1 w₂, hl.2.1, hs, Nat.dvd_add hl.2.2.2.1 hr.2.2.2.1, hl.2.2.2.2⟩

/-- The upper and the lower tile lie in their frame. -/
theorem lies_stacked (hu : Fit f w h₁) (hl : Fit f w h₂)
    (hs : w * (h₁ + h₂) * 4 < 0x10000000000000000) :
    Tile.Lies ⟨0, 0, w, h₁⟩ f w (h₁ + h₂) ∧ Tile.Lies ⟨0, h₁, w, h₂⟩ f w (h₁ + h₂) := by
  have hframe := hu.stack hl hs
  constructor
  · exact ⟨hframe, hu, Nat.dvd_zero _, Nat.dvd_zero _, by simp, by simp⟩
  · exact ⟨hframe, hl, Nat.dvd_zero _, hu.2.2.2.2, by simp, Nat.le_refl _⟩

/-- And so do the left and the right tile. -/
theorem lies_abreast (hl : Fit f w₁ h) (hr : Fit f w₂ h)
    (hs : (w₁ + w₂) * h * 4 < 0x10000000000000000) :
    Tile.Lies ⟨0, 0, w₁, h⟩ f (w₁ + w₂) h ∧ Tile.Lies ⟨w₁, 0, w₂, h⟩ f (w₁ + w₂) h := by
  have hframe := hl.abreast hr hs
  constructor
  · exact ⟨hframe, hl, Nat.dvd_zero _, Nat.dvd_zero _, by simp, by simp⟩
  · exact ⟨hframe, hr, hl.2.2.2.1, Nat.dvd_zero _, Nat.le_refl _, by simp⟩

end Joined

namespace Engine

variable {m : Mask} {a b : Format} {w h : Nat}

/-- **Frames joined from two tiles are converted tile by tile.** -/
theorem joinsAlike_of_tiles {joined : Format → FrameBytes → FrameBytes → FrameBytes → Prop}
    {t₁ t₂ : Tile} (hw : w < 0x100000000) (hh : h < 0x100000000)
    (hab : (build m).supports a b = true) (ha : t₁.Lies a w h ∧ t₂.Lies a w h)
    (hb : t₁.Lies b w h ∧ t₂.Lies b w h)
    (hjoined : ∀ f x y z, joined f x y z ↔ t₁.Cut f w x z ∧ t₂.Cut f w y z) :
    (build m).JoinsAlike a b t₁.width t₁.height t₂.width t₂.height w h joined := by
  intro src₁ src₂ src dst₁ dst₂ dst hs₁ hs₂ hs hd₁ hd₂ hd hsrc
  have htile : ∀ t : Tile, t.Lies a w h → t.Lies b w h → ∀ xs ds,
      Holds a t.width t.height xs → Holds b t.width t.height ds →
        ∃ os, (build m).convert a b t.width t.height xs ds = ⟨os, none⟩ ∧
          Carries b t.width t.height
            (Layout.translated a.layout b.layout t.width (bytesOf xs)) os := by
    intro t hta htb xs ds hxs hds
    have hright := hta.right_le
    have hbottom := hta.bottom_le
    obtain ⟨os, hos, ho⟩ := convert_of_valid hab
      ⟨by omega, by omega, hta.tile, htb.tile, hxs, hds⟩
    exact ⟨os, hos, ho.carries hds⟩
  obtain ⟨out₁, hout₁, ho₁⟩ := htile t₁ ha.1 hb.1 src₁ dst₁ hs₁ hd₁
  obtain ⟨out₂, hout₂, ho₂⟩ := htile t₂ ha.2 hb.2 src₂ dst₂ hs₂ hd₂
  obtain ⟨out, hout, ho⟩ := convert_of_valid hab ⟨hw, hh, ha.1.frame, hb.1.frame, hs, hd⟩
  obtain ⟨hcut₁, hcut₂⟩ := (hjoined _ _ _ _).1 hsrc
  refine ⟨out₁, out₂, out, hout₁, hout₂, hout, (hjoined _ _ _ _).2 ⟨?_, ?_⟩⟩
  · exact (Tile.Cut.carried hb.1 ho₁ (ho.carries hd)).1 (hcut₁.translated ha.1 hb.1)
  · exact (Tile.Cut.carried hb.2 ho₂ (ho.carries hd)).1 (hcut₂.translated ha.2 hb.2)

/-- **Conversion respects tiling.**  Of a frame that is joined from two that are fit for both
formats, one above or beside the other, it makes the two conversions joined, for every pair and
every mask; only if the joined frame is too large, it refuses that one. -/
theorem conversion_respects_tiling (m : Mask) {a b : Format}
    (hab : (build m).supports a b = true) :
    (∀ w h₁ h₂ h : UInt32, h.toNat = h₁.toNat + h₂.toNat →
      (∀ f ∈ [a, b], Fit f w.toNat h₁.toNat ∧ Fit f w.toNat h₂.toNat) →
        (w.toNat * h.toNat * 4 < 0x10000000000000000 →
          (build m).JoinsAlike a b w.toNat h₁.toNat w.toNat h₂.toNat w.toNat h.toNat
            fun f => Stacked f w.toNat h₁.toNat h₂.toNat) ∧
        (0x10000000000000000 ≤ w.toNat * h.toNat * 4 → ∀ src dst,
          (build m).convert a b w.toNat h.toNat src dst = ⟨dst, some (.refused .tooLarge)⟩)) ∧
      ∀ w₁ w₂ w h : UInt32, w.toNat = w₁.toNat + w₂.toNat →
        (∀ f ∈ [a, b], Fit f w₁.toNat h.toNat ∧ Fit f w₂.toNat h.toNat) →
          (w.toNat * h.toNat * 4 < 0x10000000000000000 →
            (build m).JoinsAlike a b w₁.toNat h.toNat w₂.toNat h.toNat w.toNat h.toNat
              fun f => Abreast f w₁.toNat w₂.toNat h.toNat) ∧
          (0x10000000000000000 ≤ w.toNat * h.toNat * 4 → ∀ src dst,
            (build m).convert a b w.toNat h.toNat src dst =
              ⟨dst, some (.refused .tooLarge)⟩) := by
  constructor
  · intro w h₁ h₂ h hsum hfit
    have hh := h.toNat_lt
    rw [hsum] at hh ⊢
    have hlies := fun f hf => lies_stacked (hfit f hf).1 (hfit f hf).2
    constructor
    · intro hs
      exact joinsAlike_of_tiles w.toNat_lt hh hab (hlies a (by simp) hs) (hlies b (by simp) hs)
        fun _ _ _ _ => stacked_iff
    · intro hs src dst
      exact convert_of_refused hab (checkGeometry_of_large hs)
  · intro w₁ w₂ w h hsum hfit
    have hw := w.toNat_lt
    rw [hsum] at hw ⊢
    have hlies := fun f hf => lies_abreast (hfit f hf).1 (hfit f hf).2
    constructor
    · intro hs
      exact joinsAlike_of_tiles hw h.toNat_lt hab (hlies a (by simp) hs) (hlies b (by simp) hs)
        fun _ _ _ _ => abreast_iff
    · intro hs src dst
      exact convert_of_refused hab (checkGeometry_of_large hs)

/-- Two frames of two by two pixels from `YUV420P` to `RGB24`, one above and one beside the
other; and two above each other that are too large together. -/
theorem yuv420p_above_and_beside :
    (∃ out₁ out₂ out,
      (build .detected).convert .yuv420p .rgb24 2 2 [#[16, 81, 145, 235], #[240], #[90]]
        [.replicate 12 0] = ⟨out₁, none⟩ ∧
      (build .detected).convert .yuv420p .rgb24 2 2 [#[1, 2, 3, 4], #[5], #[6]]
        [.replicate 12 0] = ⟨out₂, none⟩ ∧
      (build .detected).convert .yuv420p .rgb24 2 4
        [#[16, 81, 145, 235, 1, 2, 3, 4], #[240, 5], #[90, 6]] [.replicate 25 7] =
        ⟨out, none⟩ ∧
      Stacked .rgb24 2 2 2 (bytesOf out₁) (bytesOf out₂) (bytesOf out)) ∧
    (∃ out₁ out₂ out,
      (build .detected).convert .yuv420p .rgb24 2 2 [#[16, 81, 145, 235], #[240], #[90]]
        [.replicate 12 0] = ⟨out₁, none⟩ ∧
      (build .detected).convert .yuv420p .rgb24 2 2 [#[1, 2, 3, 4], #[5], #[6]]
        [.replicate 12 0] = ⟨out₂, none⟩ ∧
      (build .detected).convert .yuv420p .rgb24 4 2
        [#[16, 81, 1, 2, 145, 235, 3, 4], #[240, 5], #[90, 6]] [.replicate 25 7] =
        ⟨out, none⟩ ∧
      Abreast .rgb24 2 2 2 (bytesOf out₁) (bytesOf out₂) (bytesOf out)) ∧
    ∀ src dst, (build .detected).convert .yuv420p .rgb24 0x80000000 0xfffffffc src dst =
      ⟨dst, some (.refused .tooLarge)⟩ := by
  obtain ⟨hstacked, habreast⟩ := conversion_respects_tiling .detected (a := .yuv420p) (b := .rgb24)
    (supports_build _ _ _)
  refine ⟨?_, ?_, ?_⟩
  · exact (hstacked 2 2 2 4 rfl (by decide)).1 (by decide) _ _ _ _ _ _ (by decide) (by decide)
      (by decide) (by decide) (by decide) (by decide) (by decide)
  · exact (habreast 2 2 4 2 rfl (by decide)).1 (by decide) _ _ _ _ _ _ (by decide) (by decide)
      (by decide) (by decide) (by decide) (by decide) (by decide)
  · exact (hstacked 0x80000000 0x7ffffffe 0x7ffffffe 0xfffffffc rfl (by decide)).2 (by decide)

end Engine
end FrameConvert
