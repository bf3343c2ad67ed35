/-
# Chroma between planar grids

What a chroma sample of one planar format is of those of another, said of pixels: it is the mean,
rounded down once, of the samples over the pixels of its block, each counted once however many of
these pixels it is over (`covering`).  The kernel never visits pixels.  It compares the sizes of the
planes, and starts from a quotient of them,

| the two planes | it takes | a covering is |
| --- | --- | --- |
| are of one size | a copy | the sample itself |
| source coarser or equal along both axes | the one sample over the block | that sample |
| source finer along some axis | the mean of a rectangle | two to four samples |

and the rectangle is the covering in all three cases (`covering_eq`), because along an axis the
blocks of the two grids are nested (`image_div_block`).  Neither the channel nor the order of the
planes has a part in the rule, except for where the samples are.
-/

import FrameConvert.Proofs.Luma
import FrameConvert.Proofs.Precedence
import Mathlib.Algebra.BigOperators.Intervals
import Mathlib.Order.Interval.Finset.Nat

namespace FrameConvert

open Finset

/-- The samples of grid `s`, by column and row, that are over the pixels of block `(cx, cy)` of grid
`t`. -/
def covering (s t : Subsampling) (cx cy : Nat) : Finset (Nat × Nat) :=
  (Ico (cx * t.across) ((cx + 1) * t.across) ×ˢ Ico (cy * t.down) ((cy + 1) * t.down)).image
    fun p => (p.1 / s.across, p.2 / s.down)

/-- The mean, rounded down once, of the covering of a block in a plane of samples. -/
def coveringMean (s t : Subsampling) (w : Nat) (p : Plane) (cx cy : Nat) : Nat :=
  (∑ q ∈ covering s t cx cy, (p.byte (q.2 * (w / s.across) + q.1)).toNat) /
    (covering s t cx cy).card

section Covering

/-- **The samples over the pixels of a block along an axis,** where the grids have blocks of `a` and
`b` pixels: the `max (b / a) 1` samples from `x b / a` on. -/
theorem image_div_block {a b : Nat} (ha : 0 < a) (hb : 0 < b) (hab : a ∣ b ∨ b ∣ a) (x : Nat) :
    (Ico (x * b) ((x + 1) * b)).image (· / a) = Ico (x * b / a) (x * b / a + max (b / a) 1) := by
  ext n
  rw [mem_image, mem_Ico]
  rcases hab with ⟨k, rfl⟩ | ⟨k, rfl⟩
  · -- the block is `k` samples of the finer grid
    have hk : 0 < k := Nat.pos_of_mul_pos_left hb
    have hstart : x * (a * k) / a = x * k := by
      rw [Nat.mul_left_comm, Nat.mul_div_cancel_left _ ha]
    rw [Nat.mul_div_cancel_left k ha, Nat.max_eq_left hk, hstart]
    constructor
    · rintro ⟨i, hi, rfl⟩
      rw [mem_Ico] at hi
      refine ⟨(Nat.le_div_iff_mul_le ha).2 ?_, (Nat.div_lt_iff_lt_mul ha).2 ?_⟩
      · calc x * k * a = x * (a * k) := by ring
          _ ≤ i := hi.1
      · calc i < (x + 1) * (a * k) := hi.2
          _ = (x * k + k) * a := by ring
    · rintro ⟨hlow, hhigh⟩
      refine ⟨n * a, mem_Ico.2 ⟨?_, ?_⟩, Nat.mul_div_cancel n ha⟩
      · calc x * (a * k) = x * k * a := by ring
          _ ≤ n * a := Nat.mul_le_mul_right a hlow
      · calc n * a < (x * k + k) * a := Nat.mul_lt_mul_of_pos_right hhigh ha
          _ = (x + 1) * (a * k) := by ring
  · -- the block is within one sample of the coarser grid
    have hone : max (b / (b * k)) 1 = 1 := by
      have : b / (b * k) ≤ 1 := by
        rw [← Nat.div_div_eq_div_mul, Nat.div_self hb]
        exact Nat.div_le_self 1 k
      omega
    have hsame : ∀ i, x * b ≤ i → i < (x + 1) * b → i / (b * k) = x * b / (b * k) := by
      intro i hlow hhigh
      rw [← Nat.div_div_eq_div_mul, ← Nat.div_div_eq_div_mul, Nat.div_eq_of_lt_le hlow hhigh,
        Nat.mul_div_cancel x hb]
    rw [hone]
    constructor
    · rintro ⟨i, hi, rfl⟩
      rw [mem_Ico] at hi
      have := hsame i hi.1 hi.2
      omega
    · intro hn
      have hmem : x * b < (x + 1) * b := Nat.mul_lt_mul_of_pos_right (Nat.lt_succ_self x) hb
      refine ⟨x * b, mem_Ico.2 ⟨Nat.le_refl _, hmem⟩, ?_⟩
      omega

variable {s t : Subsampling} {w h : Nat}

/-- **A covering is a rectangle.** -/
theorem covering_eq (s t : Subsampling) (cx cy : Nat) :
    covering s t cx cy =
      Ico (cx * t.across / s.across) (cx * t.across / s.across + max (t.across / s.across) 1) ×ˢ
        Ico (cy * t.down / s.down) (cy * t.down / s.down + max (t.down / s.down) 1) := by
  rw [← image_div_block s.across_pos t.across_pos (s.across_dvd t),
    ← image_div_block s.down_pos t.down_pos (s.down_dvd t), ← prodMap_image_product]
  rfl

/-- Its sides. -/
theorem card_covering (s t : Subsampling) (cx cy : Nat) :
    (covering s t cx cy).card = max (t.across / s.across) 1 * max (t.down / s.down) 1 := by
  rw [covering_eq, card_product, Nat.card_Ico, Nat.card_Ico, Nat.add_sub_cancel_left,
    Nat.add_sub_cancel_left]

/-- One to four samples cover a block. -/
theorem card_covering_le (s t : Subsampling) (cx cy : Nat) :
    1 ≤ (covering s t cx cy).card ∧ (covering s t cx cy).card ≤ 4 := by
  rw [card_covering]
  cases s <;> cases t <;> decide

/-- A sum over a covering, row by row. -/
theorem sum_covering (s t : Subsampling) (cx cy : Nat) (g : Nat → Nat → Nat) :
    ∑ q ∈ covering s t cx cy, g q.1 q.2 =
      ∑ j ∈ range (max (t.down / s.down) 1), ∑ i ∈ range (max (t.across / s.across) 1),
        g (cx * t.across / s.across + i) (cy * t.down / s.down + j) := by
  rw [covering_eq, sum_product_right, sum_Ico_eq_sum_range, Nat.add_sub_cancel_left]
  refine sum_congr rfl fun j _ => ?_
  rw [sum_Ico_eq_sum_range, Nat.add_sub_cancel_left]

/-- **The mean over the pixels of a block is the mean of its covering:** what covers several of its
pixels may be counted once. -/
theorem toNat_mean_cell (ht : t.across ∣ w) (p : Plane) {cx : Nat} (cy : Nat)
    (hx : cx < w / t.across) :
    (t.mean fun i j => p.byte (s.cell w (t.under w (cy * (w / t.across) + cx) i j))).toNat =
      coveringMean s t w p cx cy := by
  have hcell : ∀ i < t.across, ∀ j < t.down,
      p.byte (s.cell w (t.under w (cy * (w / t.across) + cx) i j)) =
        p.byte ((cy * t.down + j) / s.down * (w / s.across) + (cx * t.across + i) / s.across) := by
    intro i hi j _
    rw [t.under_index cy i j hx, s.cell_index _ (Subsampling.column_lt ht hx hi)]
  have hle := sum_rows_le (fun j i => p.byte ((cy * t.down / s.down + j) * (w / s.across) +
    (cx * t.across / s.across + i))) (max (t.across / s.across) 1) (max (t.down / s.down) 1)
  rw [Subsampling.mean_congr hcell,
    Subsampling.mean_scaled s t fun i j => p.byte (j * (w / s.across) + i), coveringMean,
    card_covering, sum_covering s t cx cy fun i j => (p.byte (j * (w / s.across) + i)).toNat,
    UInt8.toNat_ofNat', Nat.mod_eq_of_lt]
  refine Nat.lt_succ_of_le (Nat.div_le_of_le_mul (hle.trans_eq (Nat.mul_comm _ _)))

end Covering

/-- A planar frame has the chroma of another on its own grid: each sample is the mean of its
covering in the plane where the other frame has the channel. -/
def Resampled (s t : Subsampling) (o k : ChromaOrder) (w h : Nat) (src out : List Plane) : Prop :=
  ∀ c : Chroma, ∀ cx < w / t.across, ∀ cy < h / t.down,
    ((planeAt out (c.plane k)).byte (cy * (w / t.across) + cx)).toNat =
      coveringMean s t w (planeAt src (c.plane o)) cx cy

section Planar

variable {a b : Format} {s t : Subsampling} {o k : ChromaOrder} {w h : Nat} {src out : List Plane}

/-- What a planar frame translates into has its chroma. -/
theorem Carries.resampled (ha : a.layout = .planar (.chroma s o))
    (hb : b.layout = .planar (.chroma t k)) (hfit : Fit b w h)
    (ho : Carries b w h (Layout.translated a.layout b.layout w (bytesOf src)) out) :
    Resampled s t o k w h src out := by
  intro c cx hcx cy hcy
  have hplane := c.plane_eq k
  have hown : (if c.plane k = k.u then o.u else o.v) = c.plane o := by
    cases c <;> cases k <;> rfl
  have hlt : cy * (w / t.across) + cx < b.planeSize w h (c.plane k) := by
    rw [Format.planeSize_chroma hb hplane]
    exact index_lt hcx hcy
  have hcount : c.plane k < b.planeCount := by
    rw [Format.planeCount_chroma hb]
    omega
  rw [ho.byte _ hcount _ hlt, ha, hb, draw_chroma_of_chroma s t o k w _ hplane, hown]
  exact toNat_mean_cell (hfit.across_dvd hb) (planeAt src (c.plane o)) cy hcx

/-- **The kernel takes the mean of a covering,** whether it copies a plane, repeats samples or
averages them. -/
theorem yields_resample_covering (ha : a.layout = .planar (.chroma s o))
    (hb : b.layout = .planar (.chroma t k)) (hfa : Fit a w h) (hfb : Fit b w h)
    (hw : w < 0x100000000) (hh : h < 0x100000000) {p q : Plane}
    (hp : w / s.across * (h / s.down) ≤ p.size) (hq : w / t.across * (h / t.down) ≤ q.size) :
    Yields (resample p (w / s.across) (h / s.down) (w / t.across) (h / t.down) q) fun r =>
      r.size = q.size ∧ ∀ cx < w / t.across, ∀ cy < h / t.down,
        (r.byte (cy * (w / t.across) + cx)).toNat = coveringMean s t w p cx cy := by
  refine (yields_resample_grids ha hb hfa hfb hw hh hp hq).mono fun r hr => ?_
  refine ⟨hr.size, fun cx hcx cy hcy => ?_⟩
  rw [hr.below (index_lt hcx hcy)]
  exact toNat_mean_cell (hfb.across_dvd hb) p cy hcx

/-- Planar frames convert into each other. -/
theorem isSome_portable?_planar {p q : PlanarLayout} (ha : a.layout = .planar p)
    (hb : b.layout = .planar q) : (Method.portable? a b).isSome = true := by
  refine Method.isSome_portable?_unless (fun o ho => ?_) fun o ho => ?_
  · rw [hb] at ho
    cases ho
  · rw [ha] at ho
    cases ho

end Planar

namespace Engine

/-- **Between planar grids a chroma sample is the mean of the samples over its block.**  Any two
planar formats with chroma convert into each other, and the sample of a block is, for U as for V,
each in its plane on either side, the mean of its covering: one to four samples, summed up and
divided once.  Where the frame stands it is the same.  The kernel follows this one rule in all its
branches, for any planes that are large enough.  A frame of luma alone has `128` everywhere. -/
theorem chroma_is_mean_of_covering (w h : UInt32) :
    (∀ (a b : Format) (s t : Subsampling) (o k : ChromaOrder),
      a.layout = .planar (.chroma s o) → b.layout = .planar (.chroma t k) →
      Fit a w.toNat h.toNat → Fit b w.toNat h.toNat →
        (∀ m src dst, Holds a w.toNat h.toNat src → Holds b w.toNat h.toNat dst →
          ∃ out, (build m).convert a b w.toNat h.toNat src dst = ⟨out, none⟩ ∧
            Resampled s t o k w.toNat h.toNat src out) ∧
        (∀ m src kernel, Holds a w.toNat h.toNat src → (build m).lookup a b = some kernel →
          kernel.worksInPlace = true →
            ∃ out, (build m).convertInPlace a b w.toNat h.toNat src = ⟨out, none⟩ ∧
              Resampled s t o k w.toNat h.toNat src out) ∧
        (∀ cx cy, 1 ≤ (covering s t cx cy).card ∧ (covering s t cx cy).card ≤ 4) ∧
        ∀ p q : Plane, w.toNat / s.across * (h.toNat / s.down) ≤ p.size →
          w.toNat / t.across * (h.toNat / t.down) ≤ q.size →
            ∃ r, resample p (w.toNat / s.across) (h.toNat / s.down) (w.toNat / t.across)
                (h.toNat / t.down) q = .ok r ∧ r.size = q.size ∧
              ∀ cx < w.toNat / t.across, ∀ cy < h.toNat / t.down,
                (r.byte (cy * (w.toNat / t.across) + cx)).toNat =
                  coveringMean s t w.toNat p cx cy) ∧
      ∀ (a b : Format) (t : Subsampling) (k : ChromaOrder) (m : Mask) (src dst : List Plane),
        a.layout = .planar .luma → b.layout = .planar (.chroma t k) → Fit b w.toNat h.toNat →
        Holds a w.toNat h.toNat src → Holds b w.toNat h.toNat dst →
          ∃ out, (build m).convert a b w.toNat h.toNat src dst = ⟨out, none⟩ ∧
            ∀ c : Chroma, ∀ i < w.toNat / t.across * (h.toNat / t.down),
              (planeAt out (c.plane k)).byte i = 128 := by
  have hw := w.toNat_lt
  have hh := h.toNat_lt
  constructor
  · intro a b s t o k ha hb hfa hfb
    refine ⟨fun m src dst hs hd => ?_, fun m src kernel hs hk hi => ?_, card_covering_le s t,
      fun p q hp hq => yields_resample_covering ha hb hfa hfb hw hh hp hq⟩
    · have hab := (supports_build m a b).trans (isSome_portable?_planar ha hb)
      obtain ⟨out, hout, ho⟩ := convert_of_valid hab ⟨hw, hh, hfa, hfb, hs, hd⟩
      exact ⟨out, hout, (ho.carries hd).resampled ha hb hfb⟩
    · have hd := ((worksInPlace_iff hk).1 hi).sameShape.holds hs
      obtain ⟨out, hout, ho⟩ := convertInPlace_of_valid hk hi ⟨hw, hh, hfa, hfb, hs, hd⟩
      exact ⟨out, hout, (ho.carries hd).resampled ha hb hfb⟩
  · intro a b t k m src dst ha hb hfb hs hd
    have hfa : Fit a w.toNat h.toNat := by
      cases a <;> first | exact hfb.single.1 | cases ha
    have hab := (supports_build m a b).trans (isSome_portable?_planar ha hb)
    obtain ⟨out, hout, ho⟩ := convert_of_valid hab ⟨hw, hh, hfa, hfb, hs, hd⟩
    refine ⟨out, hout, fun c i hi => ?_⟩
    have hplane := c.plane_eq k
    rw [← Format.planeSize_chroma hb hplane] at hi
    have hcount : c.plane k < b.planeCount := by
      rw [Format.planeCount_chroma hb]
      omega
    rw [ho.byte hd hcount hi, ha, hb, draw_chroma_of_luma t k _ _ hplane]
    rfl

/-- Four by two pixels of `YV12`, which has V before U, to `YUV411P`: both rows have the mean of two
samples; and four by two of luma alone to `YV12`. -/
theorem chroma_of_yv12_resampled :
    (∃ out, (build .detected).convert .yv12 .yuv411p 4 2 [.replicate 8 16, #[240, 91], #[10, 13]]
        [.replicate 8 0, .replicate 2 0, .replicate 2 0] = ⟨out, none⟩ ∧
      [0, 1].map (planeAt out 1).byte = [11, 11] ∧
      [0, 1].map (planeAt out 2).byte = [165, 165]) ∧
    ∃ out, (build .detected).convert .y8 .yv12 4 2 [.replicate 8 16]
        [.replicate 8 0, .replicate 2 0, .replicate 2 0] = ⟨out, none⟩ ∧
      [0, 1].map (planeAt out 1).byte = [128, 128] := by
  obtain ⟨hchroma, hluma⟩ := chroma_is_mean_of_covering 4 2
  constructor
  · obtain ⟨hinto, -⟩ := hchroma .yv12 .yuv411p .s420 .s411 .vu .uv rfl rfl (by decide) (by decide)
    obtain ⟨out, hout, hmean⟩ := hinto .detected [.replicate 8 16, #[240, 91], #[10, 13]]
      [.replicate 8 0, .replicate 2 0, .replicate 2 0] (by decide) (by decide)
    have hbyte : ∀ {p : UInt8} {n : Nat} {c : UInt8}, p.toNat = n → n = c.toNat → p = c :=
      fun hp hn => UInt8.toNat_inj.1 (hp.trans hn)
    have hu₀ : (planeAt out 1).byte 0 = 11 :=
      hbyte (hmean .u 0 (by decide) 0 (by decide)) (by decide)
    have hu₁ : (planeAt out 1).byte 1 = 11 :=
      hbyte (hmean .u 0 (by decide) 1 (by decide)) (by decide)
    have hv₀ : (planeAt out 2).byte 0 = 165 :=
      hbyte (hmean .v 0 (by decide) 0 (by decide)) (by decide)
    have hv₁ : (planeAt out 2).byte 1 = 165 :=
      hbyte (hmean .v 0 (by decide) 1 (by decide)) (by decide)
    exact ⟨out, hout, by simp only [List.map_cons, List.map_nil, hu₀, hu₁],
      by simp only [List.map_cons, List.map_nil, hv₀, hv₁]⟩
  · obtain ⟨out, hout, hneutral⟩ := hluma .y8 .yv12 .s420 .vu .detected [.replicate 8 16]
      [.replicate 8 0, .replicate 2 0, .replicate 2 0] rfl rfl (by decide) (by decide) (by decide)
    have h₀ : (planeAt out 1).byte 0 = 128 := hneutral .v 0 (by decide)
    have h₁ : (planeAt out 1).byte 1 = 128 := hneutral .v 1 (by decide)
    exact ⟨out, hout, by simp only [List.map_cons, List.map_nil, h₀, h₁]⟩

end Engine
end FrameConvert
