/-
# Chroma channels

A YUV format with chroma has its U and its V samples on one grid, and finds them by its own
order:

| layout | sample `c` of a channel |
| --- | --- |
| planar | byte `c` of the channel's plane |
| packed | byte `4 c` and the channel's position in a macro pixel |

`f.channel w h k x` are the samples of channel `k`, one for each sample of the grid and nothing
else.  A conversion takes each channel from the source's grid to the target's, by `regrid`: the
mean, over the block of a target sample, of what its pixels have over them
(`channel_translated`).  That it is one function for both channels, of a channel alone, is
what keeps them apart.  A mean lies between the samples it is taken of (`between_regrid`), so
along a journey no sample leaves the range that the first frame had (`between_along`).
-/

import FrameConvert.Proofs.Generations
import Mathlib.Algebra.Order.BigOperators.Group.Finset
import Mathlib.Algebra.Group.Action.Defs
import Mathlib.Data.Fintype.Lattice

namespace FrameConvert

open Finset

/-- A chroma channel. -/
inductive Chroma
  | u | v
  deriving DecidableEq, Repr

namespace Chroma

/-- The other channel. -/
def other : Chroma → Chroma
  | u => v
  | v => u

/-- The plane of a channel. -/
def plane : Chroma → ChromaOrder → Nat
  | u => ChromaOrder.u
  | v => ChromaOrder.v

/-- The position of a channel in a macro pixel. -/
def position : Chroma → MacroOrder → Nat
  | u => MacroOrder.u
  | v => MacroOrder.v

/-- What a pixel has in a channel. -/
def ofPixel : Chroma → Pixel → UInt8
  | u => Pixel.u
  | v => Pixel.v

theorem plane_eq (k : Chroma) (o : ChromaOrder) : k.plane o = 1 ∨ k.plane o = 2 := by
  cases k <;> cases o <;> decide

theorem position_lt (k : Chroma) (o : MacroOrder) : k.position o < 4 := by
  cases k <;> cases o <;> decide

end Chroma

/-- Sample `c` of a channel among the bytes of a frame; neutral where there is no chroma. -/
def Layout.sample (l : Layout) (k : Chroma) (x : FrameBytes) (c : Nat) : UInt8 :=
  match l with
  | .planar (.chroma _ o) => x (k.plane o) c
  | .packed o => x 0 (4 * c + k.position o)
  | .planar .luma | .pixels _ => neutral

namespace Format

/-- How many samples a channel has. -/
def gridSize (f : Format) (w h : Nat) : Nat :=
  f.grid?.elim 0 fun s => w / s.across * (h / s.down)

/-- The samples of a channel, and nothing else of a frame. -/
def channel (f : Format) (w h : Nat) (k : Chroma) (x : FrameBytes) : Fin (f.gridSize w h) → UInt8 :=
  fun c => f.layout.sample k x c

end Format

/-- Every one of the later samples lies between two of the earlier ones. -/
def Between {m n : Nat} (earlier : Fin m → UInt8) (later : Fin n → UInt8) : Prop :=
  ∀ c, ∃ low high, earlier low ≤ later c ∧ later c ≤ earlier high

/-- A channel taken from grid `s` to grid `t`. -/
def regrid (s t : Subsampling) (w : Nat) {m n : Nat} (channel : Fin m → UInt8) (c : Fin n) :
    UInt8 :=
  t.mean fun i j =>
    if h : s.cell w (t.under w c i j) < m then channel ⟨s.cell w (t.under w c i j), h⟩ else 0

namespace Between

variable {l m n : Nat} {first : Fin l → UInt8} {second : Fin m → UInt8} {third : Fin n → UInt8}

theorem refl (first : Fin l → UInt8) : Between first first :=
  fun c => ⟨c, c, UInt8.le_refl _, UInt8.le_refl _⟩

theorem trans (h₁ : Between first second) (h₂ : Between second third) : Between first third := by
  intro c
  obtain ⟨low, high, hlow, hhigh⟩ := h₂ c
  obtain ⟨low', -, hlow', -⟩ := h₁ low
  obtain ⟨-, high', -, hhigh'⟩ := h₁ high
  exact ⟨low', high', UInt8.le_trans hlow' hlow, UInt8.le_trans hhigh hhigh'⟩

end Between

section Mean

variable {s : Subsampling} {g : Nat → Nat → UInt8} {low high : Nat}

/-- A mean of samples is a sample; nothing is cut off. -/
theorem Subsampling.toNat_mean (s : Subsampling) (g : Nat → Nat → UInt8) :
    (s.mean g).toNat =
      (∑ j ∈ range s.down, ∑ i ∈ range s.across, (g i j).toNat) / (s.across * s.down) := by
  have hle := sum_rows_le (fun j i => g i j) s.across s.down
  have hlt : (∑ j ∈ range s.down, ∑ i ∈ range s.across, (g i j).toNat) /
      (s.across * s.down) ≤ 255 := by
    apply Nat.div_le_of_le_mul
    rwa [Nat.mul_comm]
  rw [Subsampling.mean, UInt8.toNat_ofNat', Nat.mod_eq_of_lt (Nat.lt_succ_of_le hlt)]

/-- **A mean lies in the range of its samples.** -/
theorem Subsampling.mean_between
    (hg : ∀ i < s.across, ∀ j < s.down, low ≤ (g i j).toNat ∧ (g i j).toNat ≤ high) :
    low ≤ (s.mean g).toNat ∧ (s.mean g).toNat ≤ high := by
  have hpos : 0 < s.across * s.down := Nat.mul_pos s.across_pos s.down_pos
  have hlow : ∑ _j ∈ range s.down, ∑ _i ∈ range s.across, low ≤
      ∑ j ∈ range s.down, ∑ i ∈ range s.across, (g i j).toNat :=
    sum_le_sum fun j hj => sum_le_sum fun i hi => (hg i (mem_range.1 hi) j (mem_range.1 hj)).1
  have hhigh : ∑ j ∈ range s.down, ∑ i ∈ range s.across, (g i j).toNat ≤
      ∑ _j ∈ range s.down, ∑ _i ∈ range s.across, high :=
    sum_le_sum fun j hj => sum_le_sum fun i hi => (hg i (mem_range.1 hi) j (mem_range.1 hj)).2
  have hconst : ∀ n : Nat, ∑ _j ∈ range s.down, ∑ _i ∈ range s.across, n =
      n * (s.across * s.down) := by
    intro n
    simp only [sum_const, card_range, smul_eq_mul]
    ring
  rw [hconst] at hlow hhigh
  rw [toNat_mean]
  constructor
  · exact (Nat.le_div_iff_mul_le hpos).2 hlow
  · exact Nat.div_le_of_le_mul (by rwa [Nat.mul_comm])

end Mean

section Samples

variable {a b f : Format} {s t : Subsampling} {w h : Nat} {k : Chroma} {x y : FrameBytes}
  {px : Nat → Pixel}

theorem Format.gridSize_eq (hs : f.grid? = some s) :
    f.gridSize w h = w / s.across * (h / s.down) := by
  rw [Format.gridSize, hs]
  rfl

/-- Where there is a sample there is a grid. -/
theorem Format.exists_grid {c : Nat} (hc : c < f.gridSize w h) : ∃ s, f.grid? = some s := by
  cases hs : f.grid? with
  | some s => exact ⟨s, rfl⟩
  | none => simp [Format.gridSize, hs] at hc

/-- The chroma that a pixel shows is the sample over it. -/
theorem sample_view (hf : Fit f w h) (hs : f.grid? = some s) (k : Chroma) (x : FrameBytes)
    (n : Nat) : k.ofPixel (f.layout.view w x n) = f.layout.sample k x (s.cell w n) := by
  rw [Format.grid?] at hs
  split at hs
  · rename_i hl
    cases hs
    rw [hl]
    cases k <;> rfl
  · rename_i hl
    cases hs
    rw [hl, Subsampling.cell_s422 (hf.even hl)]
    cases k <;> rfl
  · cases hs
  · cases hs

/-- The sample that is drawn for a block. -/
theorem sample_draw (hs : f.grid? = some s) (k : Chroma) (w : Nat) (px : Nat → Pixel) (c : Nat) :
    f.layout.sample k (f.layout.draw w px) c = chromaOf s w k.ofPixel px c := by
  rw [Format.grid?] at hs
  split at hs
  · rename_i o hl
    cases hs
    rw [hl]
    cases k <;> cases o <;> rfl
  · rename_i o hl
    cases hs
    obtain ⟨-, -, hu, hv⟩ := o.word_at (px (2 * c)).luma (px (2 * c + 1)).luma
      (chromaOf .s422 w Pixel.u px c) (chromaOf .s422 w Pixel.v px c)
    rw [hl, Layout.sample, draw_packed o w px c (k.position_lt o), Layout.macroOf]
    cases k with
    | u => exact hu
    | v => exact hv
  · cases hs
  · cases hs

/-- A sample is a byte of the frame. -/
theorem sample_congr (hf : Fit f w h)
    (hxy : ∀ i < f.planeCount, ∀ j < f.planeSize w h i, x i j = y i j) (k : Chroma) {c : Nat}
    (hc : c < f.gridSize w h) : f.layout.sample k x c = f.layout.sample k y c := by
  cases hl : f.layout with
  | planar p =>
    cases p with
    | luma => rfl
    | chroma s o =>
      have hplane := k.plane_eq o
      rw [Format.gridSize_eq (s := s) (by rw [Format.grid?, hl])] at hc
      refine hxy _ ?_ c ?_
      · rw [Format.planeCount_chroma hl]
        omega
      · rwa [Format.planeSize_chroma hl hplane]
  | packed o =>
    have hk := k.position_lt o
    rw [Format.gridSize_eq (s := .s422) (by rw [Format.grid?, hl])] at hc
    simp only [Subsampling.across, Subsampling.down, Nat.div_one] at hc
    obtain ⟨v, rfl⟩ := hf.even hl
    rw [Nat.mul_div_cancel_left v two_pos] at hc
    refine hxy 0 f.planeCount_pos _ ?_
    rw [Format.planeSize_zero_packed hl, Nat.mul_assoc 2 v h]
    omega
  | pixels l => rfl

/-- What the pixels of a block have over them is in the channel. -/
theorem cell_under_lt (ha : Fit a w h) (hb : Fit b w h) (hs : a.grid? = some s)
    (ht : b.grid? = some t) (c : Fin (b.gridSize w h)) {i j : Nat} (hi : i < t.across)
    (hj : j < t.down) : s.cell w (t.under w c i j) < a.gridSize w h := by
  obtain ⟨hsw, hsh⟩ := ha.divides s hs
  obtain ⟨htw, hth⟩ := hb.divides t ht
  have hc : (c : Nat) < w / t.across * (h / t.down) := by
    rw [← Format.gridSize_eq ht]
    exact c.isLt
  rw [Format.gridSize_eq hs]
  exact Subsampling.cell_lt hsw hsh (Subsampling.under_lt htw hth hc hi hj)

/-- **A conversion takes a channel from grid to grid.** -/
theorem channel_translated (ha : Fit a w h) (hb : Fit b w h) (hs : a.grid? = some s)
    (ht : b.grid? = some t) (k : Chroma) (x : FrameBytes) :
    b.channel w h k (Layout.translated a.layout b.layout w x) =
      regrid s t w (a.channel w h k x) := by
  funext c
  rw [Format.channel, Layout.translated, sample_draw ht,
    chromaOf_yuv (isRgb_view (Format.isYuv_of_grid hs) w x), regrid]
  refine Subsampling.mean_congr fun i hi j hj => ?_
  rw [sample_view ha hs, dif_pos (cell_under_lt ha hb hs ht c hi hj), Format.channel]

/-- **No sample leaves the range of the channel it was taken from.** -/
theorem between_regrid {m n : Nat} {channel : Fin m → UInt8}
    (hin : ∀ c : Fin n, ∀ i < t.across, ∀ j < t.down, s.cell w (t.under w c i j) < m) :
    Between channel (regrid s t w channel : Fin n → UInt8) := by
  intro c
  have : Nonempty (Fin m) := ⟨⟨_, hin c 0 t.across_pos 0 t.down_pos⟩⟩
  obtain ⟨low, hlow⟩ := Finite.exists_min fun c => (channel c).toNat
  obtain ⟨high, hhigh⟩ := Finite.exists_max fun c => (channel c).toNat
  refine ⟨low, high, ?_⟩
  rw [UInt8.le_iff_toNat_le, UInt8.le_iff_toNat_le]
  refine Subsampling.mean_between fun i hi j hj => ?_
  rw [dif_pos (hin c i hi j hj)]
  exact ⟨hlow _, hhigh _⟩

/-- The samples of a channel are those of the frame that the planes carry. -/
theorem Carries.channel {planes : List Plane} (hf : Fit f w h) (hp : Carries f w h x planes)
    (k : Chroma) : f.channel w h k (bytesOf planes) = f.channel w h k x :=
  funext fun c => sample_congr hf hp.byte k c.isLt

/-- **Nor along a journey,** by induction over its formats. -/
theorem between_along (k : Chroma) {bs : List Format} : ∀ {a x}, Fit a w h → a.grid?.isSome →
    (∀ b ∈ bs, Fit b w h ∧ b.grid?.isSome) →
      Between (a.channel w h k x) ((bs.getLastD a).channel w h k (along w a x bs)) := by
  intro a x ha hs hbs
  induction bs generalizing a x with
  | nil => exact .refl _
  | cons b bs ih =>
    obtain ⟨hb, ht⟩ := hbs b List.mem_cons_self
    obtain ⟨s, hs⟩ := Option.isSome_iff_exists.1 hs
    obtain ⟨t, ht'⟩ := Option.isSome_iff_exists.1 ht
    have hstep : Between (a.channel w h k x)
        (b.channel w h k (Layout.translated a.layout b.layout w x)) := by
      rw [channel_translated ha hb hs ht']
      exact between_regrid fun c i hi j hj => cell_under_lt ha hb hs ht' c hi hj
    rw [List.getLastD_cons, along]
    exact hstep.trans (ih hb ht fun c hc => hbs c (List.mem_cons_of_mem b hc))

end Samples

namespace Engine

/-- **Chroma channels never mix and never overshoot.**  For formats with chroma, and sides fit
for both, one function of a single channel gives each channel of every converted frame from
that channel of the source: it does not depend on luma, on the other channel or on which of
the two it is.  So a source with its channels exchanged becomes a frame with its channels
exchanged.  Along a journey of any length over such formats, each leg into other planes or
where the frame stands, every sample at the end lies between two samples that its channel had
in the beginning. -/
theorem chroma_channels_never_mix (w h : UInt32) :
    (∀ a b : Format, a.grid?.isSome = true → b.grid?.isSome = true → Fit a w.toNat h.toNat →
      Fit b w.toNat h.toNat →
        ∃ ρ : (Fin (a.gridSize w.toNat h.toNat) → UInt8) →
            Fin (b.gridSize w.toNat h.toNat) → UInt8,
          ∀ m src dst, (build m).supports a b = true → Holds a w.toNat h.toNat src →
            Holds b w.toNat h.toNat dst →
              ∃ out, (build m).convert a b w.toNat h.toNat src dst = ⟨out, none⟩ ∧
                (∀ k, b.channel w.toNat h.toNat k (bytesOf out) =
                  ρ (a.channel w.toNat h.toNat k (bytesOf src))) ∧
                ∀ src' dst', Holds a w.toNat h.toNat src' → Holds b w.toNat h.toNat dst' →
                  (∀ k, a.channel w.toNat h.toNat k (bytesOf src') =
                    a.channel w.toNat h.toNat k.other (bytesOf src)) →
                  ∃ out', (build m).convert a b w.toNat h.toNat src' dst' = ⟨out', none⟩ ∧
                    ∀ k, b.channel w.toNat h.toNat k (bytesOf out') =
                      b.channel w.toNat h.toNat k.other (bytesOf out)) ∧
      ∀ m a src legs, a.grid?.isSome = true → Fit a w.toNat h.toNat →
        Holds a w.toNat h.toNat src → (∀ leg ∈ legs, leg.target.grid?.isSome = true) →
        Ready (build m) w.toNat h.toNat a legs →
          ∃ out, (build m).journey w.toNat h.toNat a src legs = ⟨out, none⟩ ∧
            ∀ k, Between (a.channel w.toNat h.toNat k (bytesOf src))
              (((legs.map Leg.target).getLastD a).channel w.toNat h.toNat k (bytesOf out)) := by
  have hw := w.toNat_lt
  have hh := h.toNat_lt
  constructor
  · intro a b hs ht hfa hfb
    obtain ⟨s, hs⟩ := Option.isSome_iff_exists.1 hs
    obtain ⟨t, ht⟩ := Option.isSome_iff_exists.1 ht
    -- one function for every source, whatever its planes
    have hone : ∀ m src dst, (build m).supports a b = true → Holds a w.toNat h.toNat src →
        Holds b w.toNat h.toNat dst →
          ∃ out, (build m).convert a b w.toNat h.toNat src dst = ⟨out, none⟩ ∧
            ∀ k, b.channel w.toNat h.toNat k (bytesOf out) =
              regrid s t w.toNat (a.channel w.toNat h.toNat k (bytesOf src)) := by
      intro m src dst hab hsrc hdst
      obtain ⟨out, hout, ho⟩ := convert_of_valid hab ⟨hw, hh, hfa, hfb, hsrc, hdst⟩
      refine ⟨out, hout, fun k => ?_⟩
      rw [(ho.carries hdst).channel hfb, channel_translated hfa hfb hs ht]
    refine ⟨regrid s t w.toNat, fun m src dst hab hsrc hdst => ?_⟩
    obtain ⟨out, hout, hρ⟩ := hone m src dst hab hsrc hdst
    refine ⟨out, hout, hρ, fun src' dst' hsrc' hdst' hexchanged => ?_⟩
    obtain ⟨out', hout', hρ'⟩ := hone m src' dst' hab hsrc' hdst'
    refine ⟨out', hout', fun k => ?_⟩
    rw [hρ', hexchanged, hρ]
  · intro m a src legs hs hfit hsrc hchroma hr
    obtain ⟨out, hout, ho⟩ := journey_of_ready hw hh hfit hsrc.carries hr
    refine ⟨out, hout, fun k => ?_⟩
    rw [ho.channel (fit_last_of_ready hfit hr)]
    exact between_along k hfit hs (targets_of_ready hfit hr hchroma)

/-- Two by two pixels of `YV12` and the same with their channels exchanged, both to `YUY2`; and
from `YV12` into `YUY2`, to `UYVY` where they stand, and into `YUV444P`. -/
theorem channels_of_yv12_apart :
    (∃ out out',
      (build .detected).convert .yv12 .yuy2 2 2 [#[16, 81, 145, 235], #[240], #[90]]
        [.replicate 8 0] = ⟨out, none⟩ ∧
      (build .detected).convert .yv12 .yuy2 2 2 [#[0, 0, 0, 0], #[90], #[240]]
        [.replicate 9 7] = ⟨out', none⟩ ∧
      ∀ k, Format.yuy2.channel 2 2 k (bytesOf out') =
        Format.yuy2.channel 2 2 k.other (bytesOf out)) ∧
    ∃ out,
      (build .detected).journey 2 2 .yv12 [#[16, 81, 145, 235], #[240], #[90]]
        [.fresh .yuy2 [.replicate 8 0], .inPlace .uyvy,
          .fresh .yuv444p [.replicate 4 0, .replicate 4 0, .replicate 4 0]] = ⟨out, none⟩ ∧
      ∀ k, Between (Format.yv12.channel 2 2 k (bytesOf [#[16, 81, 145, 235], #[240], #[90]]))
        (Format.yuv444p.channel 2 2 k (bytesOf out)) := by
  obtain ⟨hone, hchain⟩ := chroma_channels_never_mix 2 2
  constructor
  · obtain ⟨ρ, hρ⟩ := hone .yv12 .yuy2 rfl rfl (by decide) (by decide)
    obtain ⟨out, hout, -, hexchanged⟩ := hρ .detected [#[16, 81, 145, 235], #[240], #[90]]
      [.replicate 8 0] (supports_build _ _ _) (by decide) (by decide)
    obtain ⟨out', hout', hsame⟩ := hexchanged [#[0, 0, 0, 0], #[90], #[240]] [.replicate 9 7]
      (by decide) (by decide) (by
        intro k
        cases k <;> rfl)
    exact ⟨out, out', hout, hout', hsame⟩
  · exact hchain .detected .yv12 [#[16, 81, 145, 235], #[240], #[90]]
      [.fresh .yuy2 [.replicate 8 0], .inPlace .uyvy,
        .fresh .yuv444p [.replicate 4 0, .replicate 4 0, .replicate 4 0]]
      rfl (by decide) (by decide) (by simp [Leg.target, Format.grid?, Format.layout])
      ⟨.fresh rfl (by decide) (by decide), exists_lookup _ (by decide),
        .fresh rfl (by decide) (by decide), trivial⟩

end Engine
end FrameConvert
