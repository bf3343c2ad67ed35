/-
# Limited range

Limited-range video has its luma in `16` to `235` and its chroma in `16` to `240`.  A pixel is legal
if what a YUV format would draw of it alone is there.  Every colour is legal, because the formula
leaves nothing for its clamp to do (`legal_rgb`); and what may be done with legal pixels leaves
legal ones:

| a chroma sample is | it is legal because |
| --- | --- |
| taken at the corner of a block | the pixel there is |
| the mean over a block | a mean is among its samples (`Subsampling.mean_between`) |
| neutral | `128` is |

So a YUV frame drawn from legal pixels has legal bytes (`legal_draw`) and shows legal pixels again
(`legal_kept`), and by induction over the formats of a journey so do all later ones
(`legal_along`).
-/

import FrameConvert.Proofs.SampleFormula
import Mathlib.Algebra.Order.Ring.Abs
import Mathlib.Algebra.Order.Ring.Int

namespace FrameConvert

/-- A byte in limited range, as luma or as chroma. -/
def LegalByte (luma : Bool) (v : UInt8) : Prop :=
  16 ≤ v.toNat ∧ v.toNat ≤ if luma then 235 else 240

/-- Luma and chroma of a pixel are in limited range. -/
structure Pixel.Legal (p : Pixel) : Prop where
  luma : LegalByte true p.luma
  chroma : ∀ k : Chroma, LegalByte false (k.ofPixel p)

namespace Format

/-- Byte `j` of plane `i` of a YUV frame is luma. -/
def isLuma (f : Format) (i j : Nat) : Bool :=
  match f.layout with
  | .planar _ => i == 0
  | .packed o => j % 4 == o.y₀ || j % 4 == o.y₁
  | .pixels _ => false

/-- Every byte of a YUV frame is in limited range. -/
def Legal (f : Format) (w h : Nat) (x : FrameBytes) : Prop :=
  ∀ i < f.planeCount, ∀ j < f.planeSize w h i, LegalByte (f.isLuma i j) (x i j)

/-- What is not YUV is pixels. -/
theorem exists_pixels {f : Format} (hf : f.isYuv = false) : ∃ l, f.layout = .pixels l := by
  cases f <;> first | exact ⟨_, rfl⟩ | cases hf

end Format

section Pixels

variable {f : Format} {w h : Nat} {px : Nat → Pixel}

/-- **Every colour is legal.** -/
theorem legal_rgb (c : Rgb) (α : UInt8) : (Pixel.rgb c α).Legal := by
  have hy := FixedPoint.unclampedLuma_legal c
  have hu := FixedPoint.unclampedU_legal c
  have hv := FixedPoint.unclampedV_legal c
  rw [← FixedPoint.toNat_lumaOf] at hy
  rw [← FixedPoint.toNat_uOf] at hu
  rw [← FixedPoint.toNat_vOf] at hv
  constructor
  · exact ⟨by exact_mod_cast hy.1, by exact_mod_cast hy.2⟩
  · rintro (_ | _)
    · exact ⟨by exact_mod_cast hu.1, by exact_mod_cast hu.2⟩
    · exact ⟨by exact_mod_cast hv.1, by exact_mod_cast hv.2⟩

theorem legal_neutral : LegalByte false neutral := by
  constructor <;> decide

/-- **A chroma sample of legal pixels is legal,** at a corner as well as in the mean. -/
theorem legal_chromaOf (hpx : ∀ n, (px n).Legal) (k : Chroma) (s : Subsampling) (w c : Nat) :
    LegalByte false (chromaOf s w k.ofPixel px c) := by
  unfold chromaOf
  split
  · exact (hpx _).chroma k
  · exact Subsampling.mean_between fun i _ j _ => (hpx (s.under w c i j)).chroma k

/-- **What a YUV format keeps of legal pixels is legal.** -/
theorem legal_kept (hf : f.isYuv = true) (hpx : ∀ n, (px n).Legal) (w n : Nat) :
    (f.content.kept w px n).Legal := by
  rw [content_yuv hf]
  cases f.grid? with
  | none =>
    constructor
    · exact (hpx n).luma
    · rintro (_ | _) <;> exact legal_neutral
  | some s =>
    constructor
    · exact (hpx n).luma
    · rintro (_ | _)
      · exact legal_chromaOf hpx .u s w _
      · exact legal_chromaOf hpx .v s w _

/-- The bytes of a macro pixel are legal where its samples are. -/
theorem legal_word (o : MacroOrder) {y₀ y₁ u v : UInt8} (h₀ : LegalByte true y₀)
    (h₁ : LegalByte true y₁) (hu : LegalByte false u) (hv : LegalByte false v) {r : Nat}
    (hr : r < 4) : LegalByte (r == o.y₀ || r == o.y₁) ((o.word y₀ y₁ u v).getD r 0) := by
  cases o <;> interval_cases r <;> assumption

/-- **A YUV frame that is drawn of legal pixels has legal bytes.** -/
theorem legal_draw (hf : f.isYuv = true) (hpx : ∀ n, (px n).Legal) (w h : Nat) :
    f.Legal w h (f.layout.draw w px) := by
  intro i hi j hj
  unfold Format.isLuma
  cases hl : f.layout with
  | planar p =>
    cases p with
    | luma =>
      rw [Format.planeCount_luma hl] at hi
      obtain rfl : i = 0 := by omega
      exact (hpx j).luma
    | chroma s o =>
      simp only [Layout.draw]
      split
      · rename_i h0
        subst h0
        exact (hpx j).luma
      · rename_i h0
        rw [beq_false_of_ne h0]
        split
        · exact legal_chromaOf hpx .u s w j
        · exact legal_chromaOf hpx .v s w j
  | packed o =>
    have hr : j % 4 < 4 := Nat.mod_lt j (by decide)
    exact legal_word o (hpx _).luma (hpx _).luma (legal_chromaOf hpx .u .s422 w _)
      (legal_chromaOf hpx .v .s422 w _) hr
  | pixels l =>
    rw [Format.isYuv_pixels hl] at hf
    cases hf

end Pixels

section Frames

variable {a b f : Format} {w h : Nat} {x : FrameBytes} {planes : List Plane}

/-- A frame of colours shows legal pixels. -/
theorem legal_view_colour (ha : a.isYuv = false) (w : Nat) (x : FrameBytes) (n : Nat) :
    (a.layout.view w x n).Legal := by
  obtain ⟨l, hl⟩ := Format.exists_pixels ha
  rw [hl]
  exact legal_rgb _ _

/-- **Legal pixels stay legal along YUV formats,** however many: one conversion after the other. -/
theorem legal_along {bs : List Format} : ∀ {a x}, (∀ b ∈ bs, Fit b w h ∧ b.isYuv = true) →
    (∀ n, (a.layout.view w x n).Legal) →
      ∀ n, ((bs.getLastD a).layout.view w (along w a x bs) n).Legal := by
  intro a x hbs hx n
  induction bs generalizing a x with
  | nil => exact hx n
  | cons b bs ih =>
    obtain ⟨hfit, hb⟩ := hbs b List.mem_cons_self
    rw [List.getLastD_cons, along]
    refine ih (fun c hc => hbs c (List.mem_cons_of_mem b hc)) fun n => ?_
    rw [Layout.translated, view_draw hfit]
    exact legal_kept hb hx w n

/-- **Planes that carry a YUV frame of legal pixels** have its bytes, all of them legal. -/
theorem Carries.legal (hf : Fit f w h) (hyuv : f.isYuv = true) (hp : Carries f w h x planes)
    (hx : ∀ n, (f.layout.view w x n).Legal) : f.Legal w h (bytesOf planes) := by
  intro i hi j hj
  rw [bytesOf, hp.byte i hi j hj, ← draw_view hf x hi hj]
  exact legal_draw hyuv hx w h i hi j hj

end Frames

namespace Table

/-- The tables of the transforms. -/
def all : List Products :=
  [luma, redOfV, greenOfU, greenOfV, blueOfU, lumaOfRed, lumaOfGreen, lumaOfBlue, uOfRed, uOfGreen,
    uOfBlue, vOfGreen, vOfBlue, grayOfRed, grayOfGreen, grayOfBlue]

/-- A product of a coefficient of 18 bits with a difference of samples is far from the ends of the
signed words. -/
theorem signed_products {k z b : Int} (hk : -131072 ≤ k ∧ k ≤ 131072) (hz : 0 ≤ z ∧ z ≤ 128)
    (hb : 0 ≤ b ∧ b ≤ FixedPoint.half) (v : UInt8) :
    signed ((products k z b).of v) = .ok ((products k z b).of v) := by
  have hv := v.toNat_lt
  have hdiff : |(v.toNat : Int) - z| ≤ 255 := abs_le.2 ⟨by omega, by omega⟩
  have hproduct : |k * ((v.toNat : Int) - z)| ≤ 131072 * 255 := by
    rw [abs_mul]
    exact mul_le_mul (abs_le.2 hk) hdiff (abs_nonneg _) (by decide)
  obtain ⟨hlow, hhigh⟩ := abs_le.1 hproduct
  rw [products_of]
  unfold FixedPoint.half at hb
  exact signed_eq_ok (by omega)

/-- **Every entry of every table is a signed word.** -/
theorem signed_of_mem_all {t : Products} (ht : t ∈ all) (v : UInt8) :
    signed (t.of v) = .ok (t.of v) := by
  have hform : ∃ k z b, t = products k z b ∧ (-131072 ≤ k ∧ k ≤ 131072) ∧ (0 ≤ z ∧ z ≤ 128) ∧
      0 ≤ b ∧ b ≤ FixedPoint.half := by
    simp only [all, List.mem_cons, List.not_mem_nil, or_false] at ht
    rcases ht with rfl | rfl | rfl | rfl | rfl | rfl | rfl | rfl | rfl | rfl | rfl | rfl | rfl |
      rfl | rfl | rfl <;> exact ⟨_, _, _, rfl, by decide, by decide, by decide⟩
  obtain ⟨k, z, b, rfl, hk, hz, hb⟩ := hform
  exact signed_products hk hz hb v

end Table

namespace Engine

open FixedPoint

/-- **What becomes of colours is legal video, and remains so.**  A frame of pixels, colour or gray,
converts into every YUV format, and each of its luma bytes is in `16` to `235` there and each chroma
byte in `16` to `240`.  Along any further conversions between YUV formats, into other planes or
where the frame stands, this stays so.  No clamp on the way into YUV has anything to do: the clamped
number is the number.  And neither there nor on the way back, whatever the samples, does a sum or an
entry of a table leave the signed words. -/
theorem converted_colours_are_legal (w h : UInt32) :
    (∀ m a b src dst, a.isYuv = false → b.isYuv = true → Fit b w.toNat h.toNat →
      Holds a w.toNat h.toNat src → Holds b w.toNat h.toNat dst →
        ∃ out, (build m).convert a b w.toNat h.toNat src dst = ⟨out, none⟩ ∧
          b.Legal w.toNat h.toNat (bytesOf out)) ∧
      (∀ m a src legs, a.isYuv = false → Fit a w.toNat h.toNat → Holds a w.toNat h.toNat src →
        legs ≠ [] → (∀ leg ∈ legs, leg.target.isYuv = true) →
        Ready (build m) w.toNat h.toNat a legs →
          ∃ out, (build m).journey w.toNat h.toNat a src legs = ⟨out, none⟩ ∧
            ((legs.map Leg.target).getLastD a).Legal w.toNat h.toNat (bytesOf out)) ∧
      (∀ c : Rgb, ∃ y u v, Table.lumaOf c = .ok y ∧ Table.uOf c = .ok u ∧ Table.vOf c = .ok v ∧
        (LegalByte true y ∧ (y.toNat : Int) = unclampedLuma c) ∧
        (LegalByte false u ∧ (u.toNat : Int) = unclampedU c) ∧
        LegalByte false v ∧ (v.toNat : Int) = unclampedV c) ∧
      (∀ y u v, ∃ c, Table.rgb y u v = .ok c) ∧
      ∀ t ∈ Table.all, ∀ v, signed (t.of v) = .ok (t.of v) := by
  have hw := w.toNat_lt
  have hh := h.toNat_lt
  refine ⟨fun m a b src dst ha hb hfit hs hd => ?_,
    fun m a src legs ha hfit hs hne hyuv hr => ?_, fun c => ?_,
    fun y u v => ⟨_, Table.rgb_eq_ok y u v⟩, fun t ht v => Table.signed_of_mem_all ht v⟩
  · obtain ⟨l, hl⟩ := Format.exists_pixels ha
    have hab := (supports_build m a b).trans (isSome_portable?_colour (.inl ha))
    obtain ⟨out, hout, ho⟩ := convert_of_valid hab ⟨hw, hh, hfit.pixels hl, hfit, hs, hd⟩
    refine ⟨out, hout, fun i hi j hj => ?_⟩
    rw [bytesOf, ho.byte hd hi hj]
    exact legal_draw hb (legal_view_colour ha w.toNat _) w.toNat h.toNat i hi j hj
  · obtain ⟨out, hout, ho⟩ := journey_of_ready hw hh hfit hs.carries hr
    have hlast := last_target (P := fun f => f.isYuv = true) hne hyuv a
    refine ⟨out, hout, ho.legal (fit_last_of_ready hfit hr) hlast ?_⟩
    exact legal_along (targets_of_ready hfit hr hyuv) (legal_view_colour ha w.toNat _)
  · have hlegal := legal_rgb c 0
    exact ⟨_, _, _, Table.lumaOf_eq_ok c, Table.uOf_eq_ok c, Table.vOf_eq_ok c,
      ⟨hlegal.luma, toNat_lumaOf c⟩, ⟨hlegal.chroma .u, toNat_uOf c⟩, hlegal.chroma .v,
      toNat_vOf c⟩

/-- Red and cyan, yellow and blue in `RGB24`, into `YUV420P`, to `YV12` where they stand, and into
`YUY2`; and the clamp for red, which is at the end of V. -/
theorem four_colours_stay_legal :
    (∃ out, (build .detected).journey 2 2 .rgb24
        [#[255, 0, 0, 0, 255, 255, 255, 255, 0, 0, 0, 255]]
        [.fresh .yuv420p [.replicate 4 0, #[0], #[0]], .inPlace .yv12,
          .fresh .yuy2 [.replicate 8 0]] = ⟨out, none⟩ ∧
      Format.yuy2.Legal 2 2 (bytesOf out)) ∧
    ∃ v, Table.vOf ⟨255, 0, 0⟩ = .ok v ∧ (v.toNat : Int) = 240 := by
  obtain ⟨-, hjourney, hclamp, -⟩ := converted_colours_are_legal 2 2
  constructor
  · exact hjourney .detected .rgb24 [#[255, 0, 0, 0, 255, 255, 255, 255, 0, 0, 0, 255]]
      [.fresh .yuv420p [.replicate 4 0, #[0], #[0]], .inPlace .yv12,
        .fresh .yuy2 [.replicate 8 0]] rfl (by decide) (by decide) (by simp)
      (by simp [Leg.target, Format.isYuv, Format.code])
      ⟨.fresh rfl (by decide) (by decide), exists_lookup _ (by decide),
        .fresh rfl (by decide) (by decide), trivial⟩
  · obtain ⟨y, u, v, -, -, hv, -, -, -, hclamped⟩ := hclamp ⟨255, 0, 0⟩
    exact ⟨v, hv, hclamped.trans (by decide)⟩

end Engine
end FrameConvert
