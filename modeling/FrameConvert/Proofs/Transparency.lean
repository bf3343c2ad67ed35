/-
# Alpha over journeys

A conversion leaves of a pixel's alpha what the target has room for: the alpha it had, or `0`
(`alphaAt_translated`).  Along a journey therefore the first format without alpha decides:

| formats of the journey | alpha at the end |
| --- | --- |
| all with alpha | that of the beginning, pixel by pixel |
| one without | `0` |

The other way round, nothing but alpha is drawn of alpha.  Two frames that differ in alpha bytes
alone show the same pixels once alpha is cleared (`clear_view_congr`), so they are translated
into frames that differ in alpha bytes alone (`alikeButAlpha_translated`), and so along every
journey.
-/

import FrameConvert.Proofs.Journey
import FrameConvert.Proofs.Alpha

namespace FrameConvert

/-- The alpha byte of pixel `n` of a frame; `0` where pixels have none. -/
def Format.alphaAt (f : Format) (x : FrameBytes) (n : Nat) : UInt8 :=
  match f.layout with
  | .pixels l => l.alphaIn (x 0) (n * l.channels)
  | .planar _ | .packed _ => 0

/-- Two frames have the same bytes but for alpha. -/
def AlikeButAlpha (f : Format) (w h : Nat) (x y : FrameBytes) : Prop :=
  ∀ i < f.planeCount, ∀ j < f.planeSize w h i, f.isAlpha j = false → x i j = y i j

instance (f : Format) (w h : Nat) (x y : FrameBytes) : Decidable (AlikeButAlpha f w h x y) :=
  inferInstanceAs (Decidable (∀ i < f.planeCount, ∀ j < f.planeSize w h i, _))

section Carried

variable {a b f : Format} {w h : Nat} {x : FrameBytes}

theorem alphaAt_eq_alpha (f : Format) (w : Nat) (x : FrameBytes) (n : Nat) :
    f.alphaAt x n = (f.layout.view w x n).alpha := by
  unfold Format.alphaAt
  cases f.layout with
  | planar p => cases p <;> rfl
  | packed o => rfl
  | pixels l => rfl

theorem alphaAt_of_opaque (hf : f.hasAlpha = false) (x : FrameBytes) (n : Nat) :
    f.alphaAt x n = 0 := by
  rw [alphaAt_eq_alpha f 0, ← clear_view hf, Pixel.alpha_clear]

/-- What a format keeps of alpha. -/
theorem alpha_kept (f : Format) (w : Nat) (px : Nat → Pixel) (n : Nat) :
    (f.content.kept w px n).alpha = if f.hasAlpha = true then (px n).alpha else 0 := by
  cases f <;> rfl

/-- **One conversion keeps alpha or clears it.** -/
theorem alphaAt_translated (hb : Fit b w h) (a : Format) (x : FrameBytes) (n : Nat) :
    b.alphaAt (Layout.translated a.layout b.layout w x) n =
      if b.hasAlpha = true then a.alphaAt x n else 0 := by
  rw [alphaAt_eq_alpha b w, Layout.translated, view_draw hb, alpha_kept, ← alphaAt_eq_alpha]

/-- **A journey keeps alpha if every format on it does,** and clears it otherwise. -/
theorem alphaAt_along {bs : List Format} : ∀ {a x}, (∀ b ∈ bs, Fit b w h) → ∀ n,
    (bs.getLastD a).alphaAt (along w a x bs) n =
      if ∀ b ∈ a :: bs, b.hasAlpha = true then a.alphaAt x n else 0 := by
  intro a x hbs n
  induction bs generalizing a x with
  | nil =>
    change a.alphaAt x n = _
    split
    · rfl
    · rename_i hopaque
      exact alphaAt_of_opaque (by simpa using hopaque) x n
  | cons b bs ih =>
    rw [List.getLastD_cons, along, ih fun c hc => hbs c (List.mem_cons_of_mem b hc),
      alphaAt_translated (hbs b List.mem_cons_self)]
    cases ha : a.hasAlpha with
    | false => simp [ha, alphaAt_of_opaque ha]
    | true =>
      simp only [List.forall_mem_cons, ha, true_and]
      split
      · rename_i hall
        rw [if_pos hall.1]
      · rfl

/-- The alpha of a frame is that of the frame that the planes carry. -/
theorem Carries.alphaAt {planes : List Plane} {n : Nat} (hf : Fit f w h)
    (hp : Carries f w h x planes) (hn : n < w * h) :
    f.alphaAt (bytesOf planes) n = f.alphaAt x n := by
  rw [alphaAt_eq_alpha f w, alphaAt_eq_alpha f w]
  exact congrArg Pixel.alpha (view_congr hf hp.byte hn)

end Carried

section Alike

variable {a b f : Format} {w h : Nat} {x y : FrameBytes}

/-- Colour bytes are no alpha bytes. -/
theorem isAlpha_of_colour {k : PixelOrder} (hf : f.layout = .pixels (.colour k)) (n : Nat) {r : Nat}
    (hr : r = k.r ∨ r = k.g ∨ r = k.b) : f.isAlpha (n * k.channels + r) = false := by
  have hlt := k.position_lt
  have hr' : r < k.channels := by omega
  simp only [Format.isAlpha, hf, (index_div_mod n hr').2]
  rcases hr with rfl | rfl | rfl <;> cases k <;> rfl

/-- **Frames that are alike but for alpha show the same once it is cleared.** -/
theorem clear_view_congr (hf : Fit f w h) (hxy : AlikeButAlpha f w h x y) {n : Nat}
    (hn : n < w * h) : (f.layout.view w x n).clear = (f.layout.view w y n).clear := by
  cases hα : f.hasAlpha with
  | false =>
    refine congrArg Pixel.clear (view_congr hf (fun i hi j hj => ?_) hn)
    exact hxy i hi j hj (Format.isAlpha_eq_false hα j)
  | true =>
    obtain ⟨k, hl⟩ : ∃ k, f.layout = .pixels (.colour k) := by
      cases f <;> first | exact ⟨_, rfl⟩ | cases hα
    have hbyte : ∀ r, r = k.r ∨ r = k.g ∨ r = k.b →
        x 0 (n * k.channels + r) = y 0 (n * k.channels + r) := by
      intro r hr
      have hlt := k.position_lt
      refine hxy 0 f.planeCount_pos _ ?_ (isAlpha_of_colour hl n hr)
      rw [Format.planeSize_zero_pixels hl, Nat.mul_comm (w * h)]
      exact index_lt (show r < k.channels by omega) hn
    simp only [hl, Layout.view, Pixel.clear, PixelLayout.colourIn, PixelLayout.channels]
    rw [hbyte k.r (by simp), hbyte k.g (by simp), hbyte k.b (by simp)]

/-- **Alpha is drawn into alpha alone.** -/
theorem alikeButAlpha_translated (ha : Fit a w h) (hb : Fit b w h)
    (hxy : AlikeButAlpha a w h x y) :
    AlikeButAlpha b w h (Layout.translated a.layout b.layout w x)
      (Layout.translated a.layout b.layout w y) := by
  intro i hi j hj hα
  have hclear : ∀ px, b.layout.draw w (fun n => (px n).clear) i j = b.layout.draw w px i j := by
    intro px
    rw [draw_clear, if_neg (by simp [hα])]
  calc b.layout.draw w (a.layout.view w x) i j
      = b.layout.draw w (fun n => (a.layout.view w x n).clear) i j := (hclear _).symm
    _ = b.layout.draw w (fun n => (a.layout.view w y n).clear) i j :=
        draw_congr hb (fun n hn => clear_view_congr ha hxy hn) hi hj
    _ = b.layout.draw w (a.layout.view w y) i j := hclear _

/-- **Nor does it leave alpha along a journey.** -/
theorem alikeButAlpha_along {bs : List Format} : ∀ {a x y}, Fit a w h →
    (∀ b ∈ bs, Fit b w h) → AlikeButAlpha a w h x y →
      AlikeButAlpha (bs.getLastD a) w h (along w a x bs) (along w a y bs) := by
  intro a x y ha hbs hxy
  induction bs generalizing a x y with
  | nil => exact hxy
  | cons b bs ih =>
    have hb := hbs b List.mem_cons_self
    rw [List.getLastD_cons, along, along]
    exact ih hb (fun c hc => hbs c (List.mem_cons_of_mem b hc)) (alikeButAlpha_translated ha hb hxy)

/-- Planes are alike but for alpha as the frames that they carry. -/
theorem Carries.alikeButAlpha {xs ys : List Plane} (hx : Carries f w h x xs)
    (hy : Carries f w h y ys) (hxy : AlikeButAlpha f w h x y) :
    AlikeButAlpha f w h (bytesOf xs) (bytesOf ys) := by
  intro i hi j hj hα
  calc bytesOf xs i j = x i j := hx.byte i hi j hj
    _ = y i j := hxy i hi j hj hα
    _ = bytesOf ys i j := (hy.byte i hi j hj).symm

end Alike

namespace Engine

/-- **Alpha is carried over whole journeys or cleared, and never leaks.**  A journey of any
length, each leg into other planes or where the frame stands, that ends in a format with alpha
ends with the alpha that every pixel had in the beginning if all formats have alpha, and with
`0` otherwise.  Two frames of one format that differ in alpha bytes alone come along the same
formats, whichever they are, to frames that differ in alpha bytes alone. -/
theorem alpha_is_carried_and_never_leaks (m : Mask) {a : Format} (w h : UInt32)
    (ha : Fit a w.toNat h.toNat) :
    (∀ src legs, Holds a w.toNat h.toNat src → Ready (build m) w.toNat h.toNat a legs →
      ((legs.map Leg.target).getLastD a).hasAlpha = true →
        ∃ out, (build m).journey w.toNat h.toNat a src legs = ⟨out, none⟩ ∧
          ∀ n < w.toNat * h.toNat,
            ((legs.map Leg.target).getLastD a).alphaAt (bytesOf out) n =
              if ∀ f ∈ a :: legs.map Leg.target, f.hasAlpha = true then a.alphaAt (bytesOf src) n
              else 0) ∧
      ∀ src src' legs legs', Holds a w.toNat h.toNat src → Holds a w.toNat h.toNat src' →
        AlikeButAlpha a w.toNat h.toNat (bytesOf src) (bytesOf src') →
        legs'.map Leg.target = legs.map Leg.target → Ready (build m) w.toNat h.toNat a legs →
        Ready (build m) w.toNat h.toNat a legs' →
          ∃ out out', (build m).journey w.toNat h.toNat a src legs = ⟨out, none⟩ ∧
            (build m).journey w.toNat h.toNat a src' legs' = ⟨out', none⟩ ∧
            AlikeButAlpha ((legs.map Leg.target).getLastD a) w.toNat h.toNat (bytesOf out)
              (bytesOf out') := by
  have hw := w.toNat_lt
  have hh := h.toNat_lt
  constructor
  · intro src legs hs hr _
    obtain ⟨out, hout, ho⟩ := journey_of_ready hw hh ha hs.carries hr
    refine ⟨out, hout, fun n hn => ?_⟩
    rw [ho.alphaAt (fit_last_of_ready ha hr) hn, alphaAt_along (fit_of_ready ha hr)]
  · intro src src' legs legs' hs hs' halike htargets hr hr'
    obtain ⟨out, hout, ho⟩ := journey_of_ready hw hh ha hs.carries hr
    obtain ⟨out', hout', ho'⟩ := journey_of_ready hw hh ha hs'.carries hr'
    rw [htargets] at ho'
    exact ⟨out, out', hout, hout',
      ho.alikeButAlpha ho' (alikeButAlpha_along ha (fit_of_ready ha hr) halike)⟩

/-- Two pixels of `RGBA32` into `ARGB32` and to `BGRA32` where they stand; through `YUV444P` to
`ABGR32`; and with other alpha bytes to `YUY2`. -/
theorem two_pixels_with_alpha :
    (∃ out,
      (build .detected).journey 2 1 .rgba32 [#[1, 2, 3, 4, 5, 6, 7, 8]]
        [.fresh .argb32 [.replicate 8 0], .inPlace .bgra32] = ⟨out, none⟩ ∧
      ∀ n < 2 * 1, Format.bgra32.alphaAt (bytesOf out) n =
        Format.rgba32.alphaAt (bytesOf [#[1, 2, 3, 4, 5, 6, 7, 8]]) n) ∧
    (∃ out,
      (build .detected).journey 2 1 .rgba32 [#[1, 2, 3, 4, 5, 6, 7, 8]]
        [.fresh .yuv444p [.replicate 2 0, .replicate 2 0, .replicate 2 0],
          .fresh .abgr32 [.replicate 8 9]] = ⟨out, none⟩ ∧
      ∀ n < 2 * 1, Format.abgr32.alphaAt (bytesOf out) n = 0) ∧
    ∃ out out',
      (build .detected).journey 2 1 .rgba32 [#[1, 2, 3, 4, 5, 6, 7, 8]]
        [.fresh .yuy2 [.replicate 4 0]] = ⟨out, none⟩ ∧
      (build .detected).journey 2 1 .rgba32 [#[1, 2, 3, 255, 5, 6, 7, 0]]
        [.fresh .yuy2 [.replicate 5 9]] = ⟨out', none⟩ ∧
      AlikeButAlpha .yuy2 2 1 (bytesOf out) (bytesOf out') := by
  obtain ⟨hcarried, hleak⟩ := alpha_is_carried_and_never_leaks .detected (a := .rgba32) 2 1
    (by decide)
  refine ⟨?_, ?_, ?_⟩
  · exact hcarried [#[1, 2, 3, 4, 5, 6, 7, 8]] [.fresh .argb32 [.replicate 8 0], .inPlace .bgra32]
      (by decide) ⟨.fresh rfl (by decide) (by decide), exists_lookup _ (by decide), trivial⟩ rfl
  · exact hcarried [#[1, 2, 3, 4, 5, 6, 7, 8]]
      [.fresh .yuv444p [.replicate 2 0, .replicate 2 0, .replicate 2 0],
        .fresh .abgr32 [.replicate 8 9]] (by decide)
      ⟨.fresh rfl (by decide) (by decide), .fresh rfl (by decide) (by decide), trivial⟩ rfl
  · exact hleak _ _ [.fresh .yuy2 [.replicate 4 0]] [.fresh .yuy2 [.replicate 5 9]] (by decide)
      (by decide) (by decide) rfl ⟨.fresh rfl (by decide) (by decide), trivial⟩
      ⟨.fresh rfl (by decide) (by decide), trivial⟩

end Engine
end FrameConvert
