/-
# Colour in between

A colour format keeps the colours of pixels, and their alpha if it has room for it.  A frame
of colours loses nothing else on the way through one, and a YUV frame loses nothing that a
colour target would show: its pixels have the same colours before and after
(`draw_through_colour`).  So a colour format in between shows only where alpha is lost:

| source | between | target | target's alpha bytes |
| --- | --- | --- | --- |
| alpha | alpha | alpha | the source's |
| alpha | none | alpha | `0` |
| none | any | alpha | `0`, as directly |

Gray becomes three equal channels, whose weighted sum is the gray again; so `GRAY8` comes
back from every colour format as it was.
-/

import FrameConvert.Proofs.Journey
import FrameConvert.Proofs.Alpha

namespace FrameConvert

section Draw

variable {s z g : Format} {w : Nat}

/-- A colour with its alpha is all there is to a pixel that is one. -/
theorem Pixel.rgb_eq_self {p : Pixel} (hp : p.isRgb = true) : .rgb p.colour p.alpha = p := by
  cases p with
  | yuv y u v => cases hp
  | rgb c α => rfl

/-- Colour pixels are drawn of colour and alpha alone. -/
theorem draw_rgb (hg : g.family = .rgbPacked) (w : Nat) (px : Nat → Pixel) :
    g.layout.draw w (fun n => .rgb (px n).colour (px n).alpha) = g.layout.draw w px := by
  cases g <;> first | rfl | cases hg

theorem content_colour (hz : z.family = .rgbPacked) : z.content = .colour z.hasAlpha := by
  cases z <;> first | rfl | cases hz

/-- Where no alpha is lost, a colour format keeps colour and alpha of what a frame shows. -/
theorem kept_colour (hz : z.family = .rgbPacked) (hα : s.hasAlpha = true → z.hasAlpha = true)
    (w : Nat) (x : FrameBytes) :
    z.content.kept w (s.layout.view w x) =
      fun n => .rgb (s.layout.view w x n).colour (s.layout.view w x n).alpha := by
  funext n
  rw [content_colour hz, Content.kept]
  cases hzα : z.hasAlpha with
  | true => rfl
  | false =>
    have hs : s.hasAlpha = false := by
      rw [hzα] at hα
      simpa using hα
    rw [← clear_view hs, Pixel.alpha_clear]
    rfl

/-- Where it is lost, colours without it are left. -/
theorem kept_colour_clear (hz : z.family = .rgbPacked) (hα : z.hasAlpha = false)
    (hs : s.isYuv = false) (w : Nat) (x : FrameBytes) :
    z.content.kept w (s.layout.view w x) = fun n => (s.layout.view w x n).clear := by
  funext n
  rw [content_colour hz, hα, Content.kept, ← Pixel.rgb_eq_self (isRgb_view hs w x n)]
  rfl

/-- **By way of a colour format** the frame is drawn as directly, but for alpha bytes that it
has no room for. -/
theorem draw_through_colour (hz : z.family = .rgbPacked)
    (hsg : s.isYuv = false ∨ g.family = .rgbPacked) (w : Nat) (x : FrameBytes) (i j : Nat) :
    g.layout.draw w (z.content.kept w (s.layout.view w x)) i j =
      if s.hasAlpha = true ∧ z.hasAlpha = false ∧ g.isAlpha j = true then 0
      else Layout.translated s.layout g.layout w x i j := by
  by_cases hlost : s.hasAlpha = true ∧ z.hasAlpha = false
  · have hs : s.isYuv = false := by
      have := hlost.1
      cases s <;> first | rfl | cases this
    rw [kept_colour_clear hz hlost.2 hs, draw_clear]
    simp only [hlost, true_and, Layout.translated]
  · have hkeep : s.hasAlpha = true → z.hasAlpha = true := by
      intro hs
      simpa [hs] using hlost
    rw [if_neg fun h => hlost ⟨h.1, h.2.1⟩, kept_colour hz hkeep, Layout.translated]
    rcases hsg with hs | hg
    · simp only [Pixel.rgb_eq_self (isRgb_view hs w x _)]
    · rw [draw_rgb hg]

/-- Colours convert into everything, and everything into colours. -/
theorem isSome_portable?_colour (hsg : s.isYuv = false ∨ g.family = .rgbPacked) :
    (Method.portable? s g).isSome = true := by
  have hall : ∀ s ∈ Format.all, ∀ g ∈ Format.all, s.isYuv = false ∨ g.family = .rgbPacked →
      (Method.portable? s g).isSome = true := by
    decide +kernel
  exact hall s s.mem_all g g.mem_all hsg

end Draw

namespace Engine

/-- **A colour format in between is invisible.**  Let `z` be a colour format, and let the
source `s` be of the RGB family or the target `g` a colour format.  All three conversions
exist, and every journey by way of `z` ends with the frame that comes directly, byte for
byte; only where `s` and `g` have alpha and `z` has none, alpha bytes are `0`, and the others
are the same.  A frame that comes back to its format has its colours as they were, and so
has a gray frame its gray. -/
theorem colour_in_between_is_invisible (m : Mask) {s z g : Format} (hz : z.family = .rgbPacked)
    (hsg : s.isYuv = false ∨ g.family = .rgbPacked) (w h : UInt32)
    (hfit : Fit s w.toNat h.toNat) :
    ((build m).supports s z = true ∧ (build m).supports z g = true ∧
        (build m).supports s g = true ∧ Fit z w.toNat h.toNat) ∧
      ∀ src dst legs, Holds s w.toNat h.toNat src → Holds g w.toNat h.toNat dst →
        legs.map Leg.target = [z, g] → Ready (build m) w.toNat h.toNat s legs →
          ∃ via direct, (build m).journey w.toNat h.toNat s src legs = ⟨via, none⟩ ∧
            (build m).convert s g w.toNat h.toNat src dst = ⟨direct, none⟩ ∧
            (¬(s.hasAlpha = true ∧ g.hasAlpha = true ∧ z.hasAlpha = false) →
              SameFrame g w.toNat h.toNat via direct) ∧
            (s.hasAlpha = true → g.hasAlpha = true → z.hasAlpha = false →
              ∀ j < g.planeSize w.toNat h.toNat 0, (planeAt via 0).byte j =
                if g.isAlpha j = true then 0 else (planeAt direct 0).byte j) ∧
            (s = g → ∀ j < g.planeSize w.toNat h.toNat 0, g.isAlpha j = false →
              (planeAt via 0).byte j = (planeAt src 0).byte j) ∧
            (s = .gray8 → g = .gray8 → SameFrame .gray8 w.toNat h.toNat via src) := by
  have hw := w.toNat_lt
  have hh := h.toNat_lt
  have hsupports : ∀ {a b : Format}, a.isYuv = false ∨ b.family = .rgbPacked →
      (build m).supports a b = true :=
    fun hab => (supports_build m _ _).trans (isSome_portable?_colour hab)
  have hzrgb : z.isYuv = false ∧ z.chromaBlock = (1, 1) := by
    cases z <;> first | exact ⟨rfl, rfl⟩ | cases hz
  have hfitz : Fit z w.toNat h.toNat := by
    rw [Fit, hzrgb.2]
    exact ⟨hfit.1, hfit.2.1, hfit.2.2.1, one_dvd _, one_dvd _⟩
  refine ⟨⟨hsupports (.inr hz), hsupports (.inl hzrgb.1), hsupports hsg, hfitz⟩, ?_⟩
  intro src dst legs hs hd hlegs hr
  obtain ⟨via, direct, hvia, hdirect, hv, ho⟩ :=
    exists_detour hw hh (hsupports hsg) hfit hs hd hlegs hr
  -- both frames, byte by byte
  have hbyte : ∀ i < g.planeCount, ∀ j < g.planeSize w.toNat h.toNat i,
      (planeAt via i).byte j =
        if s.hasAlpha = true ∧ z.hasAlpha = false ∧ g.isAlpha j = true then 0
        else (planeAt direct i).byte j := by
    intro i hi j hj
    rw [hv.byte i hi j hj, draw_through_colour hz hsg, ho.byte i hi j hj]
  have hsame : ¬(s.hasAlpha = true ∧ g.hasAlpha = true ∧ z.hasAlpha = false) →
      SameFrame g w.toNat h.toNat via direct := by
    intro hlost i hi j hj
    rw [hbyte i hi j hj, if_neg]
    rintro ⟨hsα, hzα, hj⟩
    cases hgα : g.hasAlpha with
    | true => exact hlost ⟨hsα, hgα, hzα⟩
    | false =>
      rw [Format.isAlpha_eq_false hgα] at hj
      cases hj
  have hback : s = g → SameFrame g w.toNat h.toNat direct src := by
    rintro rfl i hi j hj
    rw [ho.byte i hi j hj]
    exact draw_view hfit _ hi hj
  refine ⟨via, direct, hvia, hdirect, hsame, ?_, ?_, ?_⟩
  · intro hsα hgα hzα j hj
    rw [hbyte 0 g.planeCount_pos j hj]
    simp only [hsα, hzα, true_and]
  · intro hsg j hj hα
    rw [hbyte 0 g.planeCount_pos j hj, if_neg (by simp [hα]), hback hsg 0 g.planeCount_pos j hj]
  · rintro rfl rfl i hi j hj
    rw [hsame (fun hα => absurd hα.1 (by decide)) i hi j hj, hback rfl i hi j hj]

/-- A pixel of `RGBA32` comes back through `BGR24` without its alpha, and a gray one through
`ARGB32` as it was. -/
theorem pixels_come_back_through_colour :
    (∃ via direct,
      (build .detected).journey 1 1 .rgba32 [#[1, 2, 3, 4]]
        [.fresh .bgr24 [#[0, 0, 0]], .fresh .rgba32 [#[9, 9, 9, 9]]] = ⟨via, none⟩ ∧
      (build .detected).convert .rgba32 .rgba32 1 1 [#[1, 2, 3, 4]] [#[9, 9, 9, 9]] =
        ⟨direct, none⟩ ∧
      (∀ j < 3, (planeAt via 0).byte j = (planeAt [#[1, 2, 3, 4]] 0).byte j) ∧
      (planeAt via 0).byte 3 = 0) ∧
    ∃ via direct,
      (build .detected).journey 1 1 .gray8 [#[77]]
        [.fresh .argb32 [#[0, 0, 0, 0]], .fresh .gray8 [#[0]]] = ⟨via, none⟩ ∧
      (build .detected).convert .gray8 .gray8 1 1 [#[77]] [#[0]] = ⟨direct, none⟩ ∧
      SameFrame .gray8 1 1 via direct ∧ SameFrame .gray8 1 1 via [#[77]] := by
  constructor
  · obtain ⟨via, direct, hvia, hdirect, -, hlost, hback, -⟩ :=
      (colour_in_between_is_invisible .detected (s := .rgba32) (z := .bgr24) (g := .rgba32)
        rfl (.inl rfl) 1 1 (by decide)).2 [#[1, 2, 3, 4]] [#[9, 9, 9, 9]]
        [.fresh .bgr24 [#[0, 0, 0]], .fresh .rgba32 [#[9, 9, 9, 9]]] (by decide) (by decide) rfl
        ⟨.fresh rfl (by decide) (by decide), .fresh rfl (by decide) (by decide), trivial⟩
    refine ⟨via, direct, hvia, hdirect, fun j hj => ?_, ?_⟩
    · exact hback rfl j (Nat.lt_succ_of_lt hj) (by interval_cases j <;> rfl)
    · exact hlost rfl rfl rfl 3 (by decide)
  · obtain ⟨via, direct, hvia, hdirect, hsame, -, -, hgray⟩ :=
      (colour_in_between_is_invisible .detected (s := .gray8) (z := .argb32) (g := .gray8)
        rfl (.inl rfl) 1 1 (by decide)).2 [#[77]] [#[0]]
        [.fresh .argb32 [#[0, 0, 0, 0]], .fresh .gray8 [#[0]]] (by decide) (by decide) rfl
        ⟨.fresh rfl (by decide) (by decide), .fresh rfl (by decide) (by decide), trivial⟩
    exact ⟨via, direct, hvia, hdirect, hsame (by decide), hgray rfl rfl⟩

end Engine
end FrameConvert
