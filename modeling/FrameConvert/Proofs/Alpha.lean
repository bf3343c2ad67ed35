/-
# Alpha

Pixels of a colour format with alpha carry it in one byte of four, first or last.  What a
frame draws of pixels whose alpha was cleared differs in these bytes alone, which are `0`
(`draw_clear`); luma, chroma, gray and colour do not depend on alpha.  A frame without
alpha shows none, so clearing it changes nothing there (`clear_view`).
-/

import FrameConvert.Proofs.View

namespace FrameConvert

/-- A pixel with its alpha cleared. -/
def Pixel.clear : Pixel → Pixel
  | yuv y u v => yuv y u v
  | rgb c _ => rgb c 0

namespace Pixel

variable (p : Pixel)

@[simp] theorem isRgb_clear : p.clear.isRgb = p.isRgb := by cases p <;> rfl

@[simp] theorem luma_clear : p.clear.luma = p.luma := by cases p <;> rfl

@[simp] theorem u_clear : p.clear.u = p.u := by cases p <;> rfl

@[simp] theorem v_clear : p.clear.v = p.v := by cases p <;> rfl

@[simp] theorem colour_clear : p.clear.colour = p.colour := by cases p <;> rfl

@[simp] theorem gray_clear : p.clear.gray = p.gray := by cases p <;> rfl

@[simp] theorem alpha_clear : p.clear.alpha = 0 := by cases p <;> rfl

end Pixel

/-- Byte `j` of the first plane is an alpha byte. -/
def Format.isAlpha (f : Format) (j : Nat) : Bool :=
  match f.layout with
  | .pixels (.colour k) => k.alpha? == some (j % k.channels)
  | _ => false

/-- Formats without alpha have no alpha bytes. -/
theorem Format.isAlpha_eq_false {f : Format} (hf : f.hasAlpha = false) (j : Nat) :
    f.isAlpha j = false := by
  cases f <;> first | rfl | cases hf

/-- Without alpha a frame shows none. -/
theorem clear_view {f : Format} (hf : f.hasAlpha = false) (w : Nat) (x : FrameBytes) (n : Nat) :
    (f.layout.view w x n).clear = f.layout.view w x n := by
  cases f <;> first | rfl | cases hf

/-- A chroma sample does not depend on alpha. -/
theorem chromaOf_clear (s : Subsampling) (w : Nat) {channel : Pixel → UInt8}
    (hc : ∀ p : Pixel, channel p.clear = channel p) (px : Nat → Pixel) (c : Nat) :
    chromaOf s w channel (fun n => (px n).clear) c = chromaOf s w channel px c := by
  simp only [chromaOf, Pixel.isRgb_clear, hc]

/-- The bytes of a pixel whose alpha is cleared. -/
theorem PixelOrder.getD_bytes_zero (k : PixelOrder) (c : Rgb) (α : UInt8) {r : Nat}
    (hr : r < k.channels) :
    (k.bytes c 0).getD r 0 = if k.alpha? = some r then 0 else (k.bytes c α).getD r 0 := by
  cases k <;> simp only [PixelOrder.channels] at hr <;> interval_cases r <;> rfl

/-- **What is drawn of pixels whose alpha is cleared:** alpha bytes are `0`, all others stay. -/
theorem draw_clear (f : Format) (w : Nat) (px : Nat → Pixel) (i j : Nat) :
    f.layout.draw w (fun n => (px n).clear) i j =
      if f.isAlpha j then 0 else f.layout.draw w px i j := by
  rw [Format.isAlpha]
  cases f.layout with
  | planar p =>
    cases p with
    | luma => simp [Layout.draw]
    | chroma s o =>
      have hc : ∀ p : Pixel, (if i = o.u then Pixel.u else Pixel.v) p.clear =
          (if i = o.u then Pixel.u else Pixel.v) p := by
        intro p
        split <;> simp
      simp [Layout.draw, chromaOf_clear s w hc]
  | packed o =>
    simp [Layout.draw, Layout.macroOf, chromaOf_clear .s422 w Pixel.u_clear,
      chromaOf_clear .s422 w Pixel.v_clear]
  | pixels l =>
    cases l with
    | gray => simp [Layout.draw, PixelLayout.bytesFor]
    | colour k =>
      have hr : j % k.channels < k.channels := Nat.mod_lt j (PixelLayout.colour k).channels_pos
      simp only [Layout.draw, PixelLayout.bytesFor, PixelLayout.channels, Pixel.colour_clear,
        Pixel.alpha_clear, beq_iff_eq]
      exact k.getD_bytes_zero _ _ hr

end FrameConvert
