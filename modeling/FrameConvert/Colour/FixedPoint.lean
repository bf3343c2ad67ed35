/-
# Limited-range luma and chroma against full-range colour

The transforms have coefficients in units of `2 ^ -16`, are rounded to nearest by
adding `2 ^ 15` before the shift, and are clamped to a byte:

| value | before the clamp |
| --- | --- |
| red | `(71392 (Y - 16) + 98007 (V - 128) + 2 ^ 15) >> 16` |
| green | `(71392 (Y - 16) - 24057 (U - 128) - 51842 (V - 128) + 2 ^ 15) >> 16` |
| blue | `(71392 (Y - 16) + 123872 (U - 128) + 2 ^ 15) >> 16` |
| gray of luma | `(71392 (Y - 16) + 2 ^ 15) >> 16` |
| luma | `((16829 R + 33039 G + 6416 B + 2 ^ 15) >> 16) + 16` |
| U | `((-9714 R - 19070 G + 28784 B + 2 ^ 15) >> 16) + 128` |
| V | `((28784 R - 24103 G - 4681 B + 2 ^ 15) >> 16) + 128` |
| gray of colour | `(19595 R + 38470 G + 7471 B + 2 ^ 15) >> 16` |

The shift rounds down, also below zero.  The three gray weights add up to `2 ^ 16`,
so a gray pixel keeps its value (`grayOf_gray`).
-/

import FrameConvert.Layout

namespace FrameConvert

/-- A number clamped to a byte. -/
def saturate (n : Int) : UInt8 :=
  if n < 0 then 0 else if 255 < n then 255 else UInt8.ofNat n.toNat

theorem toNat_saturate (n : Int) : ((saturate n).toNat : Int) = max 0 (min n 255) := by
  unfold saturate
  split
  · rw [UInt8.toNat_zero]; omega
  · split
    · rw [show ((255 : UInt8).toNat) = 255 from rfl]; omega
    · rw [UInt8.toNat_ofNat']; omega

theorem saturate_toNat (v : UInt8) : saturate (v.toNat : Int) = v := by
  have hv := v.toNat_lt
  refine UInt8.toNat_inj.1 ?_
  have := toNat_saturate v.toNat
  omega

namespace FixedPoint

/-- One half, in units of `2 ^ -16`. -/
def half : Int := 32768

/-- The whole part of a number in units of `2 ^ -16`. -/
def whole (n : Int) : Int := n.shiftRight 16

theorem whole_eq (n : Int) : whole n = n / 65536 := by
  exact Int.shiftRight_eq_div_pow n 16

/-- The colour of a luma sample and a chroma pair. -/
def rgbOf (y u v : UInt8) : Rgb :=
  let l := 71392 * ((y.toNat : Int) - 16)
  let cb := (u.toNat : Int) - 128
  let cr := (v.toNat : Int) - 128
  ⟨saturate (whole (l + 98007 * cr + half)),
    saturate (whole (l - 24057 * cb - 51842 * cr + half)),
    saturate (whole (l + 123872 * cb + half))⟩

/-- The full-range gray of a luma sample. -/
def grayOfLuma (y : UInt8) : UInt8 :=
  saturate (whole (71392 * ((y.toNat : Int) - 16) + half))

/-- The luma of a colour. -/
def lumaOf (c : Rgb) : UInt8 :=
  saturate (whole (16829 * c.r.toNat + 33039 * c.g.toNat + 6416 * c.b.toNat + half) + 16)

/-- The U sample of a colour. -/
def uOf (c : Rgb) : UInt8 :=
  saturate (whole (-9714 * c.r.toNat - 19070 * c.g.toNat + 28784 * c.b.toNat + half) + 128)

/-- The V sample of a colour. -/
def vOf (c : Rgb) : UInt8 :=
  saturate (whole (28784 * c.r.toNat - 24103 * c.g.toNat - 4681 * c.b.toNat + half) + 128)

/-- The full-range gray of a colour. -/
def grayOf (c : Rgb) : UInt8 :=
  saturate (whole (19595 * c.r.toNat + 38470 * c.g.toNat + 7471 * c.b.toNat + half))

/-- **A gray pixel keeps its value.** -/
theorem grayOf_gray (y : UInt8) : grayOf ⟨y, y, y⟩ = y := by
  have hy := y.toNat_lt
  refine Eq.trans ?_ (saturate_toNat y)
  unfold grayOf
  rw [whole_eq]
  congr 1
  simp only [half]
  omega

end FixedPoint
end FrameConvert
