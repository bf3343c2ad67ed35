/-
# The transforms from tables of products

A sample has 256 values, so the product of a coefficient with each of them is a
table; a transform adds up one entry per sample, shifts and clamps.  The rounding
term of every sum is in exactly one of its tables:

| sum | tables, the rounded one first |
| --- | --- |
| red, green, blue, gray of luma | luma, then chroma |
| luma | red, green, blue |
| U | red, green, blue |
| V | blue, red (the blue table of U), green |
| gray of colour | red, green, blue |

U and V share a table because blue weighs in U what red weighs in V.
-/

import FrameConvert.Colour.FixedPoint

namespace FrameConvert

/-- One number for each value of a sample. -/
abbrev Products := Vector Int 256

/-- The products of `coefficient` with the samples less `zero`, plus `bias`. -/
def products (coefficient zero bias : Int) : Products :=
  Vector.ofFn fun v => coefficient * ((v.val : Int) - zero) + bias

/-- The product for a sample. -/
def Products.of (t : Products) (v : UInt8) : Int :=
  have : v.toNat < 256 := v.toNat_lt
  t[v.toNat]

theorem products_of (k z b : Int) (v : UInt8) :
    (products k z b).of v = k * ((v.toNat : Int) - z) + b := by
  simp only [products, Products.of, Vector.getElem_ofFn]

namespace Table

def luma : Products := products 71392 16 FixedPoint.half
def redOfV : Products := products 98007 128 0
def greenOfU : Products := products (-24057) 128 0
def greenOfV : Products := products (-51842) 128 0
def blueOfU : Products := products 123872 128 0

def lumaOfRed : Products := products 16829 0 FixedPoint.half
def lumaOfGreen : Products := products 33039 0 0
def lumaOfBlue : Products := products 6416 0 0
def uOfRed : Products := products (-9714) 0 FixedPoint.half
def uOfGreen : Products := products (-19070) 0 0
def uOfBlue : Products := products 28784 0 0
def vOfGreen : Products := products (-24103) 0 0
def vOfBlue : Products := products (-4681) 0 FixedPoint.half

def grayOfRed : Products := products 19595 0 FixedPoint.half
def grayOfGreen : Products := products 38470 0 0
def grayOfBlue : Products := products 7471 0 0

/-- A sum of three entries, in signed words. -/
def sum₃ (a b c : Int) : Checked Int := do
  signed ((← signed (a + b)) + c)

/-- The colour of a luma sample and a chroma pair. -/
def rgb (y u v : UInt8) : Checked Rgb := do
  let l := luma.of y
  let r ← signed (l + redOfV.of v)
  let g ← sum₃ l (greenOfU.of u) (greenOfV.of v)
  let b ← signed (l + blueOfU.of u)
  return ⟨saturate (FixedPoint.whole r), saturate (FixedPoint.whole g),
    saturate (FixedPoint.whole b)⟩

/-- The full-range gray of a luma sample. -/
def grayOfLuma (y : UInt8) : UInt8 := saturate (FixedPoint.whole (luma.of y))

/-- The luma of a colour. -/
def lumaOf (c : Rgb) : Checked UInt8 := do
  let s ← sum₃ (lumaOfRed.of c.r) (lumaOfGreen.of c.g) (lumaOfBlue.of c.b)
  return saturate (← signed (FixedPoint.whole s + 16))

/-- The U sample of a colour. -/
def uOf (c : Rgb) : Checked UInt8 := do
  let s ← sum₃ (uOfRed.of c.r) (uOfGreen.of c.g) (uOfBlue.of c.b)
  return saturate (← signed (FixedPoint.whole s + 128))

/-- The V sample of a colour. -/
def vOf (c : Rgb) : Checked UInt8 := do
  let s ← sum₃ (uOfBlue.of c.r) (vOfGreen.of c.g) (vOfBlue.of c.b)
  return saturate (← signed (FixedPoint.whole s + 128))

/-- The full-range gray of a colour. -/
def grayOf (c : Rgb) : Checked UInt8 := do
  let s ← sum₃ (grayOfRed.of c.r) (grayOfGreen.of c.g) (grayOfBlue.of c.b)
  return saturate (FixedPoint.whole s)

theorem sum₃_eq_ok {a b c s : Int} (hs : a + b + c = s)
    (hab : -0x80000000 ≤ a + b ∧ a + b < 0x80000000)
    (habc : -0x80000000 ≤ s ∧ s < 0x80000000) : sum₃ a b c = .ok s := by
  subst hs
  simp only [sum₃, signed_eq_ok hab, bind, Except.bind]
  exact signed_eq_ok habc

/-- The whole part of a signed word is a 16-bit number, so a small offset stays
among the signed words. -/
theorem signed_whole_add {n k : Int} (hn : -0x80000000 ≤ n ∧ n < 0x80000000)
    (hk : 0 ≤ k ∧ k ≤ 128) :
    signed (FixedPoint.whole n + k) = .ok (FixedPoint.whole n + k) := by
  rw [FixedPoint.whole_eq]
  exact signed_eq_ok (by omega)

/-- **The table path is the formula** for the colour of a sample triple; no sum
leaves the signed words. -/
theorem rgb_eq_ok (y u v : UInt8) : rgb y u v = .ok (FixedPoint.rgbOf y u v) := by
  have hy := y.toNat_lt
  have hu := u.toNat_lt
  have hv := v.toNat_lt
  have hr : signed (luma.of y + redOfV.of v) = .ok (71392 * ((y.toNat : Int) - 16) +
      98007 * ((v.toNat : Int) - 128) + FixedPoint.half) := by
    simp only [luma, redOfV, products_of, FixedPoint.half]
    exact (signed_eq_ok (by omega)).trans (congrArg Except.ok (by omega))
  have hg : sum₃ (luma.of y) (greenOfU.of u) (greenOfV.of v) =
      .ok (71392 * ((y.toNat : Int) - 16) - 24057 * ((u.toNat : Int) - 128) -
        51842 * ((v.toNat : Int) - 128) + FixedPoint.half) := by
    simp only [luma, greenOfU, greenOfV, products_of, FixedPoint.half]
    exact sum₃_eq_ok (by omega) (by omega) (by omega)
  have hb : signed (luma.of y + blueOfU.of u) = .ok (71392 * ((y.toNat : Int) - 16) +
      123872 * ((u.toNat : Int) - 128) + FixedPoint.half) := by
    simp only [luma, blueOfU, products_of, FixedPoint.half]
    exact (signed_eq_ok (by omega)).trans (congrArg Except.ok (by omega))
  simp only [rgb, hr, hg, hb]
  rfl

/-- The table path is the formula for the gray of a luma sample. -/
theorem grayOfLuma_eq (y : UInt8) : grayOfLuma y = FixedPoint.grayOfLuma y := by
  simp only [grayOfLuma, luma, products_of, FixedPoint.grayOfLuma]

/-- The table path is the formula for luma. -/
theorem lumaOf_eq_ok (c : Rgb) : lumaOf c = .ok (FixedPoint.lumaOf c) := by
  have hr := c.r.toNat_lt
  have hg := c.g.toNat_lt
  have hb := c.b.toNat_lt
  have h : sum₃ (lumaOfRed.of c.r) (lumaOfGreen.of c.g) (lumaOfBlue.of c.b) =
      .ok (16829 * c.r.toNat + 33039 * c.g.toNat + 6416 * c.b.toNat + FixedPoint.half) := by
    simp only [lumaOfRed, lumaOfGreen, lumaOfBlue, products_of, FixedPoint.half]
    exact sum₃_eq_ok (by omega) (by omega) (by omega)
  rw [lumaOf, bind_eq_of_ok h,
    bind_eq_of_ok (signed_whole_add (by simp only [FixedPoint.half]; omega) (by decide))]
  rfl

/-- The table path is the formula for U. -/
theorem uOf_eq_ok (c : Rgb) : uOf c = .ok (FixedPoint.uOf c) := by
  have hr := c.r.toNat_lt
  have hg := c.g.toNat_lt
  have hb := c.b.toNat_lt
  have h : sum₃ (uOfRed.of c.r) (uOfGreen.of c.g) (uOfBlue.of c.b) =
      .ok (-9714 * c.r.toNat - 19070 * c.g.toNat + 28784 * c.b.toNat + FixedPoint.half) := by
    simp only [uOfRed, uOfGreen, uOfBlue, products_of, FixedPoint.half]
    exact sum₃_eq_ok (by omega) (by omega) (by omega)
  rw [uOf, bind_eq_of_ok h,
    bind_eq_of_ok (signed_whole_add (by simp only [FixedPoint.half]; omega) (by decide))]
  rfl

/-- The table path is the formula for V. -/
theorem vOf_eq_ok (c : Rgb) : vOf c = .ok (FixedPoint.vOf c) := by
  have hr := c.r.toNat_lt
  have hg := c.g.toNat_lt
  have hb := c.b.toNat_lt
  have h : sum₃ (uOfBlue.of c.r) (vOfGreen.of c.g) (vOfBlue.of c.b) =
      .ok (28784 * c.r.toNat - 24103 * c.g.toNat - 4681 * c.b.toNat + FixedPoint.half) := by
    simp only [uOfBlue, vOfGreen, vOfBlue, products_of, FixedPoint.half]
    exact sum₃_eq_ok (by omega) (by omega) (by omega)
  rw [vOf, bind_eq_of_ok h,
    bind_eq_of_ok (signed_whole_add (by simp only [FixedPoint.half]; omega) (by decide))]
  rfl

/-- The table path is the formula for the gray of a colour. -/
theorem grayOf_eq_ok (c : Rgb) : grayOf c = .ok (FixedPoint.grayOf c) := by
  have hr := c.r.toNat_lt
  have hg := c.g.toNat_lt
  have hb := c.b.toNat_lt
  have h : sum₃ (grayOfRed.of c.r) (grayOfGreen.of c.g) (grayOfBlue.of c.b) =
      .ok (19595 * c.r.toNat + 38470 * c.g.toNat + 7471 * c.b.toNat + FixedPoint.half) := by
    simp only [grayOfRed, grayOfGreen, grayOfBlue, products_of, FixedPoint.half]
    exact sum₃_eq_ok (by omega) (by omega) (by omega)
  simp only [grayOf, h]
  rfl

end Table
end FrameConvert
