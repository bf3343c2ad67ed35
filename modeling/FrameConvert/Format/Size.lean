/-
# Sizes of planes and frames

For a frame of `w` by `h` pixels, block `a` by `d`:

| size | bytes |
| --- | --- |
| `planeSize w h 0` | `w h` times the bytes per pixel |
| `planeSize w h i`, `0 < i < planeCount` | `(w / a) (h / d)`, one chroma plane |
| `planeSize w h i`, beyond | `0` |
| `frameSize w h` | the first plane and two chroma planes |

The sizes themselves are plain numbers.  `planeSize64`, `chromaSize64` and
`frameSize64` compute them step by step in 64-bit words and say when one of the
steps does not fit; where `4 w h < 2 ^ 64` they all do, and the two agree
(`planeSize64_eq_ok`, `frameSize64_eq_ok`).
-/

import FrameConvert.Format

namespace FrameConvert
namespace Format

/-- The size of one chroma plane; `0` for frames of a single plane. -/
def chromaSize (f : Format) (w h : Nat) : Nat :=
  if f.isPlanar then w / f.chromaBlock.1 * (h / f.chromaBlock.2) else 0

/-- The size of plane `i`; `0` for planes that the format does not have. -/
def planeSize (f : Format) (w h i : Nat) : Nat :=
  if i = 0 then w * h * f.bytesPerPixel
  else if i < f.planeCount then f.chromaSize w h
  else 0

/-- The size of a frame. -/
def frameSize (f : Format) (w h : Nat) : Nat :=
  f.planeSize w h 0 + 2 * f.chromaSize w h

/-- `chromaSize`, in 64-bit words. -/
def chromaSize64 (f : Format) (w h : Nat) : Checked Nat :=
  if f.isPlanar then size (w / f.chromaBlock.1 * (h / f.chromaBlock.2)) else return 0

/-- `planeSize`, in 64-bit words; the number of pixels has to fit for every `i`. -/
def planeSize64 (f : Format) (w h i : Nat) : Checked Nat := do
  let pixels ← size (w * h)
  if i = 0 then size (pixels * f.bytesPerPixel)
  else if i < f.planeCount then f.chromaSize64 w h
  else return 0

/-- `frameSize`, in 64-bit words. -/
def frameSize64 (f : Format) (w h : Nat) : Checked Nat := do
  let first ← f.planeSize64 w h 0
  let chroma ← size (2 * (← f.chromaSize64 w h))
  size (first + chroma)

theorem chromaSize_le (f : Format) (w h : Nat) : f.chromaSize w h ≤ w * h := by
  unfold chromaSize
  split
  · exact Nat.mul_le_mul (Nat.div_le_self _ _) (Nat.div_le_self _ _)
  · exact Nat.zero_le _

theorem planeSize_le (f : Format) (w h i : Nat) : f.planeSize w h i ≤ w * h * 4 := by
  have hb := Nat.mul_le_mul_left (w * h) f.bytesPerPixel_le
  have hc := f.chromaSize_le w h
  unfold planeSize
  split
  · exact hb
  · split <;> omega

/-- **A frame takes at most four bytes per pixel.**  Planar frames have one byte
per pixel in the first plane and at most one in each chroma plane. -/
theorem frameSize_le (f : Format) (w h : Nat) : f.frameSize w h ≤ w * h * 4 := by
  have hb := f.bytesPerPixel_le
  have hc := f.chromaSize_le w h
  by_cases hp : f.isPlanar
  · have h1 : f.bytesPerPixel = 1 := by revert hp; cases f <;> decide
    simp only [frameSize, planeSize, if_pos, h1]
    omega
  · have := Nat.mul_le_mul_left (w * h) hb
    simp only [frameSize, planeSize, chromaSize, if_pos, if_neg hp]
    omega

/-- A chroma plane is a grid of whole blocks. -/
theorem chromaSize64_eq_ok {f : Format} {w h : Nat} (hs : w * h * 4 < 0x10000000000000000) :
    f.chromaSize64 w h = .ok (f.chromaSize w h) := by
  have hc := f.chromaSize_le w h
  by_cases hp : f.isPlanar
  · simp only [chromaSize64, chromaSize, if_pos hp] at hc ⊢
    exact size_eq_ok (by omega)
  · simp only [chromaSize64, chromaSize, if_neg hp]
    rfl

/-- **Sizes of planes fit.** -/
theorem planeSize64_eq_ok {f : Format} {w h : Nat} (hs : w * h * 4 < 0x10000000000000000)
    (i : Nat) :
    f.planeSize64 w h i = .ok (f.planeSize w h i) := by
  have hp := f.planeSize_le w h i
  unfold planeSize64 planeSize at *
  rw [size_eq_ok (by omega)]
  simp only [bind, Except.bind]
  split
  · exact size_eq_ok (by rw [if_pos (by assumption)] at hp; omega)
  · split
    · exact chromaSize64_eq_ok hs
    · rfl

/-- **Sizes of frames fit.** -/
theorem frameSize64_eq_ok {f : Format} {w h : Nat} (hs : w * h * 4 < 0x10000000000000000) :
    f.frameSize64 w h = .ok (f.frameSize w h) := by
  have hf := f.frameSize_le w h
  simp only [frameSize] at hf ⊢
  simp only [frameSize64, planeSize64_eq_ok hs, chromaSize64_eq_ok hs, bind, Except.bind]
  rw [size_eq_ok (by omega)]
  exact size_eq_ok (by omega)

end Format
end FrameConvert
