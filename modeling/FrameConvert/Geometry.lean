/-
# What a frame has to satisfy

A frame of `w` by `h` pixels in a format is *fit* when no side is zero, four bytes
per pixel are a 64-bit size, and the chroma block divides the sides:

`Fit f w h  ↔  0 < w ∧ 0 < h ∧ 4 w h < 2 ^ 64 ∧ a ∣ w ∧ d ∣ h`

`checkGeometry` refuses what is not fit, in that order; `checkPlanes` then refuses
too few planes, and the first plane that is too short, and `checkBuffer` a buffer
that is shorter than a frame.  `checkGeometry_eq_ok_iff` and `checkBuffer_eq_ok_iff`
say that nothing else is refused.
-/

import FrameConvert.Refusal

namespace FrameConvert

/-- Frames of `w` by `h` pixels exist in the format. -/
def Fit (f : Format) (w h : Nat) : Prop :=
  0 < w ∧ 0 < h ∧ w * h * 4 < 0x10000000000000000 ∧
    f.chromaBlock.1 ∣ w ∧ f.chromaBlock.2 ∣ h

instance (f : Format) (w h : Nat) : Decidable (Fit f w h) := by
  unfold Fit
  infer_instance

/-- Refuses a frame that is not fit. -/
def checkGeometry (f : Format) (w h : Nat) : Attempt Unit :=
  if w = 0 ∨ h = 0 then refuse .zeroSize
  else if 0x10000000000000000 ≤ w * h * 4 then refuse .tooLarge
  else if w % f.chromaBlock.1 ≠ 0 ∨ h % f.chromaBlock.2 ≠ 0 then refuse (.misaligned f w h)
  else return ()

/-- Refuses the first of the planes, numbered from `i`, that is too short. -/
def checkPlanesFrom (f : Format) (w h : Nat) : List Plane → Nat → Attempt Unit
  | [], _ => return ()
  | p :: ps, i => do
    let expected ← attempt (f.planeSize64 w h i)
    if p.size < expected then refuse (.planeSize i expected p.size)
    else checkPlanesFrom f w h ps (i + 1)

/-- Refuses too few planes, or one that is too short; surplus planes and surplus
bytes are no matter. -/
def checkPlanes (planes : List Plane) (f : Format) (w h : Nat) : Attempt Unit :=
  if planes.length < f.planeCount then refuse (.planeCount f.planeCount planes.length)
  else checkPlanesFrom f w h (planes.take f.planeCount) 0

/-- Refuses a buffer that does not hold a whole frame. -/
def checkBuffer (length : Nat) (f : Format) (w h : Nat) : Attempt Unit := do
  checkGeometry f w h
  let expected ← attempt (f.frameSize64 w h)
  if length < expected then refuse (.bufferSize expected length) else return ()

/-- **The geometry check accepts exactly the fit frames.** -/
theorem checkGeometry_eq_ok_iff {f : Format} {w h : Nat} :
    checkGeometry f w h = .ok () ↔ Fit f w h := by
  unfold checkGeometry Fit
  simp only [Nat.dvd_iff_mod_eq_zero]
  split
  · simp [refuse]; omega
  · split
    · simp [refuse]; omega
    · split
      · simp [refuse]; omega
      · simp [pure, Except.pure]; omega

/-- Frames that are too large are refused as such, whether they are aligned or not. -/
theorem checkGeometry_of_large {f : Format} {w h : Nat} (hs : 0x10000000000000000 ≤ w * h * 4) :
    checkGeometry f w h = refuse .tooLarge := by
  have hsides : ¬(w = 0 ∨ h = 0) := by
    rintro (rfl | rfl) <;> omega
  rw [checkGeometry, if_neg hsides, if_pos hs]

/-- **A buffer is accepted exactly if it holds a whole fit frame.** -/
theorem checkBuffer_eq_ok_iff {n : Nat} {f : Format} {w h : Nat} :
    checkBuffer n f w h = .ok () ↔ Fit f w h ∧ f.frameSize w h ≤ n := by
  by_cases hf : Fit f w h
  · rw [checkBuffer, checkGeometry_eq_ok_iff.2 hf, Format.frameSize64_eq_ok hf.2.2.1]
    simp only [attempt_ok, bind, Except.bind]
    split
    · simp [refuse, hf]; omega
    · simp [pure, Except.pure, hf]; omega
  · refine ⟨fun h => absurd ?_ hf, fun h => absurd h.1 hf⟩
    refine checkGeometry_eq_ok_iff.1 ?_
    rw [checkBuffer] at h
    cases hg : checkGeometry f w _
    · rw [hg] at h
      cases h
    · rfl

end FrameConvert
