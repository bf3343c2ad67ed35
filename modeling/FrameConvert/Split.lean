/-
# A buffer as planes

A buffer holds the planes of a frame one behind the other, plane `i` at the sum of
the sizes before it, and whatever follows them.  `split` cuts it up and
`unsplit` puts it together again; nothing is lost or moved on the way
(`unsplit_split`).
-/

import FrameConvert.Action
import FrameConvert.Geometry

namespace FrameConvert

/-- Consecutive pieces of the given sizes, the first at offset `o`. -/
def pieces (buffer : Plane) : (o : Nat) → List Nat → Checked (List Plane)
  | _, [] => return []
  | o, n :: ns => do
    let p ← buffer.slice o n
    return p :: (← pieces buffer (← size (o + n)) ns)

/-- How many bytes pieces of the given sizes take. -/
def extent : List Nat → Nat
  | [] => 0
  | n :: ns => n + extent ns

/-- The sizes of the planes of a frame. -/
def planeSizes64 (f : Format) (w h : Nat) : Checked (List Nat) :=
  (List.range f.planeCount).mapM (f.planeSize64 w h)

/-- A buffer cut into the planes of a frame and what follows them. -/
structure Split where
  planes : List Plane
  rest : Plane

/-- Cuts a buffer into the planes of a frame and what follows them. -/
def split (buffer : Plane) (f : Format) (w h : Nat) : Attempt Split := do
  checkBuffer buffer.size f w h
  let sizes ← attempt (planeSizes64 f w h)
  let planes ← attempt (pieces buffer 0 sizes)
  let frame ← attempt (f.frameSize64 w h)
  return ⟨planes, buffer.extract frame buffer.size⟩

/-- The planes one behind the other, and what follows them. -/
def unsplit (planes : List Plane) (rest : Plane) : Plane :=
  planes.foldr (· ++ ·) rest

/-- An action on the planes of a buffer that was split. -/
def Split.onPlanes (s : Split) : Action (List Plane) Unit → Action Plane Unit :=
  .onPart (fun _ => s.planes) fun planes _ => unsplit planes s.rest

/-- **Pieces put together again are what they were cut from.** -/
theorem unsplit_pieces {buffer : Plane} {sizes : List Nat} : ∀ {o : Nat} {ps : List Plane},
    pieces buffer o sizes = .ok ps → o ≤ buffer.size →
      unsplit ps (buffer.extract (o + extent sizes) buffer.size) =
        buffer.extract o buffer.size := by
  induction sizes with
  | nil =>
    intro o ps h _
    obtain rfl := Except.ok.inj h
    rfl
  | cons n ns ih =>
    intro o ps h ho
    rw [pieces, Plane.slice, size] at h
    by_cases hn : o + n ≤ buffer.size
    · by_cases hw : o + n < 0x10000000000000000
      · rw [if_pos hn, if_pos hw] at h
        simp only [bind, Except.bind] at h
        split at h
        · cases h
        · rename_i rest hr
          obtain rfl := Except.ok.inj h
          rw [extent, ← Nat.add_assoc]
          refine (congrArg (buffer.extract o (o + n) ++ ·) (ih hr hn)).trans ?_
          rw [Array.extract_append_extract, Nat.min_eq_left (Nat.le_add_right o n),
            Nat.max_eq_right hn]
      · rw [if_pos hn, if_neg hw] at h
        cases h
    · rw [if_neg hn] at h
      cases h

theorem planeSizes64_eq_ok {f : Format} {w h : Nat} (hs : w * h * 4 < 0x10000000000000000) :
    planeSizes64 f w h = .ok ((List.range f.planeCount).map (f.planeSize w h)) := by
  have hp : f.planeSize64 w h = fun i => .ok (f.planeSize w h i) :=
    funext fun i => Format.planeSize64_eq_ok hs i
  rw [planeSizes64, hp]
  exact List.mapM_pure

/-- The planes fill the frame. -/
theorem extent_planeSizes (f : Format) (w h : Nat) :
    extent ((List.range f.planeCount).map (f.planeSize w h)) = f.frameSize w h := by
  by_cases hp : f.isPlanar
  · rw [show f.planeCount = 3 from if_pos hp, Format.frameSize]
    change f.planeSize w h 0 + (f.planeSize w h 1 + (f.planeSize w h 2 + 0)) = _
    rw [Format.planeSize, Format.planeSize, Format.planeSize, Format.planeCount, if_pos hp]
    simp only [Nat.reduceLT, Nat.reduceEqDiff, if_true, if_false]
    omega
  · rw [show f.planeCount = 1 from if_neg hp, Format.frameSize, Format.chromaSize, if_neg hp]
    rfl

/-- A split is made of a buffer that holds a fit frame, by cutting off the planes. -/
theorem of_split_eq_ok {buffer : Plane} {f : Format} {w h : Nat} {s : Split}
    (hs : split buffer f w h = .ok s) : Fit f w h ∧ f.frameSize w h ≤ buffer.size ∧
      pieces buffer 0 ((List.range f.planeCount).map (f.planeSize w h)) = .ok s.planes ∧
      s.rest = buffer.extract (f.frameSize w h) buffer.size := by
  rw [split] at hs
  cases hc : checkBuffer buffer.size f w h with
  | error e =>
    rw [hc] at hs
    cases hs
  | ok _ =>
    obtain ⟨hf, hn⟩ := checkBuffer_eq_ok_iff.1 hc
    rw [hc, planeSizes64_eq_ok hf.2.2.1, Format.frameSize64_eq_ok hf.2.2.1] at hs
    simp only [attempt_ok, bind, Except.bind] at hs
    cases hp : pieces buffer 0 ((List.range f.planeCount).map (f.planeSize w h)) with
    | error e =>
      rw [hp] at hs
      cases hs
    | ok ps =>
      rw [hp] at hs
      obtain rfl := Except.ok.inj hs
      exact ⟨hf, hn, rfl, rfl⟩

/-- **What was cut up is put together again.** -/
theorem unsplit_split {buffer : Plane} {f : Format} {w h : Nat} {s : Split}
    (hs : split buffer f w h = .ok s) : unsplit s.planes s.rest = buffer := by
  obtain ⟨_, _, hp, hr⟩ := of_split_eq_ok hs
  have := unsplit_pieces hp (Nat.zero_le _)
  rw [extent_planeSizes, Nat.zero_add] at this
  rw [hr, this]
  simp

end FrameConvert
