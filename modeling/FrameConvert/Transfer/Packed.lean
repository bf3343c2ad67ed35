/-
# Between packed frames

A macro pixel is reordered sample by sample.  Pairs with `YUYV` on one side are
reordered at once; the other two go through a scratch frame in `YUYV` order, so
that each order needs its positions only once.  In place every macro pixel is read
whole before it is written.
-/

import FrameConvert.Transfer

namespace FrameConvert

/-- The bytes in one order of the macro pixel that `p` holds at byte `i` in
another. -/
def macroBytes (a b : MacroOrder) (i : Nat) (p : Plane) : Checked (List UInt8) := do
  let y₀ ← p.read (← size (i + a.y₀))
  let y₁ ← p.read (← size (i + a.y₁))
  let u ← p.read (← size (i + a.u))
  let v ← p.read (← size (i + a.v))
  return b.word y₀ y₁ u v

/-- The macro pixels of a plane, in another order. -/
def reorder (a b : MacroOrder) (p q : Plane) : Checked Plane :=
  sweep (min p.size q.size / 4) (fun i q => do
    let o ← size (4 * i)
    q.writeAll o (← macroBytes a b o p)) q

/-- A packed frame into another: directly if one of them is `YUYV`, otherwise
through a scratch frame. -/
def packedToPacked (a b : MacroOrder) : Transfer := fun src dst w h => do
  let n ← size (w * 2 * h)
  let p ← (← planeOf src 0).slice 0 n
  onPlane dst 0 (onFront n fun q =>
    if a = .yuyv ∨ b = .yuyv then reorder a b p q
    else do
      let scratch ← reorder a .yuyv p (Array.replicate n 0)
      reorder .yuyv b scratch q)

/-- A packed frame reordered where it stands. -/
def packedRework (a b : MacroOrder) : Rework := fun planes w h => do
  let n ← size (w * 2 * h)
  onPlane planes 0 (onFront n fun p => sweep (p.size / 4) (fun i p => do
    let o ← size (4 * i)
    p.writeAll o (← macroBytes a b o p)) p)

end FrameConvert
