/-
# Between planar and packed frames

A macro pixel takes two neighbouring luma samples and one chroma pair.  Its chroma
comes from, and goes to, a grid of samples:

| grid | macro pixel `x` of row `y` takes | sample `cx`, `cy` takes |
| --- | --- | --- |
| 4:4:4 | the mean of samples `2x`, `2x + 1` of row `y` | macro pixel `cx / 2` of row `cy` |
| 4:2:2 | sample `x` of row `y` | macro pixel `cx` of row `cy` |
| 4:2:0 | sample `x` of row `y / 2` | the mean of macro pixels `cx` of rows `2cy`, `2cy + 1` |

Means are rounded down.  4:1:1 has no packed counterpart, and luma alone takes part
with neutral chroma.
-/

import FrameConvert.Transfer.Planar

namespace FrameConvert

/-- The mean of two samples, rounded down. -/
def mean₂ (a b : UInt8) : UInt8 := UInt8.ofNat ((a.toNat + b.toNat) / 2)

/-- The chroma that plane `p` has for macro pixel `x` of row `y`. -/
def macroChroma (s : Subsampling) (p : Plane) (w x y : Nat) : Checked UInt8 := do
  let row ← size (y / s.down * (w / s.across))
  if s.across = 1 then
    let a ← p.read (← size (row + 2 * x))
    let b ← p.read (← size (row + 2 * x + 1))
    return mean₂ a b
  else
    p.read (← size (row + 2 * x / s.across))

/-- A planar frame into a packed one. -/
def planarToPacked (a : PlanarLayout) (o : MacroOrder) : Transfer := fun src dst w h => do
  let luma ← planeOf src 0
  let stride ← chunk (← size (w * 2))
  onPlane dst 0 (sweep h fun y q => do
    let yRow ← luma.row y w
    sweep (w / 2) (fun x q => do
      let y₀ ← yRow.read (2 * x)
      let y₁ ← yRow.read (2 * x + 1)
      let word ← match a with
        | .luma => pure (o.word y₀ y₁ neutral neutral)
        | .chroma s k => do
          let u ← macroChroma s (← planeOf src k.u) w x y
          let v ← macroChroma s (← planeOf src k.v) w x y
          pure (o.word y₀ y₁ u v)
      q.writeAll (← size (y * stride + 4 * x)) word) q)

/-- The luma of a packed frame. -/
def unpackLuma (o : MacroOrder) (w h : Nat) (p q : Plane) : Checked Plane := do
  let w ← chunk w
  let stride ← chunk (← size (w * 2))
  sweep h (fun y q => do
    let row ← p.row y stride
    sweep (w / 2) (fun x q => do
      let y₀ ← row.read (4 * x + o.y₀)
      let y₁ ← row.read (4 * x + o.y₁)
      q.writeAll (← size (y * w + 2 * x)) [y₀, y₁]) q) q

/-- The chroma of a packed frame at position `k` of its macro pixels, on a grid. -/
def unpackChroma (k : Nat) (t : Subsampling) (w h : Nat) (p q : Plane) : Checked Plane :=
  sweep (h / t.down) (fun cy q => do
    let cw := w / t.across
    let _ ← q.row cy cw
    sweep cw (fun cx q => do
      let pair := if t.across = 1 then cx / 2 else cx
      let s ← sweep t.down (fun j s => do
        let v ← p.read (← size ((cy * t.down + j) * w * 2 + pair * 4 + k))
        total (s + v.toNat)) 0
      let v ← quotient s t.down
      q.write (← size (cy * cw + cx)) (UInt8.ofNat v)) q) q

/-- A packed frame into a planar one. -/
def packedToPlanar (o : MacroOrder) (b : PlanarLayout) : Transfer := fun src dst w h => do
  let p ← (← planeOf src 0).slice 0 (← size (w * 2 * h))
  let dst ← onPlane dst 0 (unpackLuma o w h p)
  match b with
  | .luma => return dst
  | .chroma t k =>
    onPlane (← onPlane dst k.u (unpackChroma o.u t w h p)) k.v (unpackChroma o.v t w h p)

end FrameConvert
