/-
# Eight pixels of a row at a time

Eight luma samples and their chroma are widened to signed 32-bit lanes, multiplied
by the coefficients, rounded and shifted down by 16.  What is computed up to the
shift is a `Lanes.Term` of products and sums, each of them done in every lane apart.
Two packs then narrow the lanes, first to 16 and then to 8 bits, each clamping to its
range and each working on the two halves apart:

| pack | half `h` of the result |
| --- | --- |
| `packWords a b` | lanes `4h` … `4h + 3` of `a`, then those of `b` |
| `packBytes a b` | lanes `8h` … `8h + 7` of `a`, then those of `b` |

So the bytes of red and green lie at `r₀ … r₃ g₀ … g₃` in the low half and at
`r₄ … r₇ g₄ … g₇` in the high one: pixel `i` is at byte `i` for `i < 4` and at byte
`12 + i` otherwise, its green four bytes on.

`start` is a `RowStart`: it writes the whole groups of eight pixels of a row and
leaves the rest.
-/

import FrameConvert.Lanes.Register
import FrameConvert.Transfer.ToPixels

namespace FrameConvert

/-- Eight signed 32-bit lanes. -/
abbrev Lanes := Vector (BitVec 32) 8

namespace Lanes

/-- The low eight bytes of a register. -/
def widen (r : Register) : Lanes :=
  Vector.ofFn fun i => (r.get ⟨i.val, by omega⟩).toBitVec.setWidth 32

/-- Every lane is `c`. -/
def splat (c : Int) : Lanes := Vector.replicate 8 (BitVec.ofInt 32 c)

def add (a b : Lanes) : Lanes := Vector.zipWith (· + ·) a b
def sub (a b : Lanes) : Lanes := Vector.zipWith (· - ·) a b
def mul (a b : Lanes) : Lanes := Vector.zipWith (· * ·) a b

/-- What is computed in lanes: widened bytes and constants, put together. -/
inductive Term
  | bytes (r : Register)
  | splat (c : Int)
  | add (a b : Term)
  | sub (a b : Term)
  | mul (a b : Term)

namespace Term

/-- The lanes of a term. -/
def lanes : Term → Lanes
  | bytes r => widen r
  | splat c => Lanes.splat c
  | add a b => a.lanes.add b.lanes
  | sub a b => a.lanes.sub b.lanes
  | mul a b => a.lanes.mul b.lanes

/-- A term and one half. -/
def rounded (t : Term) : Term := t.add (splat FixedPoint.half)

/-- Every lane rounded and shifted down by 16, the sign moving in. -/
def descale (t : Term) : Lanes := t.rounded.lanes.map (·.sshiftRight 16)

end Term

/-- A signed lane clamped to sixteen bits. -/
def clamp16 (x : BitVec 32) : BitVec 16 := BitVec.ofInt 16 (max (-32768) (min x.toInt 32767))

/-- A signed lane clamped to a byte. -/
def clamp8 (x : BitVec 16) : UInt8 := UInt8.ofNat (max 0 (min x.toInt 255)).toNat

/-- Two times eight lanes narrowed to sixteen, half by half. -/
def packWords (a b : Lanes) : Vector (BitVec 16) 16 :=
  Vector.ofFn fun i =>
    let h := i.val / 8
    let j := i.val % 8
    if _ : j < 4 then clamp16 (a.get ⟨4 * h + j, by omega⟩)
    else clamp16 (b.get ⟨4 * h + (j - 4), by omega⟩)

/-- Two times sixteen lanes narrowed to thirty-two, half by half. -/
def packBytes (a b : Vector (BitVec 16) 16) : Vector UInt8 32 :=
  Vector.ofFn fun i =>
    let h := i.val / 16
    let j := i.val % 16
    if _ : j < 8 then clamp8 (a.get ⟨8 * h + j, by omega⟩)
    else clamp8 (b.get ⟨8 * h + (j - 8), by omega⟩)

/-- The place of pixel `i` among the packed bytes. -/
def place (i : Fin 8) : Nat := if i.val < 4 then i.val else 12 + i.val

theorem place_lt (i : Fin 8) : place i + 4 < 32 := by
  unfold place
  split <;> omega

end Lanes

namespace RowLanes

/-- The first `n ≤ 16` bytes of a plane at byte `o`, and zeros. -/
def loadPart (p : Plane) (o n : Nat) : Checked Register := do
  let s ← p.slice o n
  return Vector.ofFn fun i => s.byte i.val

/-- The chroma of eight pixels, one sample per pixel. -/
def loadChroma (s : Subsampling) (row : Plane) (o : Nat) : Checked Register := do
  let r ← loadPart row o (8 / s.across)
  return match s with
    | .s444 => r
    | .s420 | .s422 => r.unpackLow r
    | .s411 =>
      let pairs := r.unpackLow r
      pairs.unpackLow pairs

/-- Eight luma samples, less black and weighted. -/
def lumaTerm (y : Register) : Lanes.Term := .mul (.sub (.bytes y) (.splat 16)) (.splat 71392)

/-- Eight chroma samples, less neutral. -/
def chromaTerm (c : Register) : Lanes.Term := .sub (.bytes c) (.splat 128)

def redSum (y v : Register) : Lanes.Term :=
  .add (lumaTerm y) (.mul (chromaTerm v) (.splat 98007))

def greenSum (y u v : Register) : Lanes.Term :=
  .add (lumaTerm y)
    (.add (.mul (chromaTerm u) (.splat (-24057))) (.mul (chromaTerm v) (.splat (-51842))))

def blueSum (y u : Register) : Lanes.Term :=
  .add (lumaTerm y) (.mul (chromaTerm u) (.splat 123872))

/-- The colours of eight pixels. -/
def colours (y u v : Register) : Vector Rgb 8 :=
  let b := (blueSum y u).descale
  let rg := Lanes.packWords (redSum y v).descale (greenSum y u v).descale
  let bb := Lanes.packWords b b
  let rgBytes := Lanes.packBytes rg rg
  let bBytes := Lanes.packBytes bb bb
  Vector.ofFn fun i =>
    have := Lanes.place_lt i
    ⟨rgBytes[Lanes.place i], rgBytes[Lanes.place i + 4], bBytes[Lanes.place i]⟩

/-- The bytes of pixels `x`, …, `x + 7`. -/
def eight (s : Subsampling) (k : PixelOrder) (yRow uRow vRow : Plane) (x : Nat) :
    Checked (List UInt8) := do
  let y ← loadPart yRow x 8
  let u ← loadChroma s uRow (x / s.across)
  let v ← loadChroma s vRow (x / s.across)
  return (colours y u v).toList.flatMap fun c => k.bytes c 0

/-- The groups of eight pixels from pixel `x` on, as long as there are eight. -/
def startFrom (s : Subsampling) (k : PixelOrder) (yRow uRow vRow : Plane) (w x : Nat)
    (row : Plane) : Checked StartedRow := do
  let _ ← size (x + 8)
  if x + 8 ≤ w then
    let bytes ← eight s k yRow uRow vRow x
    let _ ← size ((x + 8) * k.channels)
    let row ← row.writeAll (← size (x * k.channels)) bytes
    startFrom s k yRow uRow vRow w (x + 8) row
  else return ⟨x, row⟩
  termination_by w - x

/-- Begins a row with its whole groups of eight pixels. -/
def start (s : Subsampling) (k : PixelOrder) : RowStart := fun y u v row w =>
  startFrom s k y u v w 0 row

end RowLanes
end FrameConvert
