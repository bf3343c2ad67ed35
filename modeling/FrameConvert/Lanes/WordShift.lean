/-
# Word permutations by lane shifts and masks

Four words at a time, with shifts of 16-bit and 32-bit lanes and byte masks alone:

| permutation | on a register |
| --- | --- |
| `swapPairs` | 16-bit lanes by 8 up, or by 8 down |
| `swapOdd` | bytes 0 and 2 kept, byte 1 up by 16, byte 3 down by 16 |
| `swapEven` | bytes 1 and 3 kept, byte 0 up by 16, byte 2 down by 16 |
| `reverse` | `swapPairs`, then 32-bit lanes by 16 up, or by 16 down |
| `rotateRight` | 32-bit lanes by 8 up, or by 24 down |
| `rotateLeft` | 32-bit lanes by 8 down, or by 24 up |

A plane is permuted in blocks of sixteen bytes, and the words behind the last whole
block one at a time.
-/

import FrameConvert.Lanes.Register
import FrameConvert.WordShuffle

namespace FrameConvert
namespace WordShift

/-- Neighbouring bytes change places. -/
def swapPairs (r : Register) : Register := (r.shiftLeft16 8).or (r.shiftRight16 8)

/-- The bytes under `kept` stay, those under `up` move up by two, those under
`down` move down by two. -/
def exchange (kept up down : BitVec 32) (r : Register) : Register :=
  (r.and (.splat32 kept)).or
    (((r.and (.splat32 up)).shiftLeft32 16).or ((r.and (.splat32 down)).shiftRight32 16))

/-- The four words of a register permuted. -/
def onRegister : WordShuffle → Register → Register
  | .swapPairs, r => swapPairs r
  | .swapOdd, r => exchange 0x00FF00FF 0x0000FF00 0xFF000000 r
  | .swapEven, r => exchange 0xFF00FF00 0x000000FF 0x00FF0000 r
  | .reverse, r =>
    let s := swapPairs r
    (s.shiftLeft32 16).or (s.shiftRight32 16)
  | .rotateRight, r => (r.shiftLeft32 8).or (r.shiftRight32 24)
  | .rotateLeft, r => (r.shiftRight32 8).or (r.shiftLeft32 24)

/-- The words of `p`, permuted, into `q`. -/
def shuffleWords (op : WordShuffle) (p q : Plane) : Checked Plane := do
  let blocks := min p.size q.size / 16
  let q ← sweep blocks (fun i q => do
    let o ← size (16 * i)
    (onRegister op (← Register.load p o)).store o q) q
  shuffleWordsFrom op (16 * blocks) p q

/-- The words of a plane, permuted where they stand. -/
def reshuffleWords (op : WordShuffle) (p : Plane) : Checked Plane := do
  let blocks := p.size / 16
  let p ← sweep blocks (fun i p => do
    let o ← size (16 * i)
    (onRegister op (← Register.load p o)).store o p) p
  reshuffleWordsFrom op (16 * blocks) p

end WordShift
end FrameConvert
