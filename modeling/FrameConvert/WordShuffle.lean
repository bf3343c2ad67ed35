/-
# Permutations of four-byte words

Macro pixels and colour pixels with alpha are four bytes, and every reorder between
two of their formats is one of six permutations.  The pattern of a permutation
lists, for each byte of the result, the byte of the source:

| permutation | pattern | inverse |
| --- | --- | --- |
| `swapPairs` | `1 0 3 2` | itself |
| `swapOdd` | `0 3 2 1` | itself |
| `swapEven` | `2 1 0 3` | itself |
| `reverse` | `3 2 1 0` | itself |
| `rotateRight` | `3 0 1 2` | `rotateLeft` |
| `rotateLeft` | `1 2 3 0` | `rotateRight` |

`shuffleWords` permutes the whole words of a plane one at a time; up to three bytes
behind the last whole word stay.
-/

import FrameConvert.Format

namespace FrameConvert

/-- A permutation of the bytes of a word. -/
inductive WordShuffle
  | swapPairs | swapOdd | swapEven | reverse | rotateRight | rotateLeft
  deriving DecidableEq, Repr

namespace WordShuffle

/-- For each byte of the result, the byte of the source. -/
def pattern : WordShuffle → Vector (Fin 4) 4
  | swapPairs => #v[1, 0, 3, 2]
  | swapOdd => #v[0, 3, 2, 1]
  | swapEven => #v[2, 1, 0, 3]
  | reverse => #v[3, 2, 1, 0]
  | rotateRight => #v[3, 0, 1, 2]
  | rotateLeft => #v[1, 2, 3, 0]

/-- The permuted word. -/
def apply (op : WordShuffle) (word : Vector UInt8 4) : Vector UInt8 4 :=
  op.pattern.map word.get

/-- The permutation that undoes another. -/
def inverse : WordShuffle → WordShuffle
  | rotateRight => rotateLeft
  | rotateLeft => rotateRight
  | op => op

theorem inverse_pattern (op : WordShuffle) (i : Fin 4) :
    op.inverse.pattern.get (op.pattern.get i) = i ∧
      op.pattern.get (op.inverse.pattern.get i) = i := by
  revert i
  cases op <;> decide

/-- The permutation that reorders one format into another. -/
def between? : Format → Format → Option WordShuffle
  | .yuy2, .uyvy | .uyvy, .yuy2 => some swapPairs
  | .yuy2, .yvyu | .yvyu, .yuy2 => some swapOdd
  | .uyvy, .yvyu => some rotateLeft
  | .yvyu, .uyvy => some rotateRight
  | .rgba32, .bgra32 | .bgra32, .rgba32 => some swapEven
  | .abgr32, .argb32 | .argb32, .abgr32 => some swapOdd
  | .rgba32, .abgr32 | .abgr32, .rgba32 | .bgra32, .argb32 | .argb32, .bgra32 => some reverse
  | .rgba32, .argb32 | .bgra32, .abgr32 => some rotateRight
  | .argb32, .rgba32 | .abgr32, .bgra32 => some rotateLeft
  | _, _ => none

end WordShuffle

/-- The four bytes of a plane at byte `o`. -/
def readWord (p : Plane) (o : Nat) : Checked (Vector UInt8 4) := do
  let b₀ ← p.read o
  let b₁ ← p.read (← size (o + 1))
  let b₂ ← p.read (← size (o + 2))
  let b₃ ← p.read (← size (o + 3))
  return #v[b₀, b₁, b₂, b₃]

/-- The words of `p` from byte `o` on, permuted, into `q`. -/
def shuffleWordsFrom (op : WordShuffle) (o : Nat) (p q : Plane) : Checked Plane :=
  sweep ((min p.size q.size - o) / 4) (fun i q => do
    let at₀ ← size (o + 4 * i)
    q.writeAll at₀ (op.apply (← readWord p at₀)).toList) q

/-- The words of `p`, permuted, into `q`. -/
def shuffleWords (op : WordShuffle) (p q : Plane) : Checked Plane :=
  shuffleWordsFrom op 0 p q

/-- The words of a plane from byte `o` on, permuted where they stand. -/
def reshuffleWordsFrom (op : WordShuffle) (o : Nat) (p : Plane) : Checked Plane :=
  sweep ((p.size - o) / 4) (fun i p => do
    let at₀ ← size (o + 4 * i)
    p.writeAll at₀ (op.apply (← readWord p at₀)).toList) p

/-- The words of a plane, permuted where they stand. -/
def reshuffleWords (op : WordShuffle) (p : Plane) : Checked Plane :=
  reshuffleWordsFrom op 0 p

end FrameConvert
