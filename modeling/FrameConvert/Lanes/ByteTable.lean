/-
# Word permutations by a table of bytes

A table of sixteen entries picks the bytes of four words at once: entry `i` is the
pattern's byte of the word that byte `i` lies in.  Into another plane the words go
in blocks of sixty-four bytes, then of sixteen, then one at a time; in place in
blocks of sixteen and then one at a time.
-/

import FrameConvert.Lanes.Register
import FrameConvert.WordShuffle

namespace FrameConvert
namespace ByteTable

/-- The table of a permutation. -/
def ofShuffle (op : WordShuffle) : Register :=
  Vector.ofFn fun i =>
    UInt8.ofNat (4 * (i.val / 4) + (op.pattern.get ⟨i.val % 4, by omega⟩).val)

/-- The sixteen bytes of `p` at `o`, picked by a table, into `q`. -/
def moveBlock (table : Register) (o : Nat) (p q : Plane) : Checked Plane := do
  ((← Register.load p o).shuffle table).store o q

/-- The sixty-four bytes of `p` at `o`, sixteen by sixteen: all are loaded before
the first is stored. -/
def moveFour (table : Register) (o : Nat) (p q : Plane) : Checked Plane := do
  let r₀ ← Register.load p o
  let r₁ ← Register.load p (← size (o + 16))
  let r₂ ← Register.load p (← size (o + 32))
  let r₃ ← Register.load p (← size (o + 48))
  let q ← (r₀.shuffle table).store o q
  let q ← (r₁.shuffle table).store (o + 16) q
  let q ← (r₂.shuffle table).store (o + 32) q
  (r₃.shuffle table).store (o + 48) q

/-- The words of `p`, permuted, into `q`. -/
def shuffleWords (op : WordShuffle) (p q : Plane) : Checked Plane := do
  let table := ofShuffle op
  let n := min p.size q.size
  let fours := n / 64
  let q ← sweep fours (fun i q => do moveFour table (← size (64 * i)) p q) q
  let blocks := n % 64 / 16
  let q ← sweep blocks (fun i q => do moveBlock table (← size (64 * fours + 16 * i)) p q) q
  shuffleWordsFrom op (64 * fours + 16 * blocks) p q

/-- The words of a plane, permuted where they stand. -/
def reshuffleWords (op : WordShuffle) (p : Plane) : Checked Plane := do
  let table := ofShuffle op
  let blocks := p.size / 16
  let p ← sweep blocks (fun i p => do
    let o ← size (16 * i)
    ((← Register.load p o).shuffle table).store o p) p
  reshuffleWordsFrom op (16 * blocks) p

end ByteTable
end FrameConvert
