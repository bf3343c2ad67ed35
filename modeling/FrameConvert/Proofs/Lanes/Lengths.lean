/-
# Planes of any length

Words are permuted and pixels swapped in planes of any length, also one that ends in the middle of a
block or of a unit.  Blocks go as far as there are whole ones, and the units behind the last block
follow one at a time; what is left then is less than a unit, and stays:

| of a plane of `n` bytes | whole units | left |
| --- | --- | --- |
| words (`WordShuffle.Permuted`) | `n / 4` | `n mod 4` |
| pixels (`PixelSwap.Swapped`) | `n / 3` | `n mod 3` |

Where the blocks end cannot be told from the result: it is that of the units one by one
(`lanes_permute_every_length`, `blocks_swap_every_length`).  Both come down to what is done to a
register.  For words it is the pattern, four times; for pixels, which straddle registers, a byte is
picked from exactly one of three registers, and the tables for the other two leave it clear.
-/

import FrameConvert.Proofs.Lanes.Words
import FrameConvert.Proofs.Lanes.Swap

namespace FrameConvert

/-- The bytes `0`, `1`, … of a plane of `n`. -/
def ramp (n : Nat) : Plane := .ofFn fun i : Fin n => UInt8.ofNat i.val

variable {p q r : Plane}

namespace WordShuffle

variable {op : WordShuffle}

/-- `r` is `q` with the whole words of `p` in front, permuted; the bytes behind them stay. -/
structure Permuted (op : WordShuffle) (p q r : Plane) : Prop where
  size : r.size = q.size
  word : ∀ m < q.size / 4, ∀ i : Fin 4,
    r.byte (4 * m + i.val) = p.byte (4 * m + (op.pattern.get i).val)
  rest : ∀ j, q.size / 4 * 4 ≤ j → r.byte j = q.byte j

theorem Permuted.of_overwritten
    (h : q.Overwritten (q.size / 4 * 4) (fun j => p.byte (op.source j)) r) : op.Permuted p q r := by
  refine ⟨h.size, fun m hm i => ?_, fun j hj => h.above hj⟩
  rw [h.below (by omega), op.source_word (Nat.dvd_mul_right 4 m)]

/-- **Lanes permute the words of a plane as they are permuted one by one,** whatever its length, as
long as its bytes are counted in a word.  The whole words of a plane go into another of the same
length, or where they stand, each permuted by the pattern, and the up to three bytes behind them
stay; shifts and masks in blocks of sixteen bytes and tables in blocks of sixty-four and of sixteen
leave exactly the same plane.  Where the words stand, the inverse restores them.  On a register,
shifts and masks put the bytes of each of its four words where the pattern says, and so does the
table, whose entries are the pattern's. -/
theorem lanes_permute_every_length (op : WordShuffle) :
    (∀ p q : Plane, p.size = q.size → q.size < 0x10000000000000000 →
      Yields (shuffleWords op p q) (op.Permuted p q) ∧
      WordShift.shuffleWords op p q = shuffleWords op p q ∧
      ByteTable.shuffleWords op p q = shuffleWords op p q) ∧
    (∀ p : Plane, p.size < 0x10000000000000000 →
      Yields (reshuffleWords op p)
        (fun r => op.Permuted p p r ∧ reshuffleWords op.inverse r = .ok p) ∧
      WordShift.reshuffleWords op p = reshuffleWords op p ∧
      ByteTable.reshuffleWords op p = reshuffleWords op p) ∧
    ∀ (r : Register) (k i : Fin 4),
      (WordShift.onRegister op r).byte (4 * k.val + i.val) =
        r.byte (4 * k.val + (op.pattern.get i).val) ∧
      (r.shuffle (ByteTable.ofShuffle op)).byte (4 * k.val + i.val) =
        r.byte (4 * k.val + (op.pattern.get i).val) ∧
      (ByteTable.ofShuffle op).byte (4 * k.val + i.val) =
        UInt8.ofNat (4 * k.val + (op.pattern.get i).val) := by
  refine ⟨fun p q hsize hlt => ⟨?_, ?_, ?_⟩, fun p hlt => ⟨?_, ?_, ?_⟩, fun r k i => ?_⟩
  · exact (shuffleWords_moves op _ p q hlt hsize rfl).mono fun r hr => .of_overwritten hr
  · exact (wordShift_moves op).eq (shuffleWords_moves op) hsize hlt
  · exact (byteTable_moves op).eq (shuffleWords_moves op) hsize hlt
  · obtain ⟨r, hr, hrp⟩ := reshuffleWords_movesInPlace op _ p hlt rfl
    refine ⟨r, hr, .of_overwritten hrp, ?_⟩
    exact (reshuffleWords_movesInPlace op).back (reshuffleWords_movesInPlace op.inverse)
      op.inverse.source_inside op.source_inverse hlt hr
  · exact (wordShift_movesInPlace op).eq (reshuffleWords_movesInPlace op) hlt
  · exact (byteTable_movesInPlace op).eq (reshuffleWords_movesInPlace op) hlt
  · have hword : op.source (4 * k.val + i.val) = 4 * k.val + (op.pattern.get i).val :=
      op.source_word (Nat.dvd_mul_right 4 k.val) i
    have hlt : 4 * k.val + i.val < 16 := by omega
    rw [← hword]
    exact ⟨WordShift.onRegister_permutes op r _ hlt, ByteTable.shuffle_permutes op r _ hlt,
      ByteTable.byte_ofShuffle op hlt⟩

/-- The bytes `0`, …, `86` rotated, into blanks and where they stand: a block of sixty-four, one of
sixteen, one word, and three bytes that stay; and rotated back. -/
theorem eighty_seven_bytes_rotated :
    (∃ r : Plane, WordShift.shuffleWords .rotateRight (ramp 87) (.replicate 87 255) = .ok r ∧
      ByteTable.shuffleWords .rotateRight (ramp 87) (.replicate 87 255) = .ok r ∧
      [0, 1, 64, 79, 80, 83, 84, 86].map r.byte = [3, 0, 67, 78, 83, 82, 255, 255]) ∧
    ∃ r : Plane, WordShift.reshuffleWords .rotateRight (ramp 87) = .ok r ∧
      ByteTable.reshuffleWords .rotateRight (ramp 87) = .ok r ∧
      [79, 80, 83, 84, 86].map r.byte = [78, 83, 82, 84, 86] ∧
      reshuffleWords .rotateLeft r = .ok (ramp 87) := by
  obtain ⟨hinto, hinPlace, -⟩ := lanes_permute_every_length .rotateRight
  obtain ⟨⟨r, hr, hpr⟩, hshift, htable⟩ := hinto (ramp 87) (.replicate 87 255) rfl (by decide)
  obtain ⟨⟨s, hs, hps, hback⟩, hshift', htable'⟩ := hinPlace (ramp 87) (by decide)
  constructor
  · refine ⟨r, hshift.trans hr, htable.trans hr, ?_⟩
    simp only [List.map_cons, List.map_nil, List.cons.injEq, and_true]
    exact ⟨hpr.word 0 (by decide) 0, hpr.word 0 (by decide) 1, hpr.word 16 (by decide) 0,
      hpr.word 19 (by decide) 3, hpr.word 20 (by decide) 0, hpr.word 20 (by decide) 3,
      hpr.rest 84 (by decide), hpr.rest 86 (by decide)⟩
  · refine ⟨s, hshift'.trans hs, htable'.trans hs, ?_, hback⟩
    simp only [List.map_cons, List.map_nil, List.cons.injEq, and_true]
    exact ⟨hps.word 19 (by decide) 3, hps.word 20 (by decide) 0, hps.word 20 (by decide) 3,
      hps.rest 84 (by decide), hps.rest 86 (by decide)⟩

end WordShuffle

namespace PixelSwap

/-- `r` is `q` with the whole pixels of `p` in front, red and blue swapped; the bytes behind them
stay. -/
structure Swapped (p q r : Plane) : Prop where
  size : r.size = q.size
  pixel : ∀ m < q.size / 3, r.byte (3 * m) = p.byte (3 * m + 2) ∧
    r.byte (3 * m + 1) = p.byte (3 * m + 1) ∧ r.byte (3 * m + 2) = p.byte (3 * m)
  rest : ∀ j, q.size / 3 * 3 ≤ j → r.byte j = q.byte j

theorem Swapped.of_overwritten
    (h : q.Overwritten (q.size / 3 * 3) (fun j => p.byte (source j)) r) : Swapped p q r := by
  refine ⟨h.size, fun m hm => ⟨?_, ?_, ?_⟩, fun j hj => h.above hj⟩
  · rw [h.below (by omega), show source (3 * m) = 3 * m + 2 by rw [source]; omega]
  · rw [h.below (by omega), show source (3 * m + 1) = 3 * m + 1 by rw [source]; omega]
  · rw [h.below (by omega), show source (3 * m + 2) = 3 * m by rw [source]; omega]

/-- **Blocks swap the pixels of a plane as they are swapped one by one,** whatever its length, as
long as its bytes are counted in a word.  The whole pixels of a plane go into another of the same
length, or where they stand, each with red and blue swapped, and the up to two bytes behind them
stay; blocks of sixteen pixels leave exactly the same plane.  Where the pixels stand, swapping twice
restores them.  In a block, every byte of an output register is picked from exactly one of the three
input registers, at the place that the swap takes it from, and the tables for the other two leave it
clear. -/
theorem blocks_swap_every_length :
    (∀ p q : Plane, p.size = q.size → q.size < 0x10000000000000000 →
      Yields (swap p q) (Swapped p q) ∧ swap p q = swapPixelsFrom 0 p q) ∧
    (∀ p : Plane, p.size < 0x10000000000000000 →
      Yields (reswap p) (fun r => Swapped p p r ∧ reswap r = .ok p) ∧
      reswap p = reswapPixelsFrom 0 p) ∧
    ∀ (k : Fin 3) (j : Fin 16), ∃ (m : Fin 3) (l : Fin 16),
      16 * m.val + l.val =
        3 * ((16 * k.val + j.val) / 3) + 2 - (16 * k.val + j.val) % 3 ∧
      (table k m).byte j = UInt8.ofNat l ∧
      (∀ m', m' ≠ m → (table k m').byte j = 0x80) ∧
      ∀ rows : Vector Register 3,
        ((rows.get m).shuffle (table k m)).byte j = (rows.get m).byte l ∧
        (∀ m', m' ≠ m → ((rows.get m').shuffle (table k m')).byte j = 0) ∧
        ((onRegisters rows).get k).byte j = (rows.get m).byte l := by
  refine ⟨fun p q hsize hlt => ⟨?_, ?_⟩, fun p hlt => ⟨?_, ?_⟩, fun k j => ?_⟩
  · exact (swap_moves _ p q hlt hsize rfl).mono fun r hr => .of_overwritten hr
  · exact swap_moves.eq swapPixels_moves hsize hlt
  · obtain ⟨r, hr, hrp⟩ := reswap_movesInPlace _ p hlt rfl
    refine ⟨r, hr, .of_overwritten hrp, ?_⟩
    exact reswap_movesInPlace.back reswap_movesInPlace source_inside source_source hlt hr
  · exact reswap_movesInPlace.eq reswapPixels_movesInPlace hlt
  · obtain ⟨m, l, hs, hpick, hnone⟩ := exists_pick k j.isLt
    refine ⟨m, l, hs, hpick, hnone, fun rows => ⟨?_, fun m' hm' => ?_, ?_⟩⟩
    · exact Register.byte_shuffle_pick j.isLt l.isLt hpick
    · exact Register.byte_shuffle_none j.isLt (hnone m' hm')
    · exact byte_onRegisters rows k j.isLt l.isLt hs

/-- The bytes `0`, …, `52` swapped, into blanks and where they stand: a block of forty-eight, one
pixel, and two bytes that stay; and swapped back. -/
theorem fifty_three_bytes_swapped :
    (∃ r : Plane, swap (ramp 53) (.replicate 53 255) = .ok r ∧
      [0, 15, 16, 17, 47, 48, 50, 51].map r.byte = [2, 17, 16, 15, 45, 50, 48, 255]) ∧
    ∃ r : Plane, reswap (ramp 53) = .ok r ∧ [47, 48, 51].map r.byte = [45, 50, 51] ∧
      reswap r = .ok (ramp 53) := by
  obtain ⟨hinto, hinPlace, -⟩ := blocks_swap_every_length
  obtain ⟨r, hr, hpr⟩ := (hinto (ramp 53) (.replicate 53 255) rfl (by decide)).1
  obtain ⟨s, hs, hps, hback⟩ := (hinPlace (ramp 53) (by decide)).1
  constructor
  · refine ⟨r, hr, ?_⟩
    obtain ⟨h₁₅, h₁₆, h₁₇⟩ := hpr.pixel 5 (by decide)
    obtain ⟨h₄₈, -, h₅₀⟩ := hpr.pixel 16 (by decide)
    simp only [List.map_cons, List.map_nil, List.cons.injEq, and_true]
    exact ⟨(hpr.pixel 0 (by decide)).1, h₁₅, h₁₆, h₁₇, (hpr.pixel 15 (by decide)).2.2, h₄₈, h₅₀,
      hpr.rest 51 (by decide)⟩
  · refine ⟨s, hs, ?_, hback⟩
    simp only [List.map_cons, List.map_nil, List.cons.injEq, and_true]
    exact ⟨(hps.pixel 15 (by decide)).2.2, (hps.pixel 16 (by decide)).1, hps.rest 51 (by decide)⟩

end PixelSwap
end FrameConvert
