/-
# Registers byte by byte

`r.byte i` is byte `i` of a register.  Every operation on registers has one equation
for its bytes; shifts are by whole bytes, `n = 8 m`:

| operation | byte `i` |
| --- | --- |
| `r.shiftLeft16 n` | byte `i - m`, or `0` for the low `m` bytes of a 16-bit lane |
| `r.shiftRight16 n` | byte `i + m`, or `0` for the high `m` bytes of a 16-bit lane |
| `r.shiftLeft32 n`, `r.shiftRight32 n` | the same in 32-bit lanes |
| `r.shuffle table` | byte `table i`, or `0` where the high bit of the entry is set |
| `r.unpackLow s` | byte `i / 2` of `r` and of `s` in turn |

A register comes from a plane by `yields_load` and goes into one by
`Plane.Overwritten.store`.
-/

import FrameConvert.Lanes.Register
import FrameConvert.Proofs.Overwrite

namespace FrameConvert
namespace Register

/-- Byte `i`; `0` behind the end. -/
def byte (r : Register) (i : Nat) : UInt8 := if h : i < 16 then r[i] else 0

variable {r s : Register} {i n m : Nat}

theorem byte_eq (r : Register) (hi : i < 16) : r.byte i = r[i] := dif_pos hi

theorem byte_ofFn {f : Fin 16 → UInt8} (hi : i < 16) : byte (Vector.ofFn f) i = f ⟨i, hi⟩ := by
  rw [byte_eq _ hi, Vector.getElem_ofFn]

section Words

variable {k : Nat}

/-- Bits are compared byte by byte. -/
theorem byteOf_eq_of_getLsbD {w w' : BitVec n} {i j : Nat}
    (h : ∀ b < 8, w.getLsbD (8 * i + b) = w'.getLsbD (8 * j + b)) : byteOf w i = byteOf w' j := by
  refine congrArg UInt8.ofBitVec (BitVec.eq_of_getLsbD_eq fun b hb => ?_)
  rw [BitVec.getLsbD_extractLsb', BitVec.getLsbD_extractLsb', h b hb]

/-- There is nothing behind the end of a word. -/
theorem byteOf_of_le (w : BitVec n) (h : n ≤ 8 * i) : byteOf w i = 0 := by
  have : w.extractLsb' (8 * i) 8 = 0#8 := BitVec.eq_of_getLsbD_eq fun b hb => by
    rw [BitVec.getLsbD_extractLsb', BitVec.getLsbD_of_ge _ _ (by omega), BitVec.getLsbD_zero,
      Bool.and_false]
  rw [byteOf, this]
  rfl

theorem byteOf_shiftLeft (w : BitVec n) (m : Nat) (hi : 8 * i + 8 ≤ n) :
    byteOf (w <<< (8 * m)) i = if i < m then 0 else byteOf w (i - m) := by
  split
  · have : (w <<< (8 * m)).extractLsb' (8 * i) 8 = 0#8 := BitVec.eq_of_getLsbD_eq fun b hb => by
      rw [BitVec.getLsbD_extractLsb', BitVec.getLsbD_shiftLeft, BitVec.getLsbD_zero,
        decide_eq_true (by omega : 8 * i + b < 8 * m)]
      simp
    rw [byteOf, this]
    rfl
  · refine byteOf_eq_of_getLsbD fun b hb => ?_
    rw [BitVec.getLsbD_shiftLeft, decide_eq_true (by omega : 8 * i + b < n),
      decide_eq_false (by omega : ¬8 * i + b < 8 * m),
      show 8 * i + b - 8 * m = 8 * (i - m) + b by omega]
    simp

theorem byteOf_shiftRight (w : BitVec n) (m i : Nat) :
    byteOf (w >>> (8 * m)) i = byteOf w (i + m) := by
  refine byteOf_eq_of_getLsbD fun b hb => ?_
  rw [BitVec.getLsbD_ushiftRight, show 8 * m + (8 * i + b) = 8 * (i + m) + b by omega]

theorem byteOf_lane16 (r : Register) (k : Fin 8) (hi : i < 2) :
    byteOf (r.lane16 k) i = r.byte (2 * k.val + i) := by
  rw [byte_eq r (by omega)]
  refine UInt8.eq_of_toBitVec_eq (BitVec.eq_of_getLsbD_eq fun b hb => ?_)
  obtain rfl | rfl : i = 0 ∨ i = 1 := by omega
  all_goals
    simp only [byteOf, lane16, BitVec.getLsbD_extractLsb', BitVec.getLsbD_append]
    grind

theorem byteOf_lane32 (r : Register) (k : Fin 4) (hi : i < 4) :
    byteOf (r.lane32 k) i = r.byte (4 * k.val + i) := by
  rw [byte_eq r (by omega)]
  refine UInt8.eq_of_toBitVec_eq (BitVec.eq_of_getLsbD_eq fun b hb => ?_)
  obtain rfl | rfl | rfl | rfl : i = 0 ∨ i = 1 ∨ i = 2 ∨ i = 3 := by omega
  all_goals
    simp only [byteOf, lane32, BitVec.getLsbD_extractLsb', BitVec.getLsbD_append]
    grind

end Words

theorem byte_or (r s : Register) (i : Nat) : (r.or s).byte i = r.byte i ||| s.byte i := by
  by_cases hi : i < 16
  · rw [byte_eq _ hi, byte_eq r hi, byte_eq s hi, Register.or, Vector.getElem_zipWith]
  · rw [byte, byte, byte, dif_neg hi, dif_neg hi, dif_neg hi]
    rfl

theorem byte_and (r s : Register) (i : Nat) : (r.and s).byte i = r.byte i &&& s.byte i := by
  by_cases hi : i < 16
  · rw [byte_eq _ hi, byte_eq r hi, byte_eq s hi, Register.and, Vector.getElem_zipWith]
  · rw [byte, byte, byte, dif_neg hi, dif_neg hi, dif_neg hi]
    rfl

theorem byte_zero (i : Nat) : zero.byte i = 0 := by
  by_cases hi : i < 16
  · rw [byte_eq _ hi, zero, Vector.getElem_replicate]
  · rw [byte, dif_neg hi]

theorem byte_shiftLeft16 (r : Register) (hn : n = 8 * m) (hi : i < 16) :
    (r.shiftLeft16 n).byte i = if i % 2 < m then 0 else r.byte (i - m) := by
  subst hn
  rw [shiftLeft16, map16, byte_ofFn hi, byteOf_shiftLeft _ m (by omega)]
  dsimp only
  split
  · rfl
  · rw [byteOf_lane16 _ _ (by omega), show 2 * (i / 2) + (i % 2 - m) = i - m by omega]

theorem byte_shiftRight16 (r : Register) (hn : n = 8 * m) (hi : i < 16) :
    (r.shiftRight16 n).byte i = if i % 2 + m < 2 then r.byte (i + m) else 0 := by
  subst hn
  rw [shiftRight16, map16, byte_ofFn hi, byteOf_shiftRight]
  dsimp only
  split
  · rw [byteOf_lane16 _ _ (by omega), show 2 * (i / 2) + (i % 2 + m) = i + m by omega]
  · exact byteOf_of_le _ (by omega)

theorem byte_shiftLeft32 (r : Register) (hn : n = 8 * m) (hi : i < 16) :
    (r.shiftLeft32 n).byte i = if i % 4 < m then 0 else r.byte (i - m) := by
  subst hn
  rw [shiftLeft32, map32, byte_ofFn hi, byteOf_shiftLeft _ m (by omega)]
  dsimp only
  split
  · rfl
  · rw [byteOf_lane32 _ _ (by omega), show 4 * (i / 4) + (i % 4 - m) = i - m by omega]

theorem byte_shiftRight32 (r : Register) (hn : n = 8 * m) (hi : i < 16) :
    (r.shiftRight32 n).byte i = if i % 4 + m < 4 then r.byte (i + m) else 0 := by
  subst hn
  rw [shiftRight32, map32, byte_ofFn hi, byteOf_shiftRight]
  dsimp only
  split
  · rw [byteOf_lane32 _ _ (by omega), show 4 * (i / 4) + (i % 4 + m) = i + m by omega]
  · exact byteOf_of_le _ (by omega)

theorem byte_splat32 (c : BitVec 32) (hi : i < 16) : (splat32 c).byte i = byteOf c (i % 4) := by
  rw [splat32, map32, byte_ofFn hi]

/-- A byte picked by a table. -/
theorem byte_shuffle_pick {table : Register} {j : Nat} (hi : i < 16) (hj : j < 16)
    (ht : table.byte i = UInt8.ofNat j) : (r.shuffle table).byte i = r.byte j := by
  rw [byte_eq _ hi] at ht ⊢
  have hhigh : ∀ j < 16, UInt8.ofNat j &&& 0x80 = 0 := by decide
  have hlow : (UInt8.ofNat j).toNat % 16 = j := by
    rw [UInt8.toNat_ofNat']
    omega
  rw [shuffle, Vector.getElem_map, ht, if_pos (hhigh j hj), byte_eq r hj]
  simp only [hlow]
  rfl

/-- A byte that the table has none for. -/
theorem byte_shuffle_none {table : Register} (hi : i < 16) (ht : table.byte i = 0x80) :
    (r.shuffle table).byte i = 0 := by
  rw [byte_eq _ hi] at ht ⊢
  rw [shuffle, Vector.getElem_map, ht, if_neg (by decide)]

theorem byte_unpackLow (r s : Register) (hi : i < 16) :
    (r.unpackLow s).byte i = if i % 2 = 0 then r.byte (i / 2) else s.byte (i / 2) := by
  rw [unpackLow, byte_ofFn hi, byte_eq r (by omega), byte_eq s (by omega)]
  rfl

/-- The sixteen bytes of a plane. -/
theorem yields_load {p : Plane} {o : Nat} (h : o + 16 ≤ p.size) :
    Yields (load p o) fun r => ∀ i < 16, r.byte i = p.byte (o + i) := by
  refine yields_of_eq_ok (dif_pos h) fun i hi => ?_
  rw [byte_ofFn hi, Plane.byte_eq_getElem (by omega)]

/-- Sixteen of the next `k` bytes of a plane that still has those of `x` there. -/
theorem yields_loadWithin {p : Plane} {o d k : Nat} {x : Nat → UInt8} (hp : o + k ≤ p.size)
    (hx : ∀ i < k, p.byte (o + i) = x (o + i)) (hd : d + 16 ≤ k) :
    Yields (load p (o + d)) fun r => ∀ i < 16, r.byte i = x (o + d + i) := by
  refine (yields_load (by omega)).mono fun r hr i hi => ?_
  rw [hr i hi, Nat.add_assoc, hx (d + i) (by omega)]

theorem getD_toList (r : Register) (hi : i < 16) : r.toList.getD i 0 = r.byte i := by
  rw [byte_eq r hi, List.getD_eq_getElem?_getD, Vector.getElem?_toList,
    Vector.getElem?_eq_getElem hi, Option.getD_some]

end Register

/-- Sixteen bytes further to the left. -/
theorem Plane.Overwritten.store {p q : Plane} {r : Register} {o : Nat} {F : Nat → UInt8}
    (hq : p.Overwritten o F q) (ho : o + 16 ≤ p.size) (hr : ∀ i < 16, r.byte i = F (o + i)) :
    Yields (r.store o q) (p.Overwritten (o + 16) F) := by
  have hl : r.toList.length = 16 := r.length_toList
  refine (hq.writeAll (by omega) fun i hi => ?_).mono fun t ht => ht.of_eq (by omega)
  rw [r.getD_toList (by omega), hr i (by omega)]

end FrameConvert
