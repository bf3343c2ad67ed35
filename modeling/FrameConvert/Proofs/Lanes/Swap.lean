/-
# Red and blue in lanes

Three-byte pixels straddle registers, so a block is three of them.  Byte `i` of a block
comes from byte `source i` of it: that is in input register `source i / 16`, and of the
three tables for its output register exactly the one for that input picks it
(`exists_pick`); the other two give `0`, which the union drops (`byte_onRegisters`).
Whole blocks keep to themselves (`source_block`), and the pixels behind the last one
follow one at a time, as all of them do where there are no blocks:

| way | blocks | into another plane | where it stands |
| --- | --- | --- | --- |
| one by one | 3 bytes | `swapPixels_moves` | `reswapPixels_movesInPlace` |
| three registers | 48 bytes | `swap_moves` | `reswap_movesInPlace` |
-/

import FrameConvert.Lanes.PixelSwap
import FrameConvert.Proofs.Lanes.Registers
import FrameConvert.Proofs.Lanes.Moves

namespace FrameConvert
namespace PixelSwap

variable {p q r : Plane} {x : Nat → UInt8} {o n i : Nat}

/-- Blocks of whole pixels are swapped apart from each other. -/
theorem source_block (ho : 3 ∣ o) (i : Nat) : source (o + i) = o + source i := by
  obtain ⟨m, rfl⟩ := ho
  have hd : (3 * m + i) / 3 = m + i / 3 := by omega
  have hm : (3 * m + i) % 3 = i % 3 := by omega
  rw [source, source, hd, hm]
  omega

/-- A byte comes from inside the whole pixels. -/
theorem source_inside (m j : Nat) (hj : j < m * 3) : source j < m * 3 := by
  rw [source]
  omega

theorem source_lt (hi : i < 48) : source i < 48 := source_inside 16 i hi

/-- A byte goes back to where it came from. -/
theorem source_source (i : Nat) : source (source i) = i := by
  simp only [source]
  omega

/-- `RGB24` and `BGR24` differ in the order of red and blue. -/
theorem reorders_swap {a b : Format}
    (hab : (a = .rgb24 ∧ b = .bgr24) ∨ (a = .bgr24 ∧ b = .rgb24)) : Reorders a b 3 source := by
  have hs : ∀ m i, i < 3 → source (3 * m + i) = 3 * m + source i := fun m i _ =>
    source_block (Nat.dvd_mul_right 3 m) i
  rcases hab with ⟨rfl, rfl⟩ | ⟨rfl, rfl⟩
  · exact reorders_colour rfl rfl rfl rfl hs fun x i hi => by interval_cases i <;> rfl
  · exact reorders_colour rfl rfl rfl rfl hs fun x i hi => by interval_cases i <;> rfl

/-- An entry of a table. -/
theorem byte_table (k m : Fin 3) {j : Nat} (hj : j < 16) :
    (table k m).byte j =
      if source (16 * k.val + j) / 16 = m.val then UInt8.ofNat (source (16 * k.val + j) % 16)
      else 0x80 :=
  Register.byte_ofFn hj

/-- **Every byte of a block is picked once,** from the input register that it comes from; the tables
for the other two have none for it. -/
theorem exists_pick (k : Fin 3) {j : Nat} (hj : j < 16) :
    ∃ (m : Fin 3) (l : Fin 16), 16 * m.val + l.val = source (16 * k.val + j) ∧
      (table k m).byte j = UInt8.ofNat l.val ∧ ∀ m', m' ≠ m → (table k m').byte j = 0x80 := by
  have hlt := source_lt (i := 16 * k.val + j) (by omega)
  have hl := Nat.mod_lt (source (16 * k.val + j)) (by decide : 0 < 16)
  refine ⟨⟨source (16 * k.val + j) / 16, by omega⟩, ⟨_, hl⟩, Nat.div_add_mod _ 16, ?_,
    fun m' hm' => ?_⟩
  · rw [byte_table k _ hj, if_pos rfl]
  · rw [byte_table k _ hj, if_neg fun h => hm' (Fin.ext h.symm)]

/-- The picks from one input register. -/
theorem byte_pick (row : Register) (k m : Fin 3) {j : Nat} (hj : j < 16) :
    (row.shuffle (table k m)).byte j =
      if source (16 * k.val + j) / 16 = m.val then row.byte (source (16 * k.val + j) % 16)
      else 0 := by
  split
  · rename_i hm
    refine Register.byte_shuffle_pick hj (Nat.mod_lt _ (by decide)) ?_
    rw [byte_table k m hj, if_pos hm]
  · rename_i hm
    refine Register.byte_shuffle_none hj ?_
    rw [byte_table k m hj, if_neg hm]

/-- **Three registers swapped:** a byte is that of the one input register that it comes from. -/
theorem byte_onRegisters (rows : Vector Register 3) (k : Fin 3) {j : Nat} (hj : j < 16) {m : Fin 3}
    {l : Nat} (hl : l < 16) (hs : 16 * m.val + l = source (16 * k.val + j)) :
    ((onRegisters rows).get k).byte j = (rows.get m).byte l := by
  have hget : (onRegisters rows).get k =
      ((Register.zero.or ((rows.get 0).shuffle (table k 0))).or
        ((rows.get 1).shuffle (table k 1))).or ((rows.get 2).shuffle (table k 2)) :=
    Vector.getElem_ofFn k.isLt
  have hrow : source (16 * k.val + j) / 16 = m.val := by omega
  have hin : source (16 * k.val + j) % 16 = l := by omega
  rw [hget, Register.byte_or, Register.byte_or, Register.byte_or, Register.byte_zero,
    byte_pick _ k 0 hj, byte_pick _ k 1 hj, byte_pick _ k 2 hj, hrow, hin, UInt8.zero_or]
  obtain rfl | rfl | rfl : m = 0 ∨ m = 1 ∨ m = 2 := by omega
  all_goals
    simp only [Fin.val_zero, Fin.val_one, Fin.val_two, Nat.reduceEqDiff, if_true, if_false,
      OfNat.zero_ne_ofNat, UInt8.zero_or, UInt8.or_zero]

/-- A block is loaded whole and swapped. -/
theorem yields_loadBlock (h3 : 3 ∣ o) (hp : o + 48 ≤ p.size) (hlt : p.size < 0x10000000000000000)
    (hx : ∀ i < 48, p.byte (o + i) = x (o + i)) :
    Yields (block o p) fun rows => ∀ (k : Fin 3) (i : Nat), i < 16 →
      (rows.get k).byte i = x (source (o + 16 * k.val + i)) := by
  have load : ∀ d, d + 16 ≤ 48 → Yields (Register.load p (o + d)) fun row =>
      ∀ i < 16, row.byte i = x (o + d + i) := fun _ => Register.yields_loadWithin hp hx
  refine (load 0 (by omega)).bind fun r₀ h₀ => ?_
  refine yields_bind_ok (size_eq_ok (by omega)) ?_
  refine (load 16 (by omega)).bind fun r₁ h₁ => ?_
  refine yields_bind_ok (size_eq_ok (by omega)) ?_
  refine (load 32 (by omega)).bind fun r₂ h₂ => ?_
  refine yields_pure fun k i hi => ?_
  have hrows : ∀ (m : Fin 3) (l : Nat), l < 16 →
      ((#v[r₀, r₁, r₂] : Vector Register 3).get m).byte l = x (o + 16 * m.val + l) := by
    intro m l hl
    obtain rfl | rfl | rfl : m = 0 ∨ m = 1 ∨ m = 2 := by omega
    · exact h₀ l hl
    · exact h₁ l hl
    · exact h₂ l hl
  obtain ⟨m, l, hs, -⟩ := exists_pick k hi
  rw [byte_onRegisters _ k hi l.isLt hs, hrows m l l.isLt, Nat.add_assoc, hs, Nat.add_assoc,
    source_block h3]

/-- **The next block.** -/
theorem block_movesNext :
    MovesNext 3 48 source (fun o p r => do storeBlock (← block o p) o r) := by
  intro o x p q r h3 hp hlt hx hq hr
  refine (yields_loadBlock h3 hp hlt hx).bind fun rows hrows => ?_
  refine (hr.store (by omega) (hrows 0)).bind fun t ht => ?_
  refine (ht.store (by omega) (hrows 1)).bind fun t ht => ?_
  exact ht.store (by omega) (hrows 2)

/-- **The next pixel.** -/
theorem pixel_movesNext :
    MovesNext 3 3 source (fun o p r => do r.writeAll o (← pixel o p)) := by
  intro o x p q r h3 hp hlt hx hq hr
  have hpixel : pixel o p = .ok [p.byte (o + 2), p.byte (o + 1), p.byte o] := by
    rw [pixel, bind_eq_of_ok (Plane.read_eq_ok (by omega)), bind_eq_of_ok (size_eq_ok (by omega)),
      bind_eq_of_ok (Plane.read_eq_ok (by omega)), bind_eq_of_ok (size_eq_ok (by omega)),
      bind_eq_of_ok (Plane.read_eq_ok (by omega))]
    rfl
  refine yields_bind_ok hpixel ?_
  refine hr.writeAll hq fun i hi => ?_
  simp only [List.length_cons, List.length_nil] at hi
  rw [source_block h3]
  obtain rfl | rfl | rfl : i = 0 ∨ i = 1 ∨ i = 2 := by omega
  · exact hx 2 (by decide)
  · exact hx 1 (by decide)
  · exact hx 0 (by decide)

/-- **The pixels from byte `o` on**, one at a time. -/
theorem yields_swapPixelsFrom (h3 : 3 ∣ o) (ho : o ≤ n) (hlt : n < 0x10000000000000000)
    (hp : p.size = n) (hq : q.size = n) (hr : q.Overwritten o (fun j => p.byte (source j)) r) :
    Yields (swapPixelsFrom o p r) (q.Overwritten (n / 3 * 3) fun j => p.byte (source j)) := by
  have hrs := hr.size
  rw [swapPixelsFrom, show (min p.size r.size - o) / 3 = (n - o) / 3 by omega]
  exact (pixel_movesNext.run (dvd_refl 3) h3 (fun i => by omega) (by omega) (by omega) (by omega)
    hr).mono fun t ht => ht.of_eq (by omega)

/-- The pixels from byte `o` on, one at a time where they stand. -/
theorem yields_reswapPixelsFrom (h3 : 3 ∣ o) (ho : o ≤ n) (hlt : n < 0x10000000000000000)
    (hp : p.size = n) (hr : p.Overwritten o (fun j => p.byte (source j)) r) :
    Yields (reswapPixelsFrom o r) (p.Overwritten (n / 3 * 3) fun j => p.byte (source j)) := by
  have hrs := hr.size
  rw [reswapPixelsFrom, show (r.size - o) / 3 = (n - o) / 3 by omega]
  exact (pixel_movesNext.runInPlace (dvd_refl 3) h3 (fun i => by omega) (by omega) (by omega)
    hr).mono fun t ht => ht.of_eq (by omega)

/-- **Red and blue swapped one pixel at a time**, into another plane. -/
theorem swapPixels_moves : MovesUnits 3 source (swapPixelsFrom 0) :=
  fun _ p q hlt hp hq => yields_swapPixelsFrom (Nat.dvd_zero 3) (Nat.zero_le _) hlt hp hq
    (Plane.Overwritten.zero q fun j => p.byte (source j))

/-- Red and blue swapped one pixel at a time, where the pixels stand. -/
theorem reswapPixels_movesInPlace : MovesUnitsInPlace 3 source (reswapPixelsFrom 0) :=
  fun _ p hlt hp => yields_reswapPixelsFrom (Nat.dvd_zero 3) (Nat.zero_le _) hlt hp
    (Plane.Overwritten.zero p fun j => p.byte (source j))

/-- **Red and blue swapped in blocks**, into another plane. -/
theorem swap_moves : MovesUnits 3 source swap := by
  intro n p q hlt hp hq
  rw [swap, show min p.size q.size / 48 = n / 48 by omega]
  refine (block_movesNext.run (by decide) (Nat.dvd_zero 3) (fun i => by omega) (by omega) (by omega)
    (by omega) (Plane.Overwritten.zero q _)).bind fun r hr => ?_
  exact yields_swapPixelsFrom (by omega) (by omega) hlt hp hq (hr.of_eq (by omega))

/-- Red and blue swapped in blocks, where the pixels stand. -/
theorem reswap_movesInPlace : MovesUnitsInPlace 3 source reswap := by
  intro n p hlt hp
  rw [reswap, hp]
  refine (block_movesNext.runInPlace (by decide) (Nat.dvd_zero 3) (fun i => by omega) (by omega)
    (by omega) (Plane.Overwritten.zero p _)).bind fun r hr => ?_
  exact yields_reswapPixelsFrom (by omega) (by omega) hlt hp (hr.of_eq (by omega))

end PixelSwap
end FrameConvert
