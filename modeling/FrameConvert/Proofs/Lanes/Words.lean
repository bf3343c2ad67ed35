/-
# Word permutations in lanes

A permutation `op` takes byte `j` of the result from byte `op.source j`.  There are
three ways of doing that to a plane, and two places to leave the result:

| way | blocks | into another plane | where it stands |
| --- | --- | --- | --- |
| one by one | 4 bytes | `shuffleWords_moves` | `reshuffleWords_movesInPlace` |
| lane shifts | 16 bytes | `wordShift_moves` | `wordShift_movesInPlace` |
| byte tables | 64 and 16 bytes | `byteTable_moves` | `byteTable_movesInPlace` |

A register function that `Permutes` a register does so to any block of a plane
(`block_movesNext`): source and target of a byte lie in one word, so in one block.  The
words behind the last whole block follow one at a time (`WordShuffle.word_movesNext`), to
the same effect.  What `between?` names a permutation for is exactly what has to be
written (`reorders_between`).
-/

import FrameConvert.Proofs.Lanes.Registers
import FrameConvert.Proofs.Lanes.Moves

namespace FrameConvert
namespace WordShuffle

variable {op : WordShuffle}

/-- Where byte `j` of the result comes from. -/
def source (op : WordShuffle) (j : Nat) : Nat :=
  4 * (j / 4) + (op.pattern.get ⟨j % 4, Nat.mod_lt j (by decide)⟩).val

/-- Blocks of whole words are permuted apart from each other. -/
theorem source_block (op : WordShuffle) {o : Nat} (ho : 4 ∣ o) (i : Nat) :
    op.source (o + i) = o + op.source i := by
  obtain ⟨m, rfl⟩ := ho
  have hd : (4 * m + i) / 4 = m + i / 4 := by omega
  have hm : (4 * m + i) % 4 = i % 4 := by omega
  simp only [source, hd, hm]
  omega

/-- The bytes of a word come from where the pattern says. -/
theorem source_word (op : WordShuffle) {o : Nat} (ho : 4 ∣ o) (i : Fin 4) :
    op.source (o + i.val) = o + (op.pattern.get i).val := by
  rw [op.source_block ho, source, Nat.div_eq_of_lt i.isLt]
  simp only [Nat.mod_eq_of_lt i.isLt, Nat.mul_zero, Nat.zero_add]

/-- The inverse takes every byte back to where it came from. -/
theorem source_inverse (op : WordShuffle) (j : Nat) : op.source (op.inverse.source j) = j := by
  refine (op.source_word (Nat.dvd_mul_right 4 (j / 4)) _).trans ?_
  rw [(op.inverse_pattern _).2]
  exact Nat.div_add_mod j 4

/-- A byte comes from inside the whole words. -/
theorem source_inside (op : WordShuffle) (m j : Nat) (hj : j < m * 4) : op.source j < m * 4 := by
  have := (op.pattern.get ⟨j % 4, Nat.mod_lt j (by decide)⟩).isLt
  rw [source]
  omega

theorem source_lt (op : WordShuffle) {i : Nat} (hi : i < 16) : op.source i < 16 :=
  op.source_inside 4 i hi

theorem getD_apply (op : WordShuffle) (word : Vector UInt8 4) {i : Nat} (hi : i < 4) :
    (op.apply word).toList.getD i 0 = word.get (op.pattern.get ⟨i, hi⟩) := by
  rw [List.getD_eq_getElem?_getD, Vector.getElem?_toList, apply, Vector.getElem?_map,
    Vector.getElem?_eq_getElem hi]
  rfl

/-- **The permutation between two formats** is what their frames differ in. -/
theorem reorders_between {a b : Format} (hop : between? a b = some op) :
    Reorders a b 4 op.source := by
  have hs : ∀ m i, i < 4 → op.source (4 * m + i) = 4 * m + op.source i := fun m i _ =>
    op.source_block (Nat.dvd_mul_right 4 m) i
  cases a <;> cases b <;> cases hop
  all_goals
    first
    | exact reorders_packed rfl rfl hs fun x i hi => by interval_cases i <;> rfl
    | exact reorders_colour rfl rfl rfl rfl hs fun x i hi => by interval_cases i <;> rfl

section Tail

variable {p q r : Plane} {x : Nat → UInt8} {o n : Nat}

theorem readWord_eq_ok (ho : o + 4 ≤ p.size) (hlt : p.size ≤ 0x10000000000000000) :
    readWord p o = .ok #v[p.byte o, p.byte (o + 1), p.byte (o + 2), p.byte (o + 3)] := by
  rw [readWord, bind_eq_of_ok (Plane.read_eq_ok (by omega)), bind_eq_of_ok (size_eq_ok (by omega)),
    bind_eq_of_ok (Plane.read_eq_ok (by omega)), bind_eq_of_ok (size_eq_ok (by omega)),
    bind_eq_of_ok (Plane.read_eq_ok (by omega)), bind_eq_of_ok (size_eq_ok (by omega)),
    bind_eq_of_ok (Plane.read_eq_ok (by omega))]
  rfl

/-- **The next word.** -/
theorem word_movesNext (op : WordShuffle) : MovesNext 4 4 op.source
    (fun o p r => do r.writeAll o (op.apply (← readWord p o)).toList) := by
  intro o x p q r h4 hp hlt hx hq hr
  refine yields_bind_ok (readWord_eq_ok hp hlt.le) ?_
  have hl : ∀ word, (op.apply word).toList.length = 4 := fun word => (op.apply word).length_toList
  refine (hr.writeAll (by rw [hl]; exact hq) fun i hi => ?_).mono fun t ht => ht.of_eq (by rw [hl])
  rw [hl] at hi
  have hword : ∀ k : Fin 4, (#v[p.byte o, p.byte (o + 1), p.byte (o + 2), p.byte (o + 3)] :
      Vector UInt8 4).get k = x (o + k.val) := by
    intro k
    rw [← hx k.val k.isLt]
    obtain ⟨k, hk⟩ := k
    interval_cases k <;> rfl
  rw [op.getD_apply _ hi, hword, op.source_word h4 ⟨i, hi⟩]

/-- **The words from byte `o` on**, one at a time. -/
theorem yields_shuffleWordsFrom (op : WordShuffle) (h4 : 4 ∣ o) (ho : o ≤ n)
    (hlt : n < 0x10000000000000000) (hp : p.size = n) (hq : q.size = n)
    (hr : q.Overwritten o (fun j => p.byte (op.source j)) r) :
    Yields (shuffleWordsFrom op o p r)
      (q.Overwritten (n / 4 * 4) fun j => p.byte (op.source j)) := by
  have hrs := hr.size
  rw [shuffleWordsFrom, show (min p.size r.size - o) / 4 = (n - o) / 4 by omega]
  exact (op.word_movesNext.run (dvd_refl 4) h4 (fun i => by omega) (by omega) (by omega) (by omega)
    hr).mono fun t ht => ht.of_eq (by omega)

/-- The words from byte `o` on, one at a time where they stand. -/
theorem yields_reshuffleWordsFrom (op : WordShuffle) (h4 : 4 ∣ o) (ho : o ≤ n)
    (hlt : n < 0x10000000000000000) (hp : p.size = n)
    (hr : p.Overwritten o (fun j => p.byte (op.source j)) r) :
    Yields (reshuffleWordsFrom op o r)
      (p.Overwritten (n / 4 * 4) fun j => p.byte (op.source j)) := by
  have hrs := hr.size
  rw [reshuffleWordsFrom, show (r.size - o) / 4 = (n - o) / 4 by omega]
  exact (op.word_movesNext.runInPlace (dvd_refl 4) h4 (fun i => by omega) (by omega) (by omega)
    hr).mono fun t ht => ht.of_eq (by omega)

end Tail

end WordShuffle

section Blocks

variable {op : WordShuffle} {q r : Plane} {x : Nat → UInt8} {o : Nat} {f : Register → Register}

/-- A function on registers that permutes the words of any register. -/
def Permutes (op : WordShuffle) (f : Register → Register) : Prop :=
  ∀ (r : Register) (i : Nat), i < 16 → (f r).byte i = r.byte (op.source i)

/-- A loaded block, permuted and stored. -/
theorem yields_storeBlock {block : Register} (hf : Permutes op f) (h4 : 4 ∣ o)
    (hblock : ∀ i < 16, block.byte i = x (o + i))
    (hr : q.Overwritten o (fun j => x (op.source j)) r) (hq : o + 16 ≤ q.size) :
    Yields ((f block).store o r) (q.Overwritten (o + 16) fun j => x (op.source j)) := by
  refine hr.store hq fun i hi => ?_
  rw [hf block i hi, hblock _ (op.source_lt hi), op.source_block h4]

/-- **The next block.** -/
theorem block_movesNext (hf : Permutes op f) :
    MovesNext 4 16 op.source (fun o p r => do (f (← Register.load p o)).store o r) := by
  intro o x p q r h4 hp hlt hx hq hr
  refine (Register.yields_loadWithin hp hx (d := 0) (by decide)).bind fun block hblock => ?_
  exact yields_storeBlock hf h4 hblock hr hq

end Blocks

namespace WordShift

/-- Neighbouring bytes change places. -/
theorem byte_swapPairs (r : Register) {i : Nat} (hi : i < 16) :
    (swapPairs r).byte i = if i % 2 = 0 then r.byte (i + 1) else r.byte (i - 1) := by
  rw [swapPairs, Register.byte_or, r.byte_shiftLeft16 (m := 1) rfl hi,
    r.byte_shiftRight16 (m := 1) rfl hi]
  by_cases h : i % 2 = 0
  · rw [if_pos (by omega), if_pos (by omega), if_pos h, UInt8.zero_or]
  · rw [if_neg (by omega), if_neg (by omega), if_neg h, UInt8.or_zero]

/-- Under three masks every byte is kept, moved up or moved down by two. -/
theorem byte_exchange (kept up down : BitVec 32) (r : Register) {i : Nat} (hi : i < 16) :
    (exchange kept up down r).byte i = r.byte i &&& Register.byteOf kept (i % 4) |||
      if i % 4 < 2 then r.byte (i + 2) &&& Register.byteOf down (i % 4 + 2)
      else r.byte (i - 2) &&& Register.byteOf up (i % 4 - 2) := by
  rw [exchange, Register.byte_or, Register.byte_or, Register.byte_and, Register.byte_splat32 _ hi,
    Register.byte_shiftLeft32 _ (m := 2) rfl hi, Register.byte_shiftRight32 _ (m := 2) rfl hi,
    Register.byte_and, Register.byte_and]
  by_cases low : i % 4 < 2
  · rw [if_pos low, if_pos low, if_pos (by omega), Register.byte_splat32 _ (by omega),
      show (i + 2) % 4 = i % 4 + 2 by omega, UInt8.zero_or]
  · rw [if_neg low, if_neg low, if_neg (by omega), Register.byte_splat32 _ (by omega),
      show (i - 2) % 4 = i % 4 - 2 by omega, UInt8.or_zero]

/-- A mask keeps all of a byte or nothing of it. -/
theorem and_masks {w w' : BitVec 32} {k k' : Nat} (v v' : UInt8) :
    (Register.byteOf w k = 0xFF ∧ Register.byteOf w' k' = 0 →
      v &&& Register.byteOf w k ||| v' &&& Register.byteOf w' k' = v) ∧
    (Register.byteOf w k = 0 ∧ Register.byteOf w' k' = 0xFF →
      v &&& Register.byteOf w k ||| v' &&& Register.byteOf w' k' = v') := by
  have hall : ∀ v : UInt8, v &&& 0xFF = v := fun _ => UInt8.and_neg_one
  constructor
  · rintro ⟨h, h'⟩
    rw [h, h', hall, UInt8.and_zero, UInt8.or_zero]
  · rintro ⟨h, h'⟩
    rw [h, h', hall, UInt8.and_zero, UInt8.zero_or]

/-- Where the bytes of a register come from. -/
theorem source_register (op : WordShuffle) : ∀ i < 16, op.source i =
    match op with
    | .swapPairs => if i % 2 = 0 then i + 1 else i - 1
    | .swapOdd => if i % 4 = 1 then i + 2 else if i % 4 = 3 then i - 2 else i
    | .swapEven => if i % 4 = 0 then i + 2 else if i % 4 = 2 then i - 2 else i
    | .reverse => 4 * (i / 4) + (3 - i % 4)
    | .rotateRight => if i % 4 = 0 then i + 3 else i - 1
    | .rotateLeft => if i % 4 = 3 then i - 3 else i + 1 := by
  cases op <;> decide

/-- **Shifts and masks permute the words of a register.** -/
theorem onRegister_permutes (op : WordShuffle) : Permutes op (onRegister op) := by
  intro r i hi
  rw [source_register op i hi]
  have h4 : i % 4 = 0 ∨ i % 4 = 1 ∨ i % 4 = 2 ∨ i % 4 = 3 := by omega
  cases op with
  | swapPairs =>
    simp only [onRegister, byte_swapPairs r hi]
    split <;> rfl
  | swapOdd =>
    simp only [onRegister, byte_exchange _ _ _ r hi]
    rcases h4 with h | h | h | h <;> rw [h]
    · exact (and_masks _ _).1 (by decide)
    · exact (and_masks _ _).2 (by decide)
    · exact (and_masks _ _).1 (by decide)
    · exact (and_masks _ _).2 (by decide)
  | swapEven =>
    simp only [onRegister, byte_exchange _ _ _ r hi]
    rcases h4 with h | h | h | h <;> rw [h]
    · exact (and_masks _ _).2 (by decide)
    · exact (and_masks _ _).1 (by decide)
    · exact (and_masks _ _).2 (by decide)
    · exact (and_masks _ _).1 (by decide)
  | reverse =>
    simp only [onRegister, Register.byte_or, Register.byte_shiftLeft32 _ (m := 2) rfl hi,
      Register.byte_shiftRight32 _ (m := 2) rfl hi]
    by_cases low : i % 4 < 2
    · rw [if_pos low, if_pos (by omega), UInt8.zero_or, byte_swapPairs r (by omega)]
      split <;> congr 1 <;> omega
    · rw [if_neg low, if_neg (by omega), UInt8.or_zero, byte_swapPairs r (by omega)]
      split <;> congr 1 <;> omega
  | rotateRight =>
    simp only [onRegister, Register.byte_or, Register.byte_shiftLeft32 _ (m := 1) rfl hi,
      Register.byte_shiftRight32 _ (m := 3) rfl hi]
    by_cases low : i % 4 = 0
    · rw [if_pos (by omega), if_pos (by omega), if_pos low, UInt8.zero_or]
    · rw [if_neg (by omega), if_neg (by omega), if_neg low, UInt8.or_zero]
  | rotateLeft =>
    simp only [onRegister, Register.byte_or, Register.byte_shiftRight32 _ (m := 1) rfl hi,
      Register.byte_shiftLeft32 _ (m := 3) rfl hi]
    by_cases high : i % 4 = 3
    · rw [if_neg (by omega), if_neg (by omega), if_pos high, UInt8.zero_or]
    · rw [if_pos (by omega), if_pos (by omega), if_neg high, UInt8.or_zero]

end WordShift

namespace ByteTable

/-- An entry of a table. -/
theorem byte_ofShuffle (op : WordShuffle) {i : Nat} (hi : i < 16) :
    (ofShuffle op).byte i = UInt8.ofNat (op.source i) := by
  rw [ofShuffle, Register.byte_ofFn hi]
  rfl

/-- **A table permutes the words of a register.** -/
theorem shuffle_permutes (op : WordShuffle) : Permutes op fun r => r.shuffle (ofShuffle op) :=
  fun _ _ hi => Register.byte_shuffle_pick hi (op.source_lt hi) (byte_ofShuffle op hi)

end ByteTable

section Moves

/-- **Word permutations one by one**, into another plane. -/
theorem shuffleWords_moves (op : WordShuffle) : MovesUnits 4 op.source (shuffleWords op) :=
  fun _ p q hlt hp hq => WordShuffle.yields_shuffleWordsFrom op (Nat.dvd_zero 4) (Nat.zero_le _) hlt
    hp hq (Plane.Overwritten.zero q fun j => p.byte (op.source j))

/-- Word permutations one by one, where the words stand. -/
theorem reshuffleWords_movesInPlace (op : WordShuffle) :
    MovesUnitsInPlace 4 op.source (reshuffleWords op) :=
  fun _ p hlt hp => WordShuffle.yields_reshuffleWordsFrom op (Nat.dvd_zero 4) (Nat.zero_le _) hlt hp
    (Plane.Overwritten.zero p fun j => p.byte (op.source j))

/-- **Word permutations by lane shifts**, into another plane. -/
theorem wordShift_moves (op : WordShuffle) :
    MovesUnits 4 op.source (WordShift.shuffleWords op) := by
  intro n p q hlt hp hq
  rw [WordShift.shuffleWords, show min p.size q.size / 16 = n / 16 by omega]
  refine ((block_movesNext (WordShift.onRegister_permutes op)).run (by decide) (Nat.dvd_zero 4)
    (fun i => by omega) (by omega) (by omega) (by omega)
    (Plane.Overwritten.zero q _)).bind fun r hr => ?_
  exact WordShuffle.yields_shuffleWordsFrom op (by omega) (by omega) hlt hp hq
    (hr.of_eq (by omega))

/-- **Block by block**, and what is left of the words one by one, where they stand. -/
theorem blocks_moveInPlace {op : WordShuffle} {f : Register → Register} (hf : Permutes op f)
    {move : Plane → Checked Plane}
    (hmove : ∀ p, move p = do
      let r ← sweep (p.size / 16) (fun i r => do
        let o ← size (16 * i)
        (f (← Register.load r o)).store o r) p
      reshuffleWordsFrom op (16 * (p.size / 16)) r) :
    MovesUnitsInPlace 4 op.source move := by
  intro n p hlt hp
  rw [hmove, hp]
  refine ((block_movesNext hf).runInPlace (by decide) (Nat.dvd_zero 4) (fun i => by omega)
    (by omega) (by omega) (Plane.Overwritten.zero p _)).bind fun r hr => ?_
  exact WordShuffle.yields_reshuffleWordsFrom op (by omega) (by omega) hlt hp
    (hr.of_eq (by omega))

/-- Word permutations by lane shifts, where the words stand. -/
theorem wordShift_movesInPlace (op : WordShuffle) :
    MovesUnitsInPlace 4 op.source (WordShift.reshuffleWords op) :=
  blocks_moveInPlace (WordShift.onRegister_permutes op) fun _ => rfl

/-- **The next four blocks:** all of them are loaded before the first is stored. -/
theorem four_movesNext (op : WordShuffle) :
    MovesNext 4 64 op.source (ByteTable.moveFour (ByteTable.ofShuffle op)) := by
  intro o x p q r h4 hp hlt hx hq hr
  have load : ∀ d, d + 16 ≤ 64 → Yields (Register.load p (o + d)) fun block =>
      ∀ i < 16, block.byte i = x (o + d + i) := fun _ => Register.yields_loadWithin hp hx
  have store : ∀ {block : Register} {t : Plane} {k : Nat}, 4 ∣ k → k + 16 ≤ q.size →
      (∀ i < 16, block.byte i = x (k + i)) → q.Overwritten k (fun j => x (op.source j)) t →
      Yields ((block.shuffle (ByteTable.ofShuffle op)).store k t)
        (q.Overwritten (k + 16) fun j => x (op.source j)) := fun hk hkq hblock ht =>
    yields_storeBlock (f := fun r => r.shuffle (ByteTable.ofShuffle op))
      (ByteTable.shuffle_permutes op) hk hblock ht hkq
  refine (load 0 (by omega)).bind fun r₀ h₀ => ?_
  refine yields_bind_ok (size_eq_ok (by omega)) ?_
  refine (load 16 (by omega)).bind fun r₁ h₁ => ?_
  refine yields_bind_ok (size_eq_ok (by omega)) ?_
  refine (load 32 (by omega)).bind fun r₂ h₂ => ?_
  refine yields_bind_ok (size_eq_ok (by omega)) ?_
  refine (load 48 (by omega)).bind fun r₃ h₃ => ?_
  refine (store h4 (by omega) h₀ hr).bind fun t ht => ?_
  refine (store (by omega) (by omega) h₁ ht).bind fun t ht => ?_
  refine (store (by omega) (by omega) h₂ ht).bind fun t ht => ?_
  exact store (by omega) (by omega) h₃ ht

/-- **Word permutations by byte tables**, into another plane. -/
theorem byteTable_moves (op : WordShuffle) :
    MovesUnits 4 op.source (ByteTable.shuffleWords op) := by
  intro n p q hlt hp hq
  rw [ByteTable.shuffleWords, show min p.size q.size = n by omega]
  refine ((four_movesNext op).run (by decide) (Nat.dvd_zero 4) (fun i => by omega) (by omega)
    (by omega) (by omega) (Plane.Overwritten.zero q _)).bind fun r hr => ?_
  refine ((block_movesNext (ByteTable.shuffle_permutes op)).run (by decide) (by omega)
    (fun i => by omega) (by omega) (by omega) (by omega) hr).bind fun t ht => ?_
  exact WordShuffle.yields_shuffleWordsFrom op (by omega) (by omega) hlt hp hq
    (ht.of_eq (by omega))

/-- Word permutations by byte tables, where the words stand. -/
theorem byteTable_movesInPlace (op : WordShuffle) :
    MovesUnitsInPlace 4 op.source (ByteTable.reshuffleWords op) :=
  blocks_moveInPlace (f := fun r => r.shuffle (ByteTable.ofShuffle op))
    (ByteTable.shuffle_permutes op) fun _ => rfl

end Moves

end FrameConvert
