/-
# Rows of colours in lanes

`a.Represents n` says that lane `i` of `a` is the word of the integer `n i`.  The lanes
of a term represent the integers that it stands for (`Term.represents`), whatever these
are; only where a lane is read as a signed number, as the shift does, has its integer
to be one of a word.  That is so for every part of a term that `Fits`, and then no
operation in it wraps (`Term.Fits.exact`).  How large the parts can be is read off the term,
bytes being `255` at most:

| part | result | at most |
| --- | --- | ---: |
| less black, less neutral | `Y - 16`, `U - 128`, `V - 128` | `383` |
| weighted | `71392 (Y - 16)` | `19347232` |
| | `98007 V'`, `-24057 U'`, `-51842 V'`, `123872 U'` | `47442976` |
| added | red, green, blue | `66790208` |
| rounded | the same and one half | `66822976` |

None comes near `2 ^ 31`.  Two packs clamp twice, first to sixteen bits and then to a
byte, which is clamping to a byte (`clamp8_clamp16`), and `Lanes.place` finds the bytes
again (`packed_place`).  So eight colours in lanes are the eight colours of the formula
(`getElem_colours`).

A row is begun with its whole groups of eight pixels, and those are all there are of
them (`yields_start`).  Groups start at multiples of eight, so the chroma of a group
starts at a whole sample, whatever the width of the row.
-/

import FrameConvert.Proofs.Lanes.Registers
import FrameConvert.Proofs.Colours
import FrameConvert.Lanes.Row

namespace FrameConvert
namespace Lanes

variable {a b : Lanes} {m n : Fin 8 → Int}

/-- Lane `i` is the word of the integer `n i`. -/
def Represents (a : Lanes) (n : Fin 8 → Int) : Prop := ∀ i : Fin 8, a[i] = BitVec.ofInt 32 (n i)

theorem represents_splat (c : Int) : (splat c).Represents fun _ => c := fun i => by
  rw [splat, Fin.getElem_fin, Vector.getElem_replicate]

theorem represents_widen (r : Register) : (widen r).Represents fun i => (r.byte i.val).toNat := by
  intro i
  have hi : i.val < 16 := by omega
  rw [widen, Fin.getElem_fin, Vector.getElem_ofFn]
  dsimp only
  rw [r.byte_eq hi, BitVec.ofInt_natCast]
  refine BitVec.eq_of_toNat_eq ?_
  rw [BitVec.toNat_setWidth, BitVec.toNat_ofNat]
  rfl

theorem Represents.add (ha : a.Represents m) (hb : b.Represents n) :
    (a.add b).Represents fun i => m i + n i := fun i => by
  rw [Lanes.add, Fin.getElem_fin, Vector.getElem_zipWith, ← Fin.getElem_fin, ← Fin.getElem_fin,
    ha i, hb i, BitVec.ofInt_add]

theorem Represents.mul (ha : a.Represents m) (hb : b.Represents n) :
    (a.mul b).Represents fun i => m i * n i := fun i => by
  rw [Lanes.mul, Fin.getElem_fin, Vector.getElem_zipWith, ← Fin.getElem_fin, ← Fin.getElem_fin,
    ha i, hb i, BitVec.ofInt_mul]

theorem Represents.sub (ha : a.Represents m) (hb : b.Represents n) :
    (a.sub b).Represents fun i => m i - n i := fun i => by
  rw [Lanes.sub, Fin.getElem_fin, Vector.getElem_zipWith, ← Fin.getElem_fin, ← Fin.getElem_fin,
    ha i, hb i, BitVec.sub_eq_add_neg, ← BitVec.ofInt_neg, ← BitVec.ofInt_add]
  rfl

/-- **A lane read as a signed number** is its integer, as long as that is one of a word. -/
theorem Represents.toInt (ha : a.Represents n) (i : Fin 8)
    (h : -0x80000000 ≤ n i ∧ n i < 0x80000000) : a[i].toInt = n i := by
  rw [ha i, BitVec.toInt_ofInt_eq_self (by decide) (by simpa using h.1) (by simpa using h.2)]

namespace Term

/-- The integer that a term stands for in each lane. -/
def value : Term → Fin 8 → Int
  | bytes r, i => (r.byte i.val).toNat
  | splat c, _ => c
  | add a b, i => a.value i + b.value i
  | sub a b, i => a.value i - b.value i
  | mul a b, i => a.value i * b.value i

/-- The farthest from zero that a lane can be, whatever the bytes. -/
def magnitude : Term → Nat
  | bytes _ => 255
  | splat c => c.natAbs
  | add a b | sub a b => a.magnitude + b.magnitude
  | mul a b => a.magnitude * b.magnitude

/-- Every part is within a signed word, whatever the bytes. -/
def Fits : Term → Prop
  | bytes _ => True
  | splat c => c.natAbs < 0x80000000
  | add a b => a.Fits ∧ b.Fits ∧ (add a b).magnitude < 0x80000000
  | sub a b => a.Fits ∧ b.Fits ∧ (sub a b).magnitude < 0x80000000
  | mul a b => a.Fits ∧ b.Fits ∧ (mul a b).magnitude < 0x80000000

/-- **No operation wraps,** in no part of a term and no lane: as signed numbers, its lanes are the
result for those of its arguments. -/
def Exact : Term → Prop
  | bytes r => ∀ i : Fin 8, ((widen r).get i).toInt = (r.byte i.val).toNat
  | splat c => ∀ i : Fin 8, ((Lanes.splat c).get i).toInt = c
  | add a b => a.Exact ∧ b.Exact ∧ ∀ i : Fin 8,
    ((add a b).lanes.get i).toInt = (a.lanes.get i).toInt + (b.lanes.get i).toInt
  | sub a b => a.Exact ∧ b.Exact ∧ ∀ i : Fin 8,
    ((sub a b).lanes.get i).toInt = (a.lanes.get i).toInt - (b.lanes.get i).toInt
  | mul a b => a.Exact ∧ b.Exact ∧ ∀ i : Fin 8,
    ((mul a b).lanes.get i).toInt = (a.lanes.get i).toInt * (b.lanes.get i).toInt

variable {t : Term}

/-- **Lanes compute what the term stands for,** up to the words of its integers. -/
theorem represents : ∀ t : Term, t.lanes.Represents t.value
  | bytes r => represents_widen r
  | splat c => represents_splat c
  | add a b => (represents a).add (represents b)
  | sub a b => (represents a).sub (represents b)
  | mul a b => (represents a).mul (represents b)

theorem natAbs_value_le (i : Fin 8) : ∀ t : Term, (t.value i).natAbs ≤ t.magnitude
  | bytes r => by
    have hr := (r.byte i.val).toNat_lt
    simp only [value, magnitude, Int.natAbs_natCast]
    omega
  | splat c => Nat.le_refl _
  | add a b =>
    (Int.natAbs_add_le _ _).trans (Nat.add_le_add (natAbs_value_le i a) (natAbs_value_le i b))
  | sub a b =>
    (Int.natAbs_sub_le _ _).trans (Nat.add_le_add (natAbs_value_le i a) (natAbs_value_le i b))
  | mul a b => by
    rw [value, Int.natAbs_mul]
    exact Nat.mul_le_mul (natAbs_value_le i a) (natAbs_value_le i b)

theorem Fits.magnitude_lt : ∀ {t : Term}, t.Fits → t.magnitude < 0x80000000
  | bytes _, _ => by
    rw [magnitude]
    decide
  | splat _, h => h
  | add _ _, h => h.2.2
  | sub _ _, h => h.2.2
  | mul _ _, h => h.2.2

/-- **A lane read as a signed number** is the integer that the term stands for. -/
theorem Fits.toInt_lanes (h : t.Fits) (i : Fin 8) : (t.lanes.get i).toInt = t.value i := by
  have hsmall := h.magnitude_lt
  have hle := t.natAbs_value_le i
  exact (represents t).toInt i (by omega)

/-- **What fits is exact.** -/
theorem Fits.exact : ∀ {t : Term}, t.Fits → t.Exact
  | bytes r, h => toInt_lanes (t := bytes r) h
  | splat c, h => toInt_lanes (t := splat c) h
  | add a b, h => by
    refine ⟨exact h.1, exact h.2.1, fun i => ?_⟩
    rw [toInt_lanes h, toInt_lanes h.1, toInt_lanes h.2.1, value]
  | sub a b, h => by
    refine ⟨exact h.1, exact h.2.1, fun i => ?_⟩
    rw [toInt_lanes h, toInt_lanes h.1, toInt_lanes h.2.1, value]
  | mul a b, h => by
    refine ⟨exact h.1, exact h.2.1, fun i => ?_⟩
    rw [toInt_lanes h, toInt_lanes h.1, toInt_lanes h.2.1, value]

/-- **A lane shifted down** is the whole part of the rounded integer. -/
theorem Fits.toInt_descale (h : t.rounded.Fits) (i : Fin 8) :
    (t.descale.get i).toInt = FixedPoint.whole (t.value i + FixedPoint.half) := by
  have hsum := h.toInt_lanes i
  refine (congrArg BitVec.toInt (Vector.getElem_map _ i.isLt)).trans ?_
  rw [BitVec.toInt_sshiftRight]
  exact congrArg FixedPoint.whole hsum

end Term

/-- **Clamping to sixteen bits first** changes nothing about clamping to a byte. -/
theorem clamp8_clamp16 (x : BitVec 32) : clamp8 (clamp16 x) = saturate x.toInt := by
  have h16 : (clamp16 x).toInt = max (-32768) (min x.toInt 32767) := by
    rw [clamp16, BitVec.toInt_ofInt_eq_self (by decide)]
    · simp only [Nat.reduceSub, Int.reducePow, Int.reduceNeg]
      omega
    · simp only [Nat.reduceSub, Int.reducePow]
      omega
  have h := toNat_saturate x.toInt
  refine UInt8.toNat_inj.1 ?_
  rw [clamp8, h16, UInt8.toNat_ofNat']
  omega

/-- Lane `i` of the first argument, half by half. -/
theorem get_packWords_low (a b : Lanes) {k : Fin 16} {i : Fin 8}
    (h : k.val = 8 * (i.val / 4) + i.val % 4) : (packWords a b).get k = clamp16 (a.get i) := by
  have hk : k.val % 8 < 4 := by omega
  have hi : (⟨4 * (k.val / 8) + k.val % 8, by omega⟩ : Fin 8) = i := Fin.ext (by dsimp only; omega)
  refine (Vector.getElem_ofFn k.isLt).trans ?_
  dsimp only
  rw [dif_pos hk, hi]

/-- Lane `i` of the second argument, half by half. -/
theorem get_packWords_high (a b : Lanes) {k : Fin 16} {i : Fin 8}
    (h : k.val = 8 * (i.val / 4) + i.val % 4 + 4) :
    (packWords a b).get k = clamp16 (b.get i) := by
  have hk : ¬k.val % 8 < 4 := by omega
  have hi : (⟨4 * (k.val / 8) + (k.val % 8 - 4), by omega⟩ : Fin 8) = i :=
    Fin.ext (by dsimp only; omega)
  refine (Vector.getElem_ofFn k.isLt).trans ?_
  dsimp only
  rw [dif_neg hk, hi]

/-- Lane `i` of the first argument, half by half. -/
theorem get_packBytes_low (a b : Vector (BitVec 16) 16) {k : Fin 32} {i : Fin 16}
    (h : k.val = 16 * (i.val / 8) + i.val % 8) : (packBytes a b).get k = clamp8 (a.get i) := by
  have hk : k.val % 16 < 8 := by omega
  have hi : (⟨8 * (k.val / 16) + k.val % 16, by omega⟩ : Fin 16) = i :=
    Fin.ext (by dsimp only; omega)
  refine (Vector.getElem_ofFn k.isLt).trans ?_
  dsimp only
  rw [dif_pos hk, hi]

theorem place_eq (i : Fin 8) : place i = 16 * (i.val / 4) + i.val % 4 := by
  rw [place]
  split <;> omega

/-- **The bytes of pixel `i`** among the packed ones. -/
theorem packed_place (a b : Lanes) (i : Fin 8) (h : place i < 32) (h' : place i + 4 < 32) :
    (packBytes (packWords a b) (packWords a b))[place i] = saturate (a.get i).toInt ∧
      (packBytes (packWords a b) (packWords a b))[place i + 4] = saturate (b.get i).toInt := by
  have hp := place_eq i
  rw [← clamp8_clamp16, ← clamp8_clamp16]
  constructor
  · refine (get_packBytes_low _ _ (k := ⟨place i, h⟩) (i := ⟨8 * (i.val / 4) + i.val % 4, by omega⟩)
      (by dsimp only; omega)).trans ?_
    rw [get_packWords_low a b rfl]
  · refine (get_packBytes_low _ _ (k := ⟨place i + 4, h'⟩)
      (i := ⟨8 * (i.val / 4) + i.val % 4 + 4, by omega⟩) (by dsimp only; omega)).trans ?_
    rw [get_packWords_high a b rfl]

end Lanes

namespace RowLanes

section Colours

open Lanes (Term)

variable (y u v : Register)

theorem fits_redSum : (redSum y v).rounded.Fits := by
  norm_num [redSum, lumaTerm, chromaTerm, Term.rounded, Term.Fits, Term.magnitude, FixedPoint.half]

theorem fits_greenSum : (greenSum y u v).rounded.Fits := by
  norm_num [greenSum, lumaTerm, chromaTerm, Term.rounded, Term.Fits, Term.magnitude,
    FixedPoint.half]

theorem fits_blueSum : (blueSum y u).rounded.Fits := by
  norm_num [blueSum, lumaTerm, chromaTerm, Term.rounded, Term.Fits, Term.magnitude,
    FixedPoint.half]

/-- **The colour of pixel `i`** is packed from lane `i` of each channel. -/
theorem get_colours (i : Fin 8) : (colours y u v).get i =
    ⟨saturate ((redSum y v).descale.get i).toInt, saturate ((greenSum y u v).descale.get i).toInt,
      saturate ((blueSum y u).descale.get i).toInt⟩ := by
  have hp := Lanes.place_lt i
  refine (Vector.getElem_ofFn i.isLt).trans ?_
  simp only [Rgb.mk.injEq]
  exact ⟨(Lanes.packed_place _ _ i (by omega) hp).1, (Lanes.packed_place _ _ i (by omega) hp).2,
    (Lanes.packed_place _ _ i (by omega) hp).1⟩

/-- **Eight colours in lanes are the eight colours of the formula.** -/
theorem getElem_colours (i : Fin 8) :
    (colours y u v)[i] = FixedPoint.rgbOf (y.byte i.val) (u.byte i.val) (v.byte i.val) := by
  refine (get_colours y u v i).trans ?_
  rw [(fits_redSum y v).toInt_descale, (fits_greenSum y u v).toInt_descale,
    (fits_blueSum y u).toInt_descale]
  simp only [FixedPoint.rgbOf, Rgb.mk.injEq, redSum, greenSum, blueSum, lumaTerm, chromaTerm,
    Term.value]
  refine ⟨congrArg (saturate <| FixedPoint.whole ·) ?_,
    congrArg (saturate <| FixedPoint.whole ·) ?_, congrArg (saturate <| FixedPoint.whole ·) ?_⟩
  all_goals omega

end Colours

section Row

variable {s : Subsampling} {k : PixelOrder} {w x : Nat} {yRow uRow vRow row : Plane}

theorem yields_loadPart {p : Plane} {o n : Nat} (hn : n ≤ 16) (h : o + n ≤ p.size) :
    Yields (loadPart p o n) fun r => ∀ i < n, r.byte i = p.byte (o + i) := by
  refine (Plane.yields_slice h).bind fun q hslice => yields_pure fun i hi => ?_
  obtain ⟨-, hq⟩ := hslice
  rw [Register.byte_ofFn (by omega), hq i hi]

/-- **The chroma of eight pixels:** every sample once for each of its pixels. -/
theorem yields_loadChroma (s : Subsampling) {o : Nat} (h : o + 8 / s.across ≤ row.size) :
    Yields (loadChroma s row o) fun r => ∀ i < 8, r.byte i = row.byte (o + i / s.across) := by
  have hn : 8 / s.across ≤ 8 := Nat.div_le_self 8 s.across
  have halves : ∀ {r : Register} {i : Nat}, i < 16 →
      (r.unpackLow r).byte i = r.byte (i / 2) := fun {r i} hi => by
    rw [r.byte_unpackLow r hi, ite_self]
  refine (yields_loadPart (by omega) h).bind fun r hr => yields_pure fun i hi => ?_
  cases s with
  | s444 =>
    simp only [Subsampling.across] at hr ⊢
    rw [hr i hi, Nat.div_one]
  | s420 =>
    simp only [Subsampling.across] at hr ⊢
    rw [halves (by omega), hr _ (by omega)]
  | s422 =>
    simp only [Subsampling.across] at hr ⊢
    rw [halves (by omega), hr _ (by omega)]
  | s411 =>
    simp only [Subsampling.across] at hr ⊢
    rw [halves (by omega), halves (by omega), hr _ (by omega), Nat.div_div_eq_div_mul]

/-- **A group of eight pixels**, each from its own samples. -/
theorem yields_eight (hx : s.across ∣ x) (hxw : x + 8 ≤ w) (hy : yRow.size = w)
    (hu : uRow.size = w / s.across) (hv : vRow.size = w / s.across) :
    Yields (eight s k yRow uRow vRow x) fun bs => ∃ units : List (List UInt8),
      bs = units.flatten ∧ units.length = 8 ∧ ∀ (i : Nat) (hi : i < units.length),
        units[i] = (PixelLayout.colour k).bytesFor (rowPixel s yRow uRow vRow (x + i)) := by
  have hsplit : ∀ j, (x + j) / s.across = x / s.across + j / s.across := by
    obtain ⟨m, rfl⟩ := hx
    intro j
    rw [Nat.mul_add_div s.across_pos, Nat.mul_div_cancel_left _ s.across_pos]
  have hchroma : x / s.across + 8 / s.across ≤ w / s.across := by
    rw [← hsplit]
    exact Nat.div_le_div_right hxw
  refine (yields_loadPart (by decide) (by omega)).bind fun y hyb => ?_
  refine (yields_loadChroma s (by omega)).bind fun u hub => ?_
  refine (yields_loadChroma s (by omega)).bind fun v hvb => ?_
  refine yields_pure ⟨(colours y u v).toList.map fun c => k.bytes c 0, List.flatMap_def, ?_, ?_⟩
  · rw [List.length_map, Vector.length_toList]
  · intro i hi
    have hi8 : i < 8 := by rwa [List.length_map, Vector.length_toList] at hi
    have hcolour := getElem_colours y u v ⟨i, hi8⟩
    rw [List.getElem_map, Vector.getElem_toList]
    simp only [Fin.getElem_fin] at hcolour
    simp only [hcolour, hyb i hi8, hub i hi8, hvb i hi8, rowPixel, hsplit,
      PixelLayout.bytesFor, Pixel.colour, Pixel.alpha]

/-- **All groups from pixel `x` on.** -/
theorem yields_startFrom (hlt : w * k.channels < 0x10000000000000000) (hy : yRow.size = w)
    (hu : uRow.size = w / s.across) (hv : vRow.size = w / s.across)
    (hrow : row.size = w * k.channels) (n : Nat) : ∀ {x : Nat} {r : Plane}, w - x ≤ n → 8 ∣ x →
      x ≤ w →
      row.Overwritten (x * k.channels)
        (Layout.draw (.pixels (.colour k)) w (rowPixel s yRow uRow vRow) 0) r →
      Yields (startFrom s k yRow uRow vRow w x r) fun t => t.done = 8 * (w / 8) ∧
        row.Overwritten (t.done * k.channels)
          (Layout.draw (.pixels (.colour k)) w (rowPixel s yRow uRow vRow) 0) t.row := by
  have h8 : s.across ∣ 8 := by cases s <;> decide
  -- a pixel has three bytes at least, so the eight pixels looked ahead are counted in a word
  have hch : w * 3 ≤ w * k.channels := Nat.mul_le_mul_left w (by cases k <;> decide)
  induction n with
  | zero =>
    intro x r hn hx hxw hr
    rw [startFrom]
    refine yields_bind_ok (size_eq_ok (by omega)) ?_
    rw [if_neg (by omega)]
    exact yields_pure ⟨by dsimp only; omega, hr⟩
  | succ n ih =>
    intro x r hn hx hxw hr
    rw [startFrom]
    refine yields_bind_ok (size_eq_ok (by omega)) ?_
    split
    · rename_i hin
      have hend : (x + 8) * k.channels ≤ w * k.channels := Nat.mul_le_mul_right _ hin
      have hxend : x * k.channels ≤ (x + 8) * k.channels := Nat.mul_le_mul_right _ (by omega)
      refine (yields_eight (Nat.dvd_trans h8 hx) hin hy hu hv).bind fun bs height => ?_
      obtain ⟨units, hbs, hlen, hunits⟩ := height
      refine yields_bind_ok (size_eq_ok (by omega)) ?_
      refine yields_bind_ok (size_eq_ok (by omega)) ?_
      have hdraw := Plane.Overwritten.drawPixels (l := .colour k) units hr
        (by rw [hlen]; exact hrow.symm ▸ hend) hunits
      rw [hlen, ← hbs] at hdraw
      refine hdraw.bind fun t ht => ?_
      exact ih (by omega) (by omega) hin ht
    · exact yields_pure ⟨by dsimp only; omega, hr⟩

/-- **The whole groups of eight pixels of a row.** -/
theorem yields_start (hlt : w * k.channels < 0x10000000000000000) (hy : yRow.size = w)
    (hu : uRow.size = w / s.across) (hv : vRow.size = w / s.across)
    (hrow : row.size = w * k.channels) :
    Yields (start s k yRow uRow vRow row w) fun t => t.done = 8 * (w / 8) ∧
      row.Overwritten (t.done * k.channels)
        (Layout.draw (.pixels (.colour k)) w (rowPixel s yRow uRow vRow) 0) t.row := by
  refine yields_startFrom hlt hy hu hv hrow w (Nat.sub_le w 0) (Nat.dvd_zero 8) (Nat.zero_le w) ?_
  rw [Nat.zero_mul]
  exact .zero row _

/-- **Whole groups of eight pixels begin a row.** -/
theorem start_begins (s : Subsampling) (k : PixelOrder) : Begins s (.colour k) (start s k) := by
  intro y u v row w _ hlt hy hu hv hrow
  have hsize : w * k.channels ≤ w * 4 := Nat.mul_le_mul_left w k.channels_le
  refine (yields_start (by omega) hy hu hv hrow).mono fun t ht => ⟨?_, ht.2⟩
  rw [ht.1]
  exact Nat.mul_div_le w 8

end Row

end RowLanes
end FrameConvert
