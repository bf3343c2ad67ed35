/-
# Pixels and the chroma samples over them

The pixels of a frame of width `w` are numbered row by row, and so are the samples of
its chroma grid.  `s.cell w n` is the sample over pixel `n`, and `s.corner w c` the
top left pixel under sample `c`; the block of the sample is

`s.under w c i j = s.corner w c + j w + i`,  `i < s.across`, `j < s.down`.

Where the sides are multiples of the block, the pixels under a sample are pixels of the
frame (`under_lt`) and have that sample over them (`cell_under`).

`s.mean g` is the mean of `g` over one block, rounded down once.  A grid that is finer
or coarser by whole factors sees the same mean (`mean_scaled`): repeating every
sample equally often changes neither the mean nor the way it is rounded.
-/

import FrameConvert.Layout
import Mathlib.Algebra.BigOperators.Ring.Finset
import Mathlib.Tactic.Ring

namespace FrameConvert

open Finset

/-- Row and column of an index. -/
theorem index_div_mod {w x : Nat} (y : Nat) (hx : x < w) :
    (y * w + x) / w = y ∧ (y * w + x) % w = x := by
  have hw : 0 < w := by omega
  constructor
  · rw [Nat.add_comm, Nat.add_mul_div_right _ _ hw, Nat.div_eq_of_lt hx, Nat.zero_add]
  · rw [Nat.add_comm, Nat.add_mul_mod_self_right, Nat.mod_eq_of_lt hx]

/-- An index is in range when its row and column are. -/
theorem index_lt {w h x y : Nat} (hx : x < w) (hy : y < h) : y * w + x < w * h := by
  have := Nat.mul_le_mul_right w (Nat.succ_le_of_lt hy)
  rw [Nat.succ_mul, Nat.mul_comm h w] at this
  omega

/-- A row ends within the frame. -/
theorem row_end {w h y : Nat} (hy : y < h) : (y + 1) * w ≤ w * h := by
  rw [Nat.mul_comm w h]
  exact Nat.mul_le_mul_right w hy

/-- Every index has a row and a column. -/
theorem exists_index {w h n : Nat} (hn : n < w * h) :
    ∃ x y, x < w ∧ y < h ∧ n = y * w + x := by
  have hw : 0 < w := Nat.pos_of_mul_pos_right (Nat.zero_lt_of_lt hn)
  exact ⟨n % w, n / w, Nat.mod_lt _ hw, Nat.div_lt_of_lt_mul hn, (Nat.div_add_mod' n w).symm⟩

namespace Subsampling

variable {s : Subsampling} {w h : Nat}

/-- The sample over pixel `n`. -/
def cell (s : Subsampling) (w n : Nat) : Nat :=
  n / w / s.down * (w / s.across) + n % w / s.across

/-- The top left pixel under sample `c`. -/
def corner (s : Subsampling) (w c : Nat) : Nat :=
  c / (w / s.across) * s.down * w + c % (w / s.across) * s.across

/-- Pixel `i` of row `j` of the block under sample `c`. -/
def under (s : Subsampling) (w c i j : Nat) : Nat := s.corner w c + j * w + i

theorem cell_index (s : Subsampling) {x : Nat} (y : Nat) (hx : x < w) :
    s.cell w (y * w + x) = y / s.down * (w / s.across) + x / s.across := by
  obtain ⟨hd, hm⟩ := index_div_mod y hx
  rw [cell, hd, hm]

theorem corner_index (s : Subsampling) {cx : Nat} (cy : Nat) (hx : cx < w / s.across) :
    s.corner w (cy * (w / s.across) + cx) = cy * s.down * w + cx * s.across := by
  obtain ⟨hd, hm⟩ := index_div_mod cy hx
  rw [corner, hd, hm]

theorem under_index (s : Subsampling) {cx : Nat} (cy i j : Nat) (hx : cx < w / s.across) :
    s.under w (cy * (w / s.across) + cx) i j =
      (cy * s.down + j) * w + (cx * s.across + i) := by
  rw [under, corner_index s cy hx]
  ring

/-- A column under a sample is within the row. -/
theorem column_lt (hw : s.across ∣ w) {cx i : Nat} (hx : cx < w / s.across)
    (hi : i < s.across) : cx * s.across + i < w := by
  have := index_lt hi hx
  rwa [Nat.mul_div_cancel' hw] at this

/-- A row under a sample is within the frame. -/
theorem row_lt (hh : s.down ∣ h) {cy j : Nat} (hy : cy < h / s.down) (hj : j < s.down) :
    cy * s.down + j < h := by
  have := index_lt hj hy
  rwa [Nat.mul_div_cancel' hh] at this

/-- The pixels under a sample of the grid are pixels of the frame. -/
theorem under_lt (hw : s.across ∣ w) (hh : s.down ∣ h) {c i j : Nat}
    (hc : c < w / s.across * (h / s.down)) (hi : i < s.across) (hj : j < s.down) :
    s.under w c i j < w * h := by
  obtain ⟨cx, cy, hx, hy, rfl⟩ := exists_index hc
  rw [under_index s cy i j hx]
  exact index_lt (column_lt hw hx hi) (row_lt hh hy hj)

/-- The sample over a pixel is a sample of the grid. -/
theorem cell_lt (hw : s.across ∣ w) (hh : s.down ∣ h) {n : Nat} (hn : n < w * h) :
    s.cell w n < w / s.across * (h / s.down) := by
  obtain ⟨x, y, hx, hy, rfl⟩ := exists_index hn
  rw [cell_index s y hx]
  refine index_lt ?_ ?_
  · exact Nat.div_lt_div_of_lt_of_dvd hw hx
  · exact Nat.div_lt_div_of_lt_of_dvd hh hy

/-- **The pixels under a sample have it over them.** -/
theorem cell_under (hw : s.across ∣ w) {c i j : Nat} (hw0 : 0 < w) (hi : i < s.across)
    (hj : j < s.down) : s.cell w (s.under w c i j) = c := by
  have hc : 0 < w / s.across := Nat.div_pos (Nat.le_of_dvd hw0 hw) s.across_pos
  have hx : c % (w / s.across) < w / s.across := Nat.mod_lt _ hc
  obtain ⟨hrow, -⟩ := index_div_mod (c / (w / s.across)) hj
  obtain ⟨hcol, -⟩ := index_div_mod (c % (w / s.across)) hi
  conv_lhs => rw [← Nat.div_add_mod' c (w / s.across)]
  rw [under_index s _ i j hx, cell_index s _ (column_lt hw hx hi), hrow, hcol,
    Nat.div_add_mod']

/-- The pixels under a macro pixel. -/
theorem under_s422 (hw : 2 ∣ w) (m i : Nat) : s422.under w m i 0 = 2 * m + i := by
  obtain ⟨v, rfl⟩ := hw
  have hv : 2 * v / 2 = v := by omega
  have hm : m / v * v + m % v = m := Nat.div_add_mod' m v
  simp only [under, corner, across, down, hv]
  calc m / v * 1 * (2 * v) + m % v * 2 + 0 * (2 * v) + i
      = 2 * (m / v * v + m % v) + i := by ring
    _ = 2 * m + i := by rw [hm]

/-- The mean over one block, rounded down. -/
def mean (s : Subsampling) (g : Nat → Nat → UInt8) : UInt8 :=
  UInt8.ofNat ((∑ j ∈ range s.down, ∑ i ∈ range s.across, (g i j).toNat) / (s.across * s.down))

theorem mean_congr {f g : Nat → Nat → UInt8}
    (hfg : ∀ i < s.across, ∀ j < s.down, f i j = g i j) : s.mean f = s.mean g := by
  have : ∑ j ∈ range s.down, ∑ i ∈ range s.across, (f i j).toNat =
      ∑ j ∈ range s.down, ∑ i ∈ range s.across, (g i j).toNat :=
    sum_congr rfl fun j hj => sum_congr rfl fun i hi => by
      rw [hfg i (mem_range.1 hi) j (mem_range.1 hj)]
  rw [mean, mean, this]

/-- A block of equal samples has their value for its mean. -/
theorem mean_const (s : Subsampling) (v : UInt8) : (s.mean fun _ _ => v) = v := by
  have hpos : 0 < s.across * s.down := Nat.mul_pos s.across_pos s.down_pos
  have hrow : ∀ j ∈ range s.down, ∑ _i ∈ range s.across, v.toNat = s.across * v.toNat :=
    fun _ _ => by rw [sum_const_nat fun _ _ => rfl, card_range]
  rw [mean, sum_const_nat hrow, card_range, ← Nat.mul_assoc, Nat.mul_comm s.down,
    Nat.mul_div_cancel_left _ hpos, UInt8.ofNat_toNat]

end Subsampling

/-- The sum of samples is at most `255` for each of them. -/
theorem sum_samples_le (g : Nat → UInt8) (n : Nat) : ∑ i ∈ range n, (g i).toNat ≤ 255 * n := by
  induction n with
  | zero => simp
  | succ n ih =>
    have := (g n).toNat_lt
    rw [sum_range_succ]
    omega

theorem sum_rows_le (g : Nat → Nat → UInt8) (m n : Nat) :
    ∑ j ∈ range n, ∑ i ∈ range m, (g j i).toNat ≤ 255 * (m * n) := by
  induction n with
  | zero => simp
  | succ n ih =>
    have := sum_samples_le (g n) m
    rw [sum_range_succ, Nat.mul_succ]
    omega

/-- A sum over `a k` indices, by `k` runs of `a`. -/
theorem sum_runs (g : Nat → Nat) (a k : Nat) :
    ∑ i ∈ range (a * k), g i = ∑ i ∈ range k, ∑ j ∈ range a, g (a * i + j) := by
  induction k with
  | zero => simp
  | succ k ih => rw [Nat.mul_succ, sum_range_add, ih, sum_range_succ]

/-- A sum over `a k` indices sees every one of `k` values `a` times. -/
theorem sum_repeated {a : Nat} (ha : 0 < a) (g : Nat → Nat) (o k : Nat) :
    ∑ i ∈ range (a * k), g ((a * o + i) / a) = a * ∑ i ∈ range k, g (o + i) := by
  have hrun : ∀ i, ∀ j ∈ range a, g ((a * o + (a * i + j)) / a) = g (o + i) := by
    intro i j hj
    rw [← Nat.add_assoc, ← Nat.mul_add, Nat.mul_add_div ha, Nat.div_eq_of_lt (mem_range.1 hj),
      Nat.add_zero]
  rw [sum_runs, mul_sum]
  refine sum_congr rfl fun i _ => ?_
  rw [sum_const_nat (hrun i), card_range]

/-- **A block seen through another grid.**  Along an axis where the grids have blocks
of `a` and `b` pixels, the `b` pixels of a block lie under `max (b / a) 1` samples of
the other grid, each equally often. -/
theorem sum_block {a b : Nat} (ha : 0 < a) (hb : 0 < b) (hab : a ∣ b ∨ b ∣ a)
    (g : Nat → Nat) (x : Nat) :
    ∑ i ∈ range b, g ((x * b + i) / a) =
      b / max (b / a) 1 * ∑ i ∈ range (max (b / a) 1), g (x * b / a + i) := by
  rcases hab with ⟨k, rfl⟩ | ⟨k, rfl⟩
  · have hk : 0 < k := Nat.pos_of_mul_pos_left hb
    have hx : x * (a * k) = a * (x * k) := by ring
    rw [Nat.mul_div_cancel_left k ha, Nat.max_eq_left hk, Nat.mul_div_cancel _ hk, hx,
      Nat.mul_div_cancel_left _ ha]
    exact sum_repeated ha g (x * k) k
  · have hk : 0 < k := Nat.pos_of_mul_pos_left ha
    have h1 : max (b / (b * k)) 1 = 1 := by
      have : b / (b * k) ≤ 1 := by
        rw [← Nat.div_div_eq_div_mul, Nat.div_self hb]
        exact Nat.div_le_self 1 k
      omega
    have hsame : ∀ i ∈ range b, g ((x * b + i) / (b * k)) = g (x * b / (b * k)) := by
      intro i hi
      rw [← Nat.div_div_eq_div_mul, ← Nat.div_div_eq_div_mul, (index_div_mod x (mem_range.1 hi)).1,
        Nat.mul_div_cancel _ hb]
    rw [h1, Nat.div_one, sum_const_nat hsame, card_range, sum_range_one, Nat.add_zero]

namespace Subsampling

/-- Along each axis one block divides the other. -/
theorem across_dvd (s t : Subsampling) : s.across ∣ t.across ∨ t.across ∣ s.across := by
  cases s <;> cases t <;> decide

theorem down_dvd (s t : Subsampling) : s.down ∣ t.down ∨ t.down ∣ s.down := by
  cases s <;> cases t <;> decide

/-- **The mean of a block through another grid.**  What the pixels of a block have over
them in another grid has the same mean as the samples of that grid themselves, each
counted once. -/
theorem mean_scaled (s t : Subsampling) (g : Nat → Nat → UInt8) (x y : Nat) :
    (t.mean fun i j => g ((x * t.across + i) / s.across) ((y * t.down + j) / s.down)) =
      UInt8.ofNat
        ((∑ j ∈ range (max (t.down / s.down) 1), ∑ i ∈ range (max (t.across / s.across) 1),
          (g (x * t.across / s.across + i) (y * t.down / s.down + j)).toNat) /
        (max (t.across / s.across) 1 * max (t.down / s.down) 1)) := by
  set bw := max (t.across / s.across) 1 with hbw
  set bh := max (t.down / s.down) 1 with hbh
  have ha : t.across / bw * bw = t.across := by cases s <;> cases t <;> decide
  have hd : t.down / bh * bh = t.down := by cases s <;> cases t <;> decide
  have hpos : 0 < t.across / bw * (t.down / bh) := by cases s <;> cases t <;> decide
  have hx : ∀ j, ∑ i ∈ range t.across, (g ((x * t.across + i) / s.across) j).toNat =
      t.across / bw * ∑ i ∈ range bw, (g (x * t.across / s.across + i) j).toNat := fun j =>
    sum_block s.across_pos t.across_pos (across_dvd s t) (fun i => (g i j).toNat) x
  have hy := sum_block s.down_pos t.down_pos (down_dvd s t)
    (fun j => ∑ i ∈ range bw, (g (x * t.across / s.across + i) j).toNat) y
  rw [← hbh] at hy
  have hn : t.across * t.down = t.across / bw * (t.down / bh) * (bw * bh) := by
    conv_lhs => rw [← ha, ← hd]
    ring
  simp only [mean, hx]
  rw [← mul_sum, hy, ← Nat.mul_assoc, hn, Nat.mul_div_mul_left _ _ hpos]

end Subsampling
end FrameConvert
