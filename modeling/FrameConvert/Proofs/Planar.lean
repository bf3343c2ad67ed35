/-
# Planar frames into planar frames

Copying draws what a frame shows, because a frame draws what it shows as it was
(`copyFrame_translates`).  Between two grids of chroma (`planarToPlanar_translates`)
the heart is `resample`: a target sample is to be the mean of what its pixels have over
them in the source.  The kernel never visits pixels; it takes the mean of the source
samples of one block, whose sides are

`max (sw / dw) 1` by `max (sh / dh) 1`, at `x sw / dw`, `y sh / dh`.

Both the sides and the corner are those that `Subsampling.mean_scaled` speaks of
(`Scaling.ratio`, `Scaling.start`), so it is the same mean.  Sums stay below `255` times
the number of samples added so far, which is what keeps them among the 32-bit words.
-/

import FrameConvert.Proofs.Translates
import Mathlib.Algebra.Order.BigOperators.Group.Finset

namespace FrameConvert

open Finset

section Copy

variable {f : Format} {w h : Nat} {src dst : List Plane}

/-- A plane of the source is copied. -/
theorem yields_copyPlane {i n : Nat} (hs : Holds f w h src) (hd : Holds f w h dst)
    (hi : i < f.planeCount) (hn : f.planeSize w h i = n) :
    Yields (copyPlane src i n dst) (Drawn f w h (bytesOf src) i dst) := by
  refine yields_bind_ok (planeOf_eq_ok (hs.getElem? hi)) ?_
  exact yields_plane hd hi hn (fun _ _ => rfl) fun q hq =>
    Plane.yields_copy (hn ▸ hs.size i hi) hq

theorem chromaSamples_eq_ok (s : Subsampling) (hw : w * h * 4 < 0x10000000000000000) :
    chromaSamples s w h = .ok (w / s.across * (h / s.down)) := by
  have := Nat.mul_le_mul (Nat.div_le_self w s.across) (Nat.div_le_self h s.down)
  exact size_eq_ok (by omega)

/-- **A copy translates a format into itself.** -/
theorem copyFrame_translates (f : Format) : Translates (copyFrame f.layout) f f := by
  intro src dst w h hv
  have hsmall := hv.small
  suffices Yields (copyFrame f.layout src dst w h) (Overwrites f w h (bytesOf src) dst) from
    this.mono fun out ho => ho.congr fun i hi j hj => (draw_view hv.source _ hi hj).symm
  have single : ∀ {n : Nat}, f.planeCount = 1 → f.planeSize w h 0 = n → n ≤ w * h * 4 →
      Yields (size n >>= fun n => copyPlane src 0 n dst) (Overwrites f w h (bytesOf src) dst) := by
    intro n hc hn hle
    refine yields_bind_ok (size_eq_ok (by omega)) ?_
    refine (yields_copyPlane hv.src hv.dst (by omega) hn).mono fun out hr => ?_
    exact .of_single hc hv.dst hr.replaces
  cases hl : f.layout with
  | planar p =>
    cases p with
    | luma => exact single (Format.planeCount_luma hl) (Format.planeSize_zero_planar hl) (by omega)
    | chroma s o =>
      have hc := Format.planeCount_chroma hl
      refine yields_bind_ok (size_eq_ok (by omega)) ?_
      refine (yields_copyPlane hv.src hv.dst (by omega)
        (Format.planeSize_zero_planar hl)).bind fun d₀ h₀ => ?_
      refine yields_bind_ok (chromaSamples_eq_ok s hsmall) ?_
      refine h₀.thenChroma hc hv.dst (.inl ⟨rfl, rfl⟩) (fun d hd => ?_) fun d hd => ?_
      · exact yields_copyPlane hv.src hd (by omega) (Format.planeSize_chroma hl (.inl rfl))
      · exact yields_copyPlane hv.src hd (by omega) (Format.planeSize_chroma hl (.inr rfl))
  | packed o =>
    exact single (Format.planeCount_packed hl) (Format.planeSize_zero_packed hl) (by omega)
  | pixels l =>
    exact single (Format.planeCount_pixels hl) (Format.planeSize_zero_pixels hl)
      (Nat.mul_le_mul_left _ l.channels_le)

end Copy

/-- Along an axis a grid of `m` blocks of `a` pixels covers as much as one of `n` blocks
of `b` pixels, and one of the blocks is made of whole ones of the other. -/
structure Scaling (a b m n : Nat) : Prop where
  source_pos : 0 < a
  target_pos : 0 < b
  count_pos : 0 < n
  length : a * m = b * n
  nested : a ∣ b ∨ b ∣ a

namespace Scaling

variable {a b m n : Nat}

/-- Where a block starts in the other grid. -/
theorem start (hs : Scaling a b m n) (x : Nat) : x * m / n = x * b / a := by
  have hm : a * (x * m) = n * (x * b) := by
    calc a * (x * m) = x * (a * m) := Nat.mul_left_comm a x m
      _ = x * (b * n) := by rw [hs.length]
      _ = n * (x * b) := by rw [← Nat.mul_assoc, Nat.mul_comm]
  calc x * m / n = a * (x * m) / (a * n) := (Nat.mul_div_mul_left _ _ hs.source_pos).symm
    _ = n * (x * b) / (n * a) := by rw [hm, Nat.mul_comm a n]
    _ = x * b / a := Nat.mul_div_mul_left _ _ hs.count_pos

/-- How many blocks of the other grid it takes. -/
theorem ratio (hs : Scaling a b m n) : m / n = b / a := by
  have := hs.start 1
  rwa [Nat.one_mul, Nat.one_mul] at this

/-- It ends within the other grid. -/
theorem inside (hs : Scaling a b m n) {x : Nat} (hx : x < n) :
    x * m / n + max (m / n) 1 ≤ m := by
  rw [hs.start, hs.ratio]
  obtain ⟨ha, hb, -, h, ⟨k, rfl⟩ | ⟨k, rfl⟩⟩ := hs
  · have hk : 0 < k := Nat.pos_of_mul_pos_left hb
    have hm : m = k * n := Nat.eq_of_mul_eq_mul_left ha (by rw [h, Nat.mul_assoc])
    have hxk : x * (a * k) = a * (x * k) := Nat.mul_left_comm x a k
    have := Nat.mul_le_mul_left k (Nat.succ_le_of_lt hx)
    rw [Nat.mul_succ, Nat.mul_comm k x] at this
    rw [hxk, Nat.mul_div_cancel_left _ ha, Nat.mul_div_cancel_left k ha, Nat.max_eq_left hk, hm]
    exact this
  · have hn : n = k * m := Nat.eq_of_mul_eq_mul_left hb (by rw [← h, Nat.mul_assoc])
    have hone : b / (b * k) ≤ 1 := by
      rw [← Nat.div_div_eq_div_mul, Nat.div_self hb]
      exact Nat.div_le_self 1 k
    rw [Nat.mul_comm x b, Nat.mul_div_mul_left _ _ hb, Nat.max_eq_right hone]
    exact Nat.div_lt_of_lt_mul (hn ▸ hx)

theorem ratio_le (hs : Scaling a b m n) (hb : b ≤ 4) : max (m / n) 1 ≤ 4 := by
  have := Nat.div_le_self b a
  rw [hs.ratio]
  omega

end Scaling

/-- **The sum over a block** of samples, none of them outside the plane, and no partial
sum outside its word. -/
theorem yields_blockSum {p : Plane} {sw x y bw bh : Nat} (hb : 0 < bw) (hx : x + bw ≤ sw)
    (hsw : sw < 0x10000000000000000) (hy : (y + bh) * sw ≤ p.size)
    (hlt : (y + bh) * sw < 0x10000000000000000) (hc : 255 * (bw * bh) < 0x100000000) :
    Yields (blockSum p sw x y bw bh) fun s =>
      s = ∑ j ∈ range bh, ∑ i ∈ range bw, (p.byte ((y + j) * sw + (x + i))).toNat := by
  set g : Nat → Nat → UInt8 := fun j i => p.byte ((y + j) * sw + (x + i)) with hg
  refine yields_bind_ok (chunk_eq_ok (by omega)) ?_
  refine yields_bind_ok (size_eq_ok (by omega)) ?_
  refine yields_sweep (fun n s => s = ∑ j ∈ range n, ∑ i ∈ range bw, (g j i).toNat) rfl
    fun n s hn hs => ?_
  have hrow : (y + n + 1) * sw ≤ (y + bh) * sw := Nat.mul_le_mul_right _ (by omega)
  refine (Plane.yields_row (by omega) (by omega)).bind fun row hread => ?_
  obtain ⟨hrs, hrb⟩ := hread
  refine (Plane.yields_slice (by omega)).bind fun run hrun => ?_
  obtain ⟨hns, hnb⟩ := hrun
  have hbyte : ∀ i < bw, run.byte i = g n i := fun i hi => by
    rw [hnb i (by omega), hrb (x + i) (by omega)]
  have hle : s ≤ 255 * (bw * n) := hs ▸ sum_rows_le g bw n
  have hnb : 255 * (bw * n) + 255 * bw ≤ 255 * (bw * bh) := by
    have := Nat.mul_le_mul_left bw (Nat.succ_le_of_lt hn)
    rw [Nat.mul_succ] at this
    omega
  rw [sum_range_succ, ← hs]
  refine yields_sweep (fun m s' => s' = s + ∑ i ∈ range m, (g n i).toNat) rfl
    fun m s' hm hs' => ?_
  have := sum_samples_le (g n) m
  have := (g n m).toNat_lt
  refine yields_bind_ok (Plane.read_eq_ok (by omega)) ?_
  rw [hbyte m hm]
  refine yields_of_eq_ok (total_eq_ok (by omega)) ?_
  rw [sum_range_succ, hs', Nat.add_assoc]

/-- The mean of the samples of a block of `bw` by `bh` at `x`, `y` in a plane of width
`sw`. -/
def blockMean (p : Plane) (sw x y bw bh : Nat) : UInt8 :=
  UInt8.ofNat ((∑ j ∈ range bh, ∑ i ∈ range bw, (p.byte ((y + j) * sw + (x + i))).toNat) /
    (bw * bh))

/-- A block of one sample. -/
theorem blockMean_one (p : Plane) (sw x y : Nat) :
    blockMean p sw x y 1 1 = p.byte (y * sw + x) := by
  simp only [blockMean, sum_range_one, Nat.add_zero, Nat.mul_one, Nat.div_one, UInt8.ofNat_toNat]

/-- **Resampling takes means of blocks**, without a fault. -/
theorem yields_resample {p q : Plane} {a b d e sw sh dw dh : Nat} (hx : Scaling a b sw dw)
    (hy : Scaling d e sh dh) (hb : b ≤ 4) (he : e ≤ 4) (hw : sw < 0x100000000 ∧ dw < 0x100000000)
    (hh : sh < 0x100000000 ∧ dh < 0x100000000) (hp : sw * sh ≤ p.size) (hq : dw * dh ≤ q.size)
    (hp64 : sw * sh < 0x10000000000000000) (hq64 : dw * dh < 0x10000000000000000) :
    Yields (resample p sw sh dw dh q) (q.Overwritten (dw * dh) fun c =>
      blockMean p sw (c % dw * sw / dw) (c / dw * sh / dh) (max (sw / dw) 1)
        (max (sh / dh) 1)) := by
  have hdw := hx.count_pos
  have hdh := hy.count_pos
  have step : ∀ {x n m : Nat}, x < n → n < 0x100000000 → m < 0x100000000 →
      x * m < 0x10000000000000000 := fun {x n m} hx hn hm =>
    Nat.mul_lt_mul_of_lt_of_le (by omega : x < 0x100000000) (Nat.le_of_lt hm) (by decide)
  rw [resample]
  split
  · rename_i heq
    obtain ⟨rfl, rfl⟩ := heq
    refine yields_bind_ok (size_eq_ok hp64) ?_
    refine (Plane.yields_copy hp hq).mono fun r hr => hr.congr fun c hc => ?_
    rw [Nat.mul_div_cancel _ hdw, Nat.mul_div_cancel _ hdh, Nat.div_self hdw, Nat.div_self hdh,
      Nat.max_self, blockMean_one, Nat.div_add_mod']
  · refine yields_bind_ok (quotient_eq_ok (by omega)) ?_
    refine yields_bind_ok (quotient_eq_ok (by omega)) ?_
    have hbw := hx.ratio_le hb
    have hbh := hy.ratio_le he
    have hcount := Nat.mul_le_mul hbw hbh
    refine yields_bind_ok (total_eq_ok (by omega)) ?_
    refine yields_bind_ok (chunk_eq_ok (by omega)) ?_
    rw [Nat.mul_comm dw dh]
    refine Plane.Overwritten.tiles_zero fun y r hyd hr => ?_
    have hin := hy.inside hyd
    refine yields_bind_ok (size_eq_ok (step hyd hh.2 hh.1)) ?_
    refine yields_bind_ok (quotient_eq_ok (by omega)) ?_
    have hrow : ∀ k, y * sh / dh + k ≤ sh → (y * sh / dh + k) * sw ≤ sw * sh := fun k hk => by
      rw [Nat.mul_comm sw]
      exact Nat.mul_le_mul_right _ hk
    have hcell : ∀ x < dw, y * dw + x < dw * dh := fun x hx => index_lt hx hyd
    split
    · rename_i hone
      have h1 : max (sw / dw) 1 = 1 ∧ max (sh / dh) 1 = 1 :=
        ⟨Nat.eq_one_of_mul_eq_one_right hone, Nat.eq_one_of_mul_eq_one_left hone⟩
      have := hrow 1 (by omega)
      refine (Plane.yields_row (by omega) (by omega)).bind fun row hread => ?_
      obtain ⟨hrs, hrb⟩ := hread
      refine hr.points fun x r hxd hr => ?_
      have hxin := hx.inside hxd
      have := hcell x hxd
      refine yields_bind_ok (size_eq_ok (step hxd hw.2 hw.1)) ?_
      refine yields_bind_ok (quotient_eq_ok (by omega)) ?_
      refine yields_bind_ok (Plane.read_eq_ok (by omega)) ?_
      refine yields_bind_ok (size_eq_ok (by omega)) ?_
      refine hr.write (by omega) ?_
      obtain ⟨hyc, hxc⟩ := index_div_mod y hxd
      rw [hxc, hyc, h1.1, h1.2, blockMean_one, hrb _ (by omega)]
    · refine hr.points fun x r hxd hr => ?_
      have hxin := hx.inside hxd
      have := hcell x hxd
      have := hrow _ hin
      refine yields_bind_ok (size_eq_ok (step hxd hw.2 hw.1)) ?_
      refine yields_bind_ok (quotient_eq_ok (by omega)) ?_
      refine (yields_blockSum (by omega) hxin (by omega) (by omega) (by omega)
        (by omega)).bind fun s hs => ?_
      refine yields_bind_ok (quotient_eq_ok (Nat.mul_ne_zero (by omega) (by omega))) ?_
      refine yields_bind_ok (size_eq_ok (by omega)) ?_
      refine hr.write (by omega) ?_
      obtain ⟨hyc, hxc⟩ := index_div_mod y hxd
      rw [hxc, hyc, blockMean, hs]

section Chroma

variable {s t : Subsampling} {w h : Nat}

theorem scaling_across (hw : 0 < w) (hs : s.across ∣ w) (ht : t.across ∣ w) :
    Scaling s.across t.across (w / s.across) (w / t.across) where
  source_pos := s.across_pos
  target_pos := t.across_pos
  count_pos := Nat.div_pos (Nat.le_of_dvd hw ht) t.across_pos
  length := by rw [Nat.mul_div_cancel' hs, Nat.mul_div_cancel' ht]
  nested := Subsampling.across_dvd s t

theorem scaling_down (hh : 0 < h) (hs : s.down ∣ h) (ht : t.down ∣ h) :
    Scaling s.down t.down (h / s.down) (h / t.down) where
  source_pos := s.down_pos
  target_pos := t.down_pos
  count_pos := Nat.div_pos (Nat.le_of_dvd hh ht) t.down_pos
  length := by rw [Nat.mul_div_cancel' hs, Nat.mul_div_cancel' ht]
  nested := Subsampling.down_dvd s t

/-- **The mean of a block of source samples is the mean of what the pixels under the
target sample have over them.** -/
theorem blockMean_eq_mean (hx : Scaling s.across t.across (w / s.across) (w / t.across))
    (hy : Scaling s.down t.down (h / s.down) (h / t.down)) (hw : t.across ∣ w) (p : Plane)
    (c : Nat) :
    blockMean p (w / s.across) (c % (w / t.across) * (w / s.across) / (w / t.across))
        (c / (w / t.across) * (h / s.down) / (h / t.down)) (max (w / s.across / (w / t.across)) 1)
        (max (h / s.down / (h / t.down)) 1) =
      t.mean fun i j => p.byte (s.cell w (t.under w c i j)) := by
  have hc : c % (w / t.across) < w / t.across := Nat.mod_lt _ hx.count_pos
  rw [hx.start, hy.start, hx.ratio, hy.ratio, blockMean,
    ← Subsampling.mean_scaled s t fun X Y => p.byte (Y * (w / s.across) + X)]
  refine Subsampling.mean_congr fun i hi j hj => ?_
  conv_rhs => rw [← Nat.div_add_mod' c (w / t.across)]
  rw [t.under_index _ i j hc, s.cell_index _ (Subsampling.column_lt hw hc hi)]

/-- Through an equal grid a block has a single sample over it. -/
theorem mean_equal (hw : s.across ∣ w) (hw0 : 0 < w) (x : Nat → UInt8) (c : Nat) :
    (s.mean fun i j => x (s.cell w (s.under w c i j))) = x c := by
  have hover : ∀ i < s.across, ∀ j < s.down, x (s.cell w (s.under w c i j)) = x c := by
    intro i hi j hj
    rw [Subsampling.cell_under hw hw0 hi hj]
  rw [Subsampling.mean_congr hover, Subsampling.mean_const]

end Chroma

section Planar

variable {a b : Format} {w h : Nat} {src dst : List Plane} {s t : Subsampling} {o k : ChromaOrder}

/-- What a planar target draws of a planar source. -/
theorem draw_chroma_of_chroma (s t : Subsampling) (o k : ChromaOrder) (w : Nat) (x : FrameBytes)
    {j : Nat} (hj : j = 1 ∨ j = 2) (c : Nat) :
    Layout.translated (.planar (.chroma s o)) (.planar (.chroma t k)) w x j c =
      t.mean fun i l => x (if j = k.u then o.u else o.v) (s.cell w (t.under w c i l)) := by
  have h0 : j ≠ 0 := by omega
  simp only [Layout.translated, Layout.draw, if_neg h0, chromaOf, Layout.view, Pixel.isRgb]
  by_cases hu : j = k.u
  · simp only [if_pos hu, Pixel.u, Bool.false_eq_true, if_false]
  · simp only [if_neg hu, Pixel.v, Bool.false_eq_true, if_false]

/-- What it draws of a frame without chroma. -/
theorem draw_chroma_of_luma (t : Subsampling) (k : ChromaOrder) (w : Nat) (x : FrameBytes)
    {j : Nat} (hj : j = 1 ∨ j = 2) (c : Nat) :
    Layout.translated (.planar .luma) (.planar (.chroma t k)) w x j c = neutral := by
  have h0 : j ≠ 0 := by omega
  simp only [Layout.translated, Layout.draw, if_neg h0]
  refine chromaOf_block rfl fun i _ l _ => ?_
  split <;> rfl

/-- **From the one grid to the other** a plane is resampled by the means of what the pixels have
over them. -/
theorem yields_resample_grids (ha : a.layout = .planar (.chroma s o))
    (hb : b.layout = .planar (.chroma t k)) (hfa : Fit a w h) (hfb : Fit b w h)
    (hw : w < 0x100000000) (hh : h < 0x100000000) {p q : Plane}
    (hp : w / s.across * (h / s.down) ≤ p.size) (hq : w / t.across * (h / t.down) ≤ q.size) :
    Yields (resample p (w / s.across) (h / s.down) (w / t.across) (h / t.down) q)
      (q.Overwritten (w / t.across * (h / t.down)) fun c =>
        t.mean fun i j => p.byte (s.cell w (t.under w c i j))) := by
  have hsmall := hfa.2.2.1
  have hx := scaling_across hfa.1 (hfa.across_dvd ha) (hfb.across_dvd hb)
  have hy := scaling_down hfa.2.1 (hfa.down_dvd ha) (hfb.down_dvd hb)
  have hsw : w / s.across ≤ w := Nat.div_le_self _ _
  have htw : w / t.across ≤ w := Nat.div_le_self _ _
  have hsh : h / s.down ≤ h := Nat.div_le_self _ _
  have hth : h / t.down ≤ h := Nat.div_le_self _ _
  have hs := Nat.mul_le_mul hsw hsh
  have ht := Nat.mul_le_mul htw hth
  have hfour : t.across ≤ 4 ∧ t.down ≤ 4 := by cases t <;> decide
  refine (yields_resample hx hy hfour.1 hfour.2 (by omega) (by omega) hp hq (by omega)
    (by omega)).mono fun r hr => hr.congr fun c _ => ?_
  exact blockMean_eq_mean hx hy (hfb.across_dvd hb) p c

/-- **One chroma plane of the target,** from that of the source. -/
theorem yields_resamplePlane (hv : Valid a b w h src dst)
    (ha : a.layout = .planar (.chroma s o)) (hb : b.layout = .planar (.chroma t k)) {i j : Nat}
    (hi : i = if j = k.u then o.u else o.v) (hj : j = 1 ∨ j = 2) {d : List Plane}
    (hd : Holds b w h d) :
    Yields (resamplePlane src s i t j w h d)
      (Drawn b w h (Layout.translated a.layout b.layout w (bytesOf src)) j d) := by
  have ho := o.u_v
  obtain ⟨hsi, hsize⟩ := hv.src.chroma ha (i := i) (by split at hi <;> omega)
  have hcb := Format.planeCount_chroma hb
  refine yields_bind_ok (planeOf_eq_ok hsi) ?_
  refine yields_plane hd (by omega) (Format.planeSize_chroma hb hj) (fun c _ => ?_) fun q hq =>
    yields_resample_grids ha hb hv.source hv.target hv.wide hv.high hsize hq
  rw [ha, hb, draw_chroma_of_chroma s t o k w _ hj, ← hi]
  rfl

/-- **Planar frames into planar frames.** -/
theorem planarToPlanar_translates {p q : PlanarLayout} (ha : a.layout = .planar p)
    (hb : b.layout = .planar q) : Translates (planarToPlanar p q) a b := by
  intro src dst w h hv
  have hsmall := hv.small
  have ha0 := Format.planeSize_zero_planar (w := w) (h := h) ha
  have hb0 := Format.planeSize_zero_planar (w := w) (h := h) hb
  have hac := a.planeCount_pos
  have luma : Yields (copyPlane src 0 (w * h) dst)
      (Drawn b w h (Layout.translated a.layout b.layout w (bytesOf src)) 0 dst) := by
    refine yields_bind_ok (planeOf_eq_ok (hv.src.getElem? hac)) ?_
    refine yields_plane hv.dst b.planeCount_pos hb0 (fun j _ => ?_) fun r hr =>
      Plane.yields_copy (ha0 ▸ hv.src.size 0 hac) hr
    rw [ha, hb]
    cases p <;> cases q <;> rfl
  refine yields_bind_ok (size_eq_ok (by omega)) ?_
  refine luma.bind fun d₀ h₀ => ?_
  cases q with
  | luma =>
    cases p <;> exact yields_pure (.of_single (Format.planeCount_luma hb) hv.dst h₀.replaces)
  | chroma t k =>
    have hc := Format.planeCount_chroma hb
    cases p with
    | luma =>
      have fill : ∀ i, i = 1 ∨ i = 2 → ∀ d, Holds b w h d →
          Yields (onPlane d i (·.fill (w / t.across * (h / t.down)) neutral))
            (Drawn b w h (Layout.translated a.layout b.layout w (bytesOf src)) i d) := by
        intro i hi d hd
        refine yields_plane hd (by omega) (Format.planeSize_chroma hb hi) (fun j _ => ?_)
          fun r hr => Plane.yields_fill hr
        rw [ha, hb, draw_chroma_of_luma t k w _ hi]
      refine yields_bind_ok (chromaSamples_eq_ok t hsmall) ?_
      exact h₀.thenChroma hc hv.dst (.inl ⟨rfl, rfl⟩) (fill 1 (.inl rfl)) (fill 2 (.inr rfl))
    | chroma s o =>
      have hkv := k.u_v
      refine h₀.thenChroma hc hv.dst hkv (fun d hd => ?_) fun d hd => ?_
      · exact yields_resamplePlane hv ha hb (if_pos rfl).symm (by omega) hd
      · exact yields_resamplePlane hv ha hb (if_neg (by omega)).symm (by omega) hd

/-- **Exchanging the chroma planes** turns one order of them into the other. -/
theorem swapChroma_reworks (ha : a.layout = .planar (.chroma s o))
    (hb : b.layout = .planar (.chroma s k)) (hok : o ≠ k) : Reworks (swapChroma s) a b := by
  intro planes w h hv
  have hca := Format.planeCount_chroma ha
  have hcb := Format.planeCount_chroma hb
  have hsmall := hv.small
  have hl := hv.src.count
  have hsize : ∀ i, i = 1 ∨ i = 2 → w / s.across * (h / s.down) ≤ (planeAt planes i).size :=
    fun i hi => (hv.src.chroma ha hi).2
  have hdraw : ∀ i j, i = 1 ∧ j = 2 ∨ i = 2 ∧ j = 1 → ∀ c < b.planeSize w h i,
      (planeAt planes j).byte c = Layout.translated a.layout b.layout w (bytesOf planes) i c := by
    intro i j hij c _
    have hswap : (if i = k.u then o.u else o.v) = j := by
      rcases hij with ⟨rfl, rfl⟩ | ⟨rfl, rfl⟩ <;> cases o <;> cases k <;>
        simp [ChromaOrder.u, ChromaOrder.v] at hok ⊢
    rw [ha, hb, draw_chroma_of_chroma s s o k w _ (by omega), hswap]
    exact (mean_equal (hv.target.across_dvd hb) hv.width_pos (bytesOf planes j) c).symm
  have exchange : ∀ {d : List Plane} {i j : Nat}, i = 1 ∧ j = 2 ∨ i = 2 ∧ j = 1 →
      planeAt d i = planeAt planes i →
      Yields ((planeAt planes i).copy (planeAt planes j) (w / s.across * (h / s.down)))
        fun p => Replaces d i (b.planeSize w h i)
          (Layout.translated a.layout b.layout w (bytesOf planes) i) (d.set i p) := by
    intro d i j hij hd
    have hn := Format.planeSize_chroma (w := w) (h := h) hb (show i = 1 ∨ i = 2 by omega)
    refine (Plane.yields_copy (hsize j (by omega)) (hsize i (by omega))).mono fun p hp => ?_
    rw [hn]
    exact ⟨p, hd ▸ hp.congr fun c hc => hdraw i j hij c (hn ▸ hc), rfl⟩
  have hluma := (Replaces.refl planes (show 0 < planes.length by omega) (b.planeSize w h 0)).congr
    (Q := Layout.translated a.layout b.layout w (bytesOf planes) 0) fun j _ => by rw [ha, hb]; rfl
  refine yields_bind_ok (chromaSamples_eq_ok s hsmall) ?_
  refine yields_bind_ok (planeOf_eq_ok (hv.src.getElem? (by omega))) ?_
  refine yields_bind_ok (planeOf_eq_ok (hv.src.getElem? (by omega))) ?_
  refine (exchange (.inl ⟨rfl, rfl⟩) rfl).bind fun p₁ h₁ => ?_
  refine (exchange (.inr ⟨rfl, rfl⟩) (h₁.plane_of_ne (by omega) (by decide))).bind fun p₂ h₂ => ?_
  exact yields_pure (.of_triple hcb hv.dst (.inl ⟨rfl, rfl⟩) hluma h₁ h₂)

end Planar

/-- Staying as it is translates a format into itself. -/
theorem keep_reworks (f : Format) : Reworks keep f f := by
  intro planes w h hv
  refine yields_pure ((Overwrites.refl f w h planes).congr fun i hi j hj => ?_)
  exact (draw_view hv.source (bytesOf planes) hi hj).symm

end FrameConvert
