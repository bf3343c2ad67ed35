/-
# Planar frames and packed frames

Both directions compute a mean with fewer samples than there are pixels under the
target sample.  Where the source has one sample for several of these pixels, the mean
over the pixels is the mean over the samples:

| target | source | mean |
| --- | --- | --- |
| macro pixel | 4:4:4 | of two neighbouring samples (`mean_pair`) |
| macro pixel | 4:2:2, 4:2:0 | one sample (`mean_const`) |
| grid sample | macro pixels | of one macro pixel for each row (`mean_rows`) |

`planarToPacked_translates` and `packedToPlanar_translates` are the two results; 4:1:1
takes part in neither.
-/

import FrameConvert.Proofs.Translates
import FrameConvert.Transfer.Interleave

namespace FrameConvert

open Finset

namespace Subsampling

/-- The mean over a pair of pixels. -/
theorem mean_pair (g : Nat → Nat → UInt8) : s422.mean g = mean₂ (g 0 0) (g 1 0) := by
  simp [mean, across, down, mean₂, sum_range_succ]

/-- The mean over a block whose rows are constant. -/
theorem mean_rows (t : Subsampling) (g : Nat → UInt8) :
    (t.mean fun _ j => g j) = UInt8.ofNat ((∑ j ∈ range t.down, (g j).toNat) / t.down) := by
  have hrow : ∀ j ∈ range t.down, ∑ _i ∈ range t.across, (g j).toNat = t.across * (g j).toNat :=
    fun _ _ => by rw [sum_const_nat fun _ _ => rfl, card_range]
  rw [mean, sum_congr rfl hrow, ← mul_sum, Nat.mul_div_mul_left _ _ t.across_pos]

end Subsampling

variable {a b : Format} {o : MacroOrder}

section Pack

variable {s : Subsampling} {v h x y : Nat} {p : Plane}

/-- **The chroma of a macro pixel** is the mean of what its two pixels have over them. -/
theorem yields_macroChroma (hs : s ≠ .s411) (hsh : s.down ∣ h) (hx : x < v) (hy : y < h)
    (hp : 2 * v / s.across * (h / s.down) ≤ p.size) (hlt : 2 * v * h < 0x10000000000000000) :
    Yields (macroChroma s p (2 * v) x y) fun c => c = Subsampling.s422.mean fun i j =>
      p.byte (s.cell (2 * v) (Subsampling.s422.under (2 * v) (y * v + x) i j)) := by
  have hv2 : 2 * v / 2 = v := by omega
  have hcell : ∀ i < 2, s.cell (2 * v) (Subsampling.s422.under (2 * v) (y * v + x) i 0) =
      y / s.down * (2 * v / s.across) + (2 * x + i) / s.across := fun i hi => by
    have hunder : 2 * (y * v + x) + i = y * (2 * v) + (2 * x + i) := by ring
    rw [Subsampling.under_s422 (Nat.dvd_mul_right 2 v), hunder,
      s.cell_index y (by omega : 2 * x + i < 2 * v)]
  have hrow : y / s.down < h / s.down := Nat.div_lt_div_of_lt_of_dvd hsh hy
  have hsize : 2 * v / s.across * (h / s.down) ≤ 2 * v * h :=
    Nat.mul_le_mul (Nat.div_le_self _ _) (Nat.div_le_self _ _)
  have hlt' : ∀ k < 2 * v / s.across, y / s.down * (2 * v / s.across) + k <
      2 * v / s.across * (h / s.down) := fun k hk => index_lt hk hrow
  rw [Subsampling.mean_pair, hcell 0 (by decide), hcell 1 (by decide)]
  by_cases h1 : s.across = 1
  · have h2v : 2 * v / s.across = 2 * v := by rw [h1, Nat.div_one]
    have hx₀ := hlt' (2 * x) (by omega)
    have hx₁ := hlt' (2 * x + 1) (by omega)
    refine yields_bind_ok (size_eq_ok (by omega)) ?_
    rw [if_pos h1]
    refine yields_bind_ok (size_eq_ok (by omega)) ?_
    refine yields_bind_ok (Plane.read_eq_ok (by omega)) ?_
    refine yields_bind_ok (size_eq_ok (by omega)) ?_
    refine yields_bind_ok (Plane.read_eq_ok (by omega)) ?_
    refine yields_pure ?_
    simp only [h1, Nat.div_one, Nat.add_zero, Nat.add_assoc]
  · have h2 : s.across = 2 := by
      cases s <;> first | rfl | exact absurd rfl h1 | exact absurd rfl hs
    have hx₀ := hlt' x (by rw [h2]; omega)
    have hxx : 2 * x / s.across = x := by rw [h2]; omega
    have hxx₀ : (2 * x + 0) / s.across = x := by rw [h2]; omega
    have hxx₁ : (2 * x + 1) / s.across = x := by rw [h2]; omega
    refine yields_bind_ok (size_eq_ok (by omega)) ?_
    rw [if_neg h1, hxx, hxx₀, hxx₁]
    refine yields_bind_ok (size_eq_ok (by omega)) ?_
    refine yields_of_eq_ok (Plane.read_eq_ok (by omega)) ?_
    have hmean : ∀ c : UInt8, mean₂ c c = c := fun c => by
      rw [mean₂, show (c.toNat + c.toNat) / 2 = c.toNat by omega, UInt8.ofNat_toNat]
    exact (hmean _).symm

/-- **Planar frames into packed frames.** -/
theorem planarToPacked_translates {q : PlanarLayout} (ha : a.layout = .planar q)
    (hb : b.layout = .packed o) (hq : ∀ k, q ≠ .chroma .s411 k) :
    Translates (planarToPacked q o) a b := by
  intro src dst w h hv
  have hb0 := Format.planeSize_zero_packed (w := w) (h := h) hb
  have ha0 := Format.planeSize_zero_planar (w := w) (h := h) ha
  have hac := a.planeCount_pos
  have hluma := ha0 ▸ hv.src.size 0 hac
  have hsmall := hv.small
  have hw := hv.wide
  have hw0 := hv.width_pos
  obtain ⟨v, rfl⟩ := hv.target.even hb
  have hv2 : 2 * v / 2 = v := by omega
  have h2v : ∀ k, 2 * v * k = 2 * (v * k) := Nat.mul_assoc 2 v
  refine yields_bind_ok (planeOf_eq_ok (hv.src.getElem? hac)) ?_
  refine yields_bind_ok (size_eq_ok (by omega)) ?_
  refine yields_bind_ok (chunk_eq_ok (by omega)) ?_
  refine yields_single (Format.planeCount_packed hb) hv.dst hb0 fun q' hq' => ?_
  have hframe : 2 * v * h * 2 = h * (2 * v * 2) := by ring
  rw [ha, hb, hframe]
  refine Plane.Overwritten.tiles_zero fun y r hy hr => ?_
  have hrow := row_end (w := 2 * v) hy
  refine (Plane.yields_row (by omega) (by omega)).bind fun yRow hyRow => ?_
  obtain ⟨hys, hyb⟩ := hyRow
  rw [hv2]
  refine (hr.tiles (n := v) (k := 4) fun x r hx hr => ?_).mono fun r hr => hr.of_eq (by omega)
  have hm : y * (2 * v * 2) + x * 4 = 4 * (y * v + x) := by ring
  have hm' : y * (2 * v * 2) + 4 * x = 4 * (y * v + x) := by ring
  have hn : 2 * (y * v + x) = y * (2 * v) + 2 * x := by ring
  have hin : 4 * (y * v + x) + 4 ≤ h * (2 * v * 2) := by
    have := index_lt hx hy
    have : h * (2 * v * 2) = 4 * (v * h) := by ring
    omega
  rw [hm] at hr ⊢
  refine yields_bind_ok (Plane.read_eq_ok (by omega)) ?_
  refine yields_bind_ok (Plane.read_eq_ok (by omega)) ?_
  rw [hyb _ (by omega), hyb _ (by omega), hm']
  have draw : ∀ word, word = Layout.macroOf o (2 * v)
      (Layout.view (.planar q) (2 * v) (bytesOf src)) (y * v + x) →
      Yields (size (4 * (y * v + x)) >>= fun i => r.writeAll i word)
        (q'.Overwritten (4 * (y * v + x) + 4)
          (Layout.translated (.planar q) (.packed o) (2 * v) (bytesOf src) 0)) := by
    intro word hword
    refine yields_bind_ok (size_eq_ok (by omega)) ?_
    exact hr.drawMacro (by omega) hword
  cases q with
  | luma =>
    refine draw _ ?_
    rw [Layout.macroOf, chromaOf_block (b := neutral) rfl fun _ _ _ _ => rfl,
      chromaOf_block (b := neutral) rfl fun _ _ _ _ => rfl, hn]
    rfl
  | chroma s k =>
    have hs : s ≠ .s411 := fun h => hq k (h ▸ rfl)
    have hk := k.u_v
    obtain ⟨hu, hus⟩ := hv.src.chroma ha (i := k.u) (by omega)
    obtain ⟨hv', hvs⟩ := hv.src.chroma ha (i := k.v) (by omega)
    have hdown := hv.source.down_dvd ha
    refine yields_bind_ok (planeOf_eq_ok hu) ?_
    refine (yields_macroChroma hs hdown hx hy hus (by omega)).bind fun cu hcu => ?_
    refine yields_bind_ok (planeOf_eq_ok hv') ?_
    refine (yields_macroChroma hs hdown hx hy hvs (by omega)).bind fun cv hcv => ?_
    refine draw _ ?_
    rw [hcu, hcv, Layout.macroOf, hn]
    rfl

end Pack

section Unpack

variable {v h : Nat} {p q : Plane}

/-- **The luma of a packed frame**, two samples from every macro pixel. -/
theorem yields_unpackLuma (hv : 0 < v) (hw : 2 * v < 0x100000000)
    (hlt : 2 * v * h * 4 < 0x10000000000000000) (hp : 2 * v * 2 * h ≤ p.size)
    (hq : 2 * v * h ≤ q.size) :
    Yields (unpackLuma o (2 * v) h p q) (q.Overwritten (2 * v * h) fun n =>
      p.byte (4 * (n / 2) + if n % 2 = 0 then o.y₀ else o.y₁)) := by
  have hv2 : 2 * v / 2 = v := by omega
  have hframe : 2 * v * 2 * h = 4 * (v * h) := by ring
  have hpixels : 2 * v * h = 2 * (v * h) := Nat.mul_assoc 2 v h
  obtain ⟨h₀, h₁, -, -⟩ := o.position_lt
  refine yields_bind_ok (chunk_eq_ok (by omega)) ?_
  refine yields_bind_ok (size_eq_ok (by omega)) ?_
  refine yields_bind_ok (chunk_eq_ok (by omega)) ?_
  rw [Nat.mul_comm (2 * v) h, hv2]
  refine Plane.Overwritten.tiles_zero fun y r hy hr => ?_
  have hrow := row_end (w := 2 * v * 2) hy
  refine (Plane.yields_row (by omega) (by omega)).bind fun row hread => ?_
  obtain ⟨hrs, hrb⟩ := hread
  refine (hr.tiles (n := v) (k := 2) fun x r hx hr => ?_).mono fun r hr => hr.of_eq (by omega)
  have hm : y * (2 * v) + x * 2 = 2 * (y * v + x) := by ring
  have hm' : y * (2 * v) + 2 * x = 2 * (y * v + x) := by ring
  have hbyte : ∀ k < 4, row.byte (4 * x + k) = p.byte (4 * (y * v + x) + k) := fun k hk => by
    rw [hrb _ (by omega), show y * (2 * v * 2) + (4 * x + k) = 4 * (y * v + x) + k by ring]
  have hin := index_lt hx hy
  rw [hm] at hr ⊢
  refine yields_bind_ok (Plane.read_eq_ok (by omega)) ?_
  refine yields_bind_ok (Plane.read_eq_ok (by omega)) ?_
  rw [hbyte _ h₀, hbyte _ h₁, hm']
  refine yields_bind_ok (size_eq_ok (by omega)) ?_
  refine hr.writeAll (by simp only [List.length_cons, List.length_nil]; omega) fun i hi => ?_
  simp only [List.length_cons, List.length_nil] at hi
  obtain rfl | rfl : i = 0 ∨ i = 1 := by omega
  · rw [List.getD_cons_zero, if_pos (by omega), show (2 * (y * v + x) + 0) / 2 = y * v + x by omega]
  · rw [List.getD_cons_succ, List.getD_cons_zero, if_neg (by omega),
      show (2 * (y * v + x) + 1) / 2 = y * v + x by omega]

/-- The macro pixel that holds the pixels of a column of blocks. -/
theorem column_pair {t : Subsampling} {cx : Nat} (ht : t ≠ .s411) (hcx : cx < 2 * v / t.across) :
    (if t.across = 1 then cx / 2 else cx) < v ∧
      ∀ i < t.across, (cx * t.across + i) / 2 = if t.across = 1 then cx / 2 else cx := by
  have hacross : t.across = 1 ∨ t.across = 2 := by
    cases t <;> first | exact .inl rfl | exact .inr rfl | exact absurd rfl ht
  rcases hacross with h1 | h2
  · rw [h1, Nat.div_one] at hcx
    rw [h1, if_pos rfl]
    exact ⟨by omega, fun i hi => by omega⟩
  · rw [h2] at hcx
    rw [h2, if_neg (by decide)]
    exact ⟨by omega, fun i hi => by omega⟩

/-- The sum of one sample for each row of a block. -/
theorem yields_rowSum {n : Nat} {g : Nat → Nat} (hn : n ≤ 2)
    (hin : ∀ j < n, g j < p.size ∧ g j < 0x10000000000000000) :
    Yields (sweep n (fun j s => do
      let b ← p.read (← size (g j))
      total (s + b.toNat)) 0) fun s => s = ∑ j ∈ range n, (p.byte (g j)).toNat := by
  refine yields_sweep (fun m s => s = ∑ j ∈ range m, (p.byte (g j)).toNat) rfl
    fun m s hm hs => ?_
  obtain ⟨hj, hlt⟩ := hin m hm
  have hsum := sum_samples_le (fun j => p.byte (g j)) m
  have hbyte := (p.byte (g m)).toNat_lt
  refine yields_bind_ok (size_eq_ok hlt) ?_
  refine yields_bind_ok (Plane.read_eq_ok hj) ?_
  refine yields_of_eq_ok (total_eq_ok (by omega)) ?_
  rw [sum_range_succ, hs]

/-- **A chroma plane of a packed frame** on a grid. -/
theorem yields_unpackChroma {t : Subsampling} {k : Nat} (ht : t ≠ .s411) (hth : t.down ∣ h)
    (hk : k < 4) (hlt : 2 * v * h * 4 < 0x10000000000000000) (hp : 2 * v * 2 * h ≤ p.size)
    (hq : 2 * v / t.across * (h / t.down) ≤ q.size) :
    Yields (unpackChroma k t (2 * v) h p q) (q.Overwritten (2 * v / t.across * (h / t.down))
      fun c => t.mean fun i j => p.byte (4 * (t.under (2 * v) c i j / 2) + k)) := by
  have hframe : 2 * v * 2 * h = 4 * (v * h) := by ring
  have hpixels : 2 * v * h = 2 * (v * h) := Nat.mul_assoc 2 v h
  have hsize : 2 * v / t.across * (h / t.down) ≤ 2 * v * h :=
    Nat.mul_le_mul (Nat.div_le_self _ _) (Nat.div_le_self _ _)
  have htd : 0 < t.down ∧ t.down ≤ 2 := by cases t <;> decide
  rw [Nat.mul_comm (2 * v / t.across)]
  refine Plane.Overwritten.tiles_zero fun cy r hcy hr => ?_
  have hrow := row_end (w := 2 * v / t.across) hcy
  have hrs := hr.size
  refine (Plane.yields_row (by omega) (by omega)).bind fun _ _ => ?_
  refine hr.points fun cx r hcx hr => ?_
  have hin := index_lt hcx hcy
  have hpair := column_pair ht hcx
  generalize (if t.across = 1 then cx / 2 else cx) = pair at hpair ⊢
  -- the macro pixel that the pixels of row `j` of the block lie in
  have hunder : ∀ i < t.across, ∀ j < t.down,
      t.under (2 * v) (cy * (2 * v / t.across) + cx) i j / 2 =
        (cy * t.down + j) * v + pair := fun i hi j hj => by
    rw [t.under_index cy i j hcx, ← hpair.2 i hi,
      show (cy * t.down + j) * (2 * v) = 2 * ((cy * t.down + j) * v) by ring,
      Nat.mul_add_div (by decide)]
  have hat : ∀ j, (cy * t.down + j) * (2 * v) * 2 + pair * 4 + k =
      4 * ((cy * t.down + j) * v + pair) + k := fun j => by ring
  simp only [hat]
  refine (yields_rowSum (g := fun j => 4 * ((cy * t.down + j) * v + pair) + k) htd.2
    fun j hj => ?_).bind fun s hs => ?_
  · have hlast := index_lt hpair.1 (Subsampling.row_lt hth hcy hj)
    omega
  refine yields_bind_ok (quotient_eq_ok (by omega)) ?_
  refine yields_bind_ok (size_eq_ok (by omega)) ?_
  refine hr.write (by omega) ?_
  rw [hs, ← t.mean_rows fun j => p.byte (4 * ((cy * t.down + j) * v + pair) + k)]
  refine Subsampling.mean_congr fun i hi j hj => ?_
  rw [hunder i hi j hj]

/-- What a planar target draws of a packed source. -/
theorem draw_chroma_of_packed (o : MacroOrder) (t : Subsampling) (k : ChromaOrder) (w : Nat)
    (x : FrameBytes) {i : Nat} (hi : i = 1 ∨ i = 2) (c : Nat) :
    Layout.translated (.packed o) (.planar (.chroma t k)) w x i c =
      t.mean fun m n => x 0 (4 * (t.under w c m n / 2) + if i = k.u then o.u else o.v) := by
  have h0 : i ≠ 0 := by omega
  simp only [Layout.translated, Layout.draw, if_neg h0, chromaOf, Layout.view, Pixel.isRgb]
  by_cases hu : i = k.u
  · simp only [if_pos hu, Pixel.u, Bool.false_eq_true, if_false]
  · simp only [if_neg hu, Pixel.v, Bool.false_eq_true, if_false]

end Unpack

/-- **Packed frames into planar frames.** -/
theorem packedToPlanar_translates {q : PlanarLayout} (ha : a.layout = .packed o)
    (hb : b.layout = .planar q) (hq : ∀ k, q ≠ .chroma .s411 k) :
    Translates (packedToPlanar o q) a b := by
  intro src dst w h hv
  have hac := Format.planeCount_packed ha
  have ha0 := Format.planeSize_zero_packed (w := w) (h := h) ha
  have hb0 := Format.planeSize_zero_planar (w := w) (h := h) hb
  have hsrc := hv.src.size 0 (by omega)
  have hsmall := hv.small
  have hwide := hv.wide
  have hw0 := hv.width_pos
  obtain ⟨v, rfl⟩ := hv.source.even ha
  have hframe : 2 * v * 2 * h = 2 * v * h * 2 := by ring
  refine yields_bind_ok (planeOf_eq_ok (hv.src.getElem? (by omega))) ?_
  refine yields_bind_ok (size_eq_ok (by omega)) ?_
  refine (Plane.yields_front (by omega)).bind fun p hp => ?_
  obtain ⟨hps, hpb⟩ := hp
  refine Yields.mono ?_ fun out ho => Overwrites.of_front hv hac (p := p)
    (fun j hj => hpb j (by omega)) ho
  have luma : Yields (onPlane dst 0 (unpackLuma o (2 * v) h p))
      (Drawn b (2 * v) h (Layout.translated a.layout b.layout (2 * v) fun _ => p.byte) 0 dst) := by
    refine yields_plane hv.dst b.planeCount_pos hb0 (fun n _ => ?_) fun r hr =>
      yields_unpackLuma (by omega) hwide hsmall (by omega) hr
    rw [ha, hb]
    cases q <;> rfl
  refine luma.bind fun d₀ h₀ => ?_
  cases q with
  | luma =>
    exact yields_pure (.of_single (Format.planeCount_luma hb) hv.dst h₀.replaces)
  | chroma t k =>
    have hc := Format.planeCount_chroma hb
    have ht : t ≠ .s411 := fun h => hq k (h ▸ rfl)
    have hk := k.u_v
    obtain ⟨-, -, hu, hv'⟩ := o.position_lt
    have chroma : ∀ i pos, i = 1 ∨ i = 2 → pos < 4 → pos = (if i = k.u then o.u else o.v) →
        ∀ d, Holds b (2 * v) h d → Yields (onPlane d i (unpackChroma pos t (2 * v) h p))
          (Drawn b (2 * v) h (Layout.translated a.layout b.layout (2 * v) fun _ => p.byte) i
            d) := by
      intro i pos hi hpos hat d hd
      refine yields_plane hd (by omega) (Format.planeSize_chroma hb hi) (fun c _ => ?_) fun r hr =>
        yields_unpackChroma ht (hv.target.down_dvd hb) hpos hsmall (by omega) hr
      rw [ha, hb, hat, draw_chroma_of_packed o t k _ _ hi]
    exact h₀.thenChroma hc hv.dst hk (chroma k.u o.u (by omega) hu (if_pos rfl).symm)
      (chroma k.v o.v (by omega) hv' (if_neg (by omega)).symm)

end FrameConvert
