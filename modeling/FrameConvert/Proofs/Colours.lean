/-
# Luma and chroma against colours

Towards colours (`planarToPixels_translates`, `packedToPixels_translates`) every pixel
is computed from its luma and the chroma over it.  A row of a planar frame may be begun
by something else; `Begins s b start` is all that is asked of it: some pixels from the
left are what they would have been anyway, and it says how many.  `unstarted` begins
nothing and so begins every row (`unstarted_begins`).

From colours (`pixelsToPlanar_translates`, `pixelsToPacked_translates`) every pixel gives
its luma, and the top left pixel of a block its chroma.

The transforms by tables are the formulas (`Table.rgb_eq_ok` and its like), for every
sample value, so neither direction has a sum that leaves its word.
-/

import FrameConvert.Proofs.Translates
import FrameConvert.Transfer.ToPixels
import FrameConvert.Transfer.FromPixels

namespace FrameConvert

variable {f g : Format} {w h : Nat} {p q : Plane}

theorem Plane.getD_toList (p : Plane) (i : Nat) : p.toList.getD i 0 = p.byte i := by
  rw [Plane.byte, Array.getD_eq_getD_getElem?, List.getD_eq_getElem?_getD, Array.getElem?_toList]

section ToPixels

variable {b : PixelLayout}

/-- The bytes of a pixel from its samples. -/
theorem yuvBytes_eq_ok (b : PixelLayout) (y u v : UInt8) :
    yuvBytes b y u v = .ok (b.bytesFor (.yuv y u v)) := by
  cases b with
  | gray =>
    rw [yuvBytes, Table.grayOfLuma_eq]
    rfl
  | colour k =>
    rw [yuvBytes, bind_eq_of_ok (Table.rgb_eq_ok y u v)]
    rfl

/-- Pixel `n` of a row, from the rows of samples. -/
def rowPixel (s : Subsampling) (y u v : Plane) (n : Nat) : Pixel :=
  .yuv (y.byte n) (u.byte (n / s.across)) (v.byte (n / s.across))

/-- What a start of a row is asked for: some pixels from the left. -/
def Begins (s : Subsampling) (b : PixelLayout) (start : RowStart) : Prop :=
  ∀ (y u v row : Plane) (w : Nat), s.across ∣ w → w < 0x100000000 → y.size = w →
    u.size = w / s.across → v.size = w / s.across → row.size = w * b.channels →
    Yields (start y u v row w) fun r => r.done ≤ w ∧
      row.Overwritten (r.done * b.channels) (Layout.draw (.pixels b) w (rowPixel s y u v) 0) r.row

/-- No pixel at all is a start. -/
theorem unstarted_begins (s : Subsampling) (b : PixelLayout) : Begins s b unstarted := by
  intro y u v row w _ _ _ _ _ _
  refine yields_pure ⟨Nat.zero_le w, ?_⟩
  rw [Nat.zero_mul]
  exact .zero row _

/-- **The rest of a row.** -/
theorem yields_finishRow {row r luma : Plane} {px : Nat → Pixel} {x : Nat}
    {chroma : Nat → Checked (UInt8 × UInt8)} (hx : x ≤ w) (hw : w < 0x100000000)
    (hl : luma.size = w) (hrow : row.size = w * b.channels)
    (hc : ∀ n < w, Yields (chroma n) fun c => px n = .yuv (luma.byte n) c.1 c.2)
    (hr : row.Overwritten (x * b.channels) (Layout.draw (.pixels b) w px 0) r) :
    Yields (finishRow b luma chroma w x r)
      (row.Overwritten (w * b.channels) (Layout.draw (.pixels b) w px 0)) := by
  have hb := Nat.mul_le_mul_left w b.channels_le
  have hend : x * b.channels + (w - x) * b.channels = w * b.channels := by
    rw [← Nat.add_mul, Nat.add_sub_cancel' hx]
  refine (hr.tiles (n := w - x) (k := b.channels) fun i r hi hr => ?_).mono
    fun t ht => ht.of_eq hend
  have hin := row_end (w := b.channels) (h := w) (y := x + i) (by omega)
  rw [Nat.mul_comm b.channels w, Nat.succ_mul] at hin
  rw [← Nat.add_mul] at hr ⊢
  refine yields_bind_ok (Plane.read_eq_ok (by omega)) ?_
  refine (hc (x + i) (by omega)).bind fun c hc => ?_
  refine yields_bind_ok (size_eq_ok (by omega)) ?_
  refine yields_bind_ok (yuvBytes_eq_ok b _ _ _) ?_
  exact hr.drawPixel (by omega) (by rw [hc])

/-- **A whole row**, begun by something and finished, and what comes after it. -/
theorem yields_begunRow {s : Subsampling} {start : RowStart} (hstart : Begins s b start)
    {yRow uRow vRow row : Plane} {px : Nat → Pixel} (hsw : s.across ∣ w) (hw : w < 0x100000000)
    (hy : yRow.size = w) (hu : uRow.size = w / s.across) (hv : vRow.size = w / s.across)
    (hrow : row.size = w * b.channels) (hpx : ∀ n < w, rowPixel s yRow uRow vRow n = px n)
    {next : Plane → Checked Plane} {Q : Plane → Prop}
    (hnext : ∀ t, row.Overwritten (w * b.channels) (Layout.draw (.pixels b) w px 0) t →
      Yields (next t) Q) :
    Yields (do
      let begun ← start yRow uRow vRow row w
      let t ← finishRow b yRow (fun x => do
        let u ← uRow.read (x / s.across)
        let v ← vRow.read (x / s.across)
        return (u, v)) w begun.done begun.row
      next t) Q := by
  refine (hstart yRow uRow vRow row w hsw hw hy hu hv hrow).bind fun begun hstarted => ?_
  obtain ⟨hdone, hbegun⟩ := hstarted
  refine (yields_finishRow hdone hw hy hrow (fun n hn => ?_)
    (hbegun.congr (draw_pixels_congr fun n hn => hpx n (by omega)))).bind hnext
  have hcx : n / s.across < w / s.across := Nat.div_lt_div_of_lt_of_dvd hsw hn
  refine yields_bind_ok (Plane.read_eq_ok (by omega)) ?_
  refine yields_bind_ok (Plane.read_eq_ok (by omega)) ?_
  exact yields_pure (hpx n hn).symm

/-- A row of a frame is drawn like a frame of its own. -/
theorem draw_row (b : PixelLayout) (w : Nat) (px : Nat → Pixel) (y j : Nat) :
    Layout.draw (.pixels b) w px 0 (y * (w * b.channels) + j) =
      Layout.draw (.pixels b) w (fun n => px (y * w + n)) 0 j := by
  have hj : y * (w * b.channels) + j = b.channels * (y * w) + j := by
    rw [← Nat.mul_assoc, Nat.mul_comm b.channels]
  simp only [Layout.draw, hj, Nat.mul_add_div b.channels_pos, Nat.mul_add_mod]

/-- The next row is drawn. -/
theorem Plane.Overwritten.drawRow {row r : Plane} {px : Nat → Pixel} {y : Nat}
    (hq : p.Overwritten (y * (w * b.channels)) (Layout.draw (.pixels b) w px 0) q)
    (hy : y * (w * b.channels) + w * b.channels ≤ p.size) (hrow : row.size = w * b.channels)
    (hr : row.Overwritten (w * b.channels)
      (Layout.draw (.pixels b) w (fun n => px (y * w + n)) 0) r) :
    Yields (q.writeAll (y * (w * b.channels)) r.toList)
      (p.Overwritten (y * (w * b.channels) + w * b.channels)
        (Layout.draw (.pixels b) w px 0)) := by
  have hl : r.toList.length = w * b.channels := by rw [Array.length_toList, hr.size, hrow]
  refine (hq.writeAll (by omega) fun i hi => ?_).mono fun t ht => ht.of_eq (by omega)
  rw [Plane.getD_toList, draw_row, hr.below (by omega)]

/-- A pixel of a row is a pixel of the frame. -/
theorem rowPixel_eq_view {s : Subsampling} {o : ChromaOrder} {yRow uRow vRow : Plane}
    {x : FrameBytes} {y n : Nat} (hw : s.across ∣ w) (hn : n < w)
    (hyb : yRow.byte n = x 0 (y * w + n))
    (hub : ∀ c < w / s.across, uRow.byte c = x o.u (y / s.down * (w / s.across) + c))
    (hvb : ∀ c < w / s.across, vRow.byte c = x o.v (y / s.down * (w / s.across) + c)) :
    rowPixel s yRow uRow vRow n = Layout.view (.planar (.chroma s o)) w x (y * w + n) := by
  have hcx : n / s.across < w / s.across := Nat.div_lt_div_of_lt_of_dvd hw hn
  rw [rowPixel, hyb, hub _ hcx, hvb _ hcx, Layout.view, s.cell_index y hn]

/-- **Planar frames into pixel frames**, whatever begins the rows. -/
theorem planarToPixels_translates {l : PlanarLayout} {start : RowStart}
    (ha : f.layout = .planar l) (hb : g.layout = .pixels b)
    (hstart : ∀ s o, l = .chroma s o → Begins s b start) :
    Translates (planarToPixels l b start) f g := by
  intro src dst w h hv
  have hfc := f.planeCount_pos
  have hf0 := Format.planeSize_zero_planar (w := w) (h := h) ha
  have hg0 := Format.planeSize_zero_pixels (w := w) (h := h) hb
  have hluma := hf0 ▸ hv.src.size 0 hfc
  have hsmall := hv.small
  have hwide := hv.wide
  have hw0 := hv.width_pos
  have hch := Nat.mul_le_mul_left (w * h) b.channels_le
  have hwch := Nat.mul_le_mul_left w b.channels_le
  have hpos := Nat.mul_pos hw0 b.channels_pos
  have hframe : w * h * b.channels = h * (w * b.channels) := by ring
  refine yields_bind_ok (planeOf_eq_ok (hv.src.getElem? hfc)) ?_
  refine yields_bind_ok (size_eq_ok (by omega)) ?_
  refine yields_bind_ok (chunk_eq_ok (by omega)) ?_
  refine yields_bind_ok (size_eq_ok (by omega)) ?_
  refine yields_single (Format.planeCount_pixels hb) hv.dst hg0 fun q hq =>
    Plane.yields_onFront hq fun s hs _ => ?_
  rw [ha, hb, hframe]
  rw [hframe] at hs
  refine Plane.Overwritten.tiles_zero fun y r hy hr => ?_
  have hyrow := row_end (w := w) hy
  have hqrow := row_end (w := w * b.channels) hy
  rw [Nat.mul_comm (w * b.channels) h] at hqrow
  have hqrow' : (y + 1) * (w * b.channels) = y * (w * b.channels) + w * b.channels :=
    Nat.succ_mul _ _
  have hrs := hr.size
  refine (Plane.yields_row (by omega) (by omega)).bind fun yRow hyRow => ?_
  obtain ⟨hys, hyb⟩ := hyRow
  refine (Plane.yields_row (by omega) (by omega)).bind fun row hrow => ?_
  obtain ⟨hrows, -⟩ := hrow
  have finish : ∀ t, row.Overwritten (w * b.channels) (Layout.draw (.pixels b) w
      (fun n => Layout.view (.planar l) w (bytesOf src) (y * w + n)) 0) t →
      Yields (size (y * (w * b.channels)) >>= fun o => r.writeAll o t.toList)
        (s.Overwritten (y * (w * b.channels) + w * b.channels)
          (Layout.translated (.planar l) (.pixels b) w (bytesOf src) 0)) := by
    intro t ht
    refine yields_bind_ok (size_eq_ok (by omega)) ?_
    exact hr.drawRow (by omega) hrows ht
  cases l with
  | luma =>
    refine (yields_finishRow (Nat.zero_le w) hwide hys hrows (fun n hn => yields_pure ?_)
      ((Plane.Overwritten.zero row _).of_eq (Nat.zero_mul _).symm)).bind finish
    rw [hyb n hn]
    rfl
  | chroma s o =>
    have hc := Format.planeCount_chroma ha
    have ho := o.u_v
    have hsw := hv.source.across_dvd ha
    have hsh := hv.source.down_dvd ha
    have hcy : y / s.down < h / s.down := Nat.div_lt_div_of_lt_of_dvd hsh hy
    have hcrow := row_end (w := w / s.across) hcy
    have hcle : w / s.across * (h / s.down) ≤ w * h :=
      Nat.mul_le_mul (Nat.div_le_self _ _) (Nat.div_le_self _ _)
    obtain ⟨hu, hus⟩ := hv.src.chroma ha (i := o.u) (by omega)
    obtain ⟨hv', hvs⟩ := hv.src.chroma ha (i := o.v) (by omega)
    refine yields_bind_ok (planeOf_eq_ok hu) ?_
    refine (Plane.yields_row (by omega) (by omega)).bind fun uRow huRow => ?_
    obtain ⟨hurs, hub⟩ := huRow
    refine yields_bind_ok (planeOf_eq_ok hv') ?_
    refine (Plane.yields_row (by omega) (by omega)).bind fun vRow hvRow => ?_
    obtain ⟨hvrs, hvb⟩ := hvRow
    refine yields_begunRow (hstart s o rfl) hsw hwide hys hurs hvrs hrows (fun n hn => ?_) finish
    exact rowPixel_eq_view hsw hn (hyb n hn) (fun c hc => hub c hc) fun c hc => hvb c hc

/-- **Packed frames into pixel frames**, pair by pair. -/
theorem packedToPixels_translates {o : MacroOrder} (ha : f.layout = .packed o)
    (hb : g.layout = .pixels b) : Translates (packedToPixels o b) f g := by
  intro src dst w h hv
  have hfc := Format.planeCount_packed ha
  have hf0 := Format.planeSize_zero_packed (w := w) (h := h) ha
  have hg0 := Format.planeSize_zero_pixels (w := w) (h := h) hb
  have hsrc := hv.src.size 0 (by omega)
  have hsmall := hv.small
  have hch := Nat.mul_le_mul_left (w * h) b.channels_le
  have hb0 := b.channels_pos
  obtain ⟨v, hv2⟩ := hv.source.even ha
  have hsize : w * 2 * h = 4 * (v * h) := by rw [hv2]; ring
  have hpixels : w * h = 2 * (v * h) := by rw [hv2]; ring
  have hframe : w * h * b.channels = v * h * (b.channels * 2) := by rw [hpixels]; ring
  obtain ⟨h₀, h₁, hu, hv'⟩ := o.position_lt
  refine yields_bind_ok (size_eq_ok (by omega)) ?_
  refine yields_bind_ok (planeOf_eq_ok (hv.src.getElem? (by omega))) ?_
  refine (Plane.yields_front (by omega)).bind fun p hp => ?_
  obtain ⟨hps, hpb⟩ := hp
  refine yields_bind_ok (chunk_eq_ok (by omega)) ?_
  refine yields_bind_ok (size_eq_ok (by omega)) ?_
  refine yields_toFront (p := p) hv hfc (Format.planeCount_pixels hb) hf0 hg0
    (fun j hj => hpb j (by omega)) fun s hs => ?_
  rw [ha, hb, show w * 2 * h / 4 = v * h by omega]
  rw [hframe] at hs ⊢
  refine Plane.Overwritten.tiles_zero fun i r hi hr => ?_
  have hend := row_end (w := b.channels * 2) hi
  rw [Nat.mul_comm (b.channels * 2), Nat.succ_mul] at hend
  refine yields_bind_ok (size_eq_ok (by omega)) ?_
  refine yields_bind_ok (size_eq_ok (by omega)) ?_
  refine yields_bind_ok (Plane.read_eq_ok (by omega)) ?_
  refine yields_bind_ok (size_eq_ok (by omega)) ?_
  refine yields_bind_ok (Plane.read_eq_ok (by omega)) ?_
  refine yields_bind_ok (size_eq_ok (by omega)) ?_
  refine yields_bind_ok (Plane.read_eq_ok (by omega)) ?_
  refine yields_bind_ok (size_eq_ok (by omega)) ?_
  refine yields_bind_ok (Plane.read_eq_ok (by omega)) ?_
  refine yields_bind_ok (yuvBytes_eq_ok b _ _ _) ?_
  refine yields_bind_ok (yuvBytes_eq_ok b _ _ _) ?_
  refine yields_bind_ok (size_eq_ok (by omega)) ?_
  have hfirst : i * (b.channels * 2) = 2 * i * b.channels := by ring
  have hsecond : 2 * i * b.channels + b.channels = (2 * i + 1) * b.channels := by ring
  rw [Plane.writeAll_append, b.length_bytesFor, hfirst]
  refine ((hr.of_eq hfirst).drawPixel (by omega) (by rw [view_packed_first])).bind fun t ht => ?_
  rw [hsecond]
  refine ((ht.of_eq hsecond).drawPixel (by omega) (by rw [view_packed_second])).mono fun z hz => ?_
  exact hz.of_eq (by omega)

end ToPixels

section FromPixels

variable {a : PixelLayout}

/-- The colour of a pixel of a plane. -/
theorem read_eq_colourIn {o : Nat} (ho : o + a.channels ≤ p.size)
    (hlt : p.size ≤ 0x10000000000000000) : a.read p o = .ok (a.colourIn p.byte o) := by
  rw [PixelLayout.read_eq_ok ho (by omega), a.colourAt_eq]

/-- **The luma of all pixels.** -/
theorem yields_pixelLuma {n : Nat} (hp : p.size = n * a.channels) (hq : n ≤ q.size)
    (hlt : n * a.channels < 0x10000000000000000) :
    Yields (pixelLuma a n p q) (q.Overwritten n fun j =>
      FixedPoint.lumaOf (a.colourIn p.byte (j * a.channels))) := by
  refine ((Plane.Overwritten.zero q _).points fun i r hi hr => ?_).mono
    fun r hr => hr.of_eq (Nat.zero_add n)
  have hend := row_end (w := a.channels) hi
  rw [Nat.mul_comm a.channels, Nat.succ_mul] at hend
  rw [Nat.zero_add] at hr ⊢
  refine yields_bind_ok (size_eq_ok (by omega)) ?_
  refine yields_bind_ok (read_eq_colourIn (by omega) (by omega)) ?_
  refine yields_bind_ok (Table.lumaOf_eq_ok _) ?_
  exact hr.write (by omega) rfl

/-- **The chroma of the top left pixels** of all blocks. -/
theorem yields_pixelChroma {t : Subsampling} {sample : Rgb → Checked UInt8} {of : Rgb → UInt8}
    (hof : ∀ c, sample c = .ok (of c)) (htw : t.across ∣ w) (hth : t.down ∣ h)
    (hp : p.size = w * h * a.channels) (hq : w / t.across * (h / t.down) ≤ q.size)
    (hlt : w * h * 4 < 0x10000000000000000) (hw : w < 0x100000000) :
    Yields (pixelChroma a t sample w h p q) (q.Overwritten (w / t.across * (h / t.down)) fun c =>
      of (a.colourIn p.byte (t.corner w c * a.channels))) := by
  have hch := Nat.mul_le_mul_left (w * h) a.channels_le
  have hwch := Nat.mul_le_mul_left w a.channels_le
  have hsize : w / t.across * (h / t.down) ≤ w * h :=
    Nat.mul_le_mul (Nat.div_le_self _ _) (Nat.div_le_self _ _)
  refine yields_bind_ok (chunk_eq_ok
    (Nat.mul_ne_zero (Nat.ne_of_gt a.channels_pos) (Nat.ne_of_gt t.across_pos))) ?_
  rw [Nat.mul_comm (w / t.across)]
  refine Plane.Overwritten.tiles_zero fun cy r hcy hr => ?_
  have hrs := hr.size
  have hrow := row_end (w := w / t.across) hcy
  have hcorner : cy * t.down * w * a.channels + w * a.channels ≤ w * h * a.channels := by
    have hy : cy * t.down < h := Subsampling.row_lt (j := 0) hth hcy t.down_pos
    have := Nat.mul_le_mul_right a.channels (row_end (w := w) hy)
    rwa [Nat.succ_mul, Nat.add_mul] at this
  refine yields_bind_ok (size_eq_ok (by omega)) ?_
  refine yields_bind_ok (size_eq_ok (by omega)) ?_
  refine (Plane.yields_slice (by omega)).bind fun row hread => ?_
  obtain ⟨hrows, hrowb⟩ := hread
  refine (Plane.yields_row (by omega) (by omega)).bind fun _ _ => ?_
  refine hr.points fun cx r hcx hr => ?_
  have hin := index_lt hcx hcy
  have hx : cx * t.across < w := Subsampling.column_lt (i := 0) htw hcx t.across_pos
  have hstep : cx * (a.channels * t.across) = cx * t.across * a.channels := by ring
  have hpixel : cx * t.across * a.channels + a.channels ≤ w * a.channels := by
    have := Nat.mul_le_mul_right a.channels (Nat.succ_le_of_lt hx)
    rwa [Nat.succ_mul] at this
  have hat : t.corner w (cy * (w / t.across) + cx) * a.channels =
      cy * t.down * w * a.channels + cx * t.across * a.channels := by
    rw [t.corner_index cy hcx, Nat.add_mul]
  have hcolour : a.colourIn row.byte (cx * t.across * a.channels) =
      a.colourIn p.byte (t.corner w (cy * (w / t.across) + cx) * a.channels) := by
    refine a.colourIn_congr fun k hk => ?_
    rw [hrowb _ (by omega), hat, Nat.add_assoc]
  rw [hstep]
  refine yields_bind_ok (size_eq_ok (by omega)) ?_
  refine yields_bind_ok (read_eq_colourIn (by omega) (by omega)) ?_
  refine yields_bind_ok (size_eq_ok (by omega)) ?_
  refine yields_bind_ok (hof _) ?_
  exact hr.write (by omega) (by rw [hcolour])

/-- What the top left pixel of a block gives is its chroma. -/
theorem chromaOf_pixels (t : Subsampling) (w : Nat) (channel : Pixel → UInt8) (x : FrameBytes)
    (c : Nat) : chromaOf t w channel (Layout.view (.pixels a) w x) c =
      channel (.rgb (a.colourIn (x 0) (t.corner w c * a.channels))
        (a.alphaIn (x 0) (t.corner w c * a.channels))) := by
  simp only [chromaOf, Layout.view, Pixel.isRgb, if_true]

/-- **Pixel frames into planar frames.** -/
theorem pixelsToPlanar_translates {l : PlanarLayout} (ha : f.layout = .pixels a)
    (hb : g.layout = .planar l) : Translates (pixelsToPlanar a l) f g := by
  intro src dst w h hv
  have hfc := Format.planeCount_pixels ha
  have hf0 := Format.planeSize_zero_pixels (w := w) (h := h) ha
  have hg0 := Format.planeSize_zero_planar (w := w) (h := h) hb
  have hsrc := hv.src.size 0 (by omega)
  have hsmall := hv.small
  have hwide := hv.wide
  have hch := Nat.mul_le_mul_left (w * h) a.channels_le
  have ha0 := a.channels_pos
  refine yields_bind_ok (size_eq_ok (by omega)) ?_
  refine yields_bind_ok (planeOf_eq_ok (hv.src.getElem? (by omega))) ?_
  refine yields_bind_ok (chunk_eq_ok (by omega)) ?_
  refine yields_bind_ok (size_eq_ok (by omega)) ?_
  refine (Plane.yields_front (by omega)).bind fun p hp => ?_
  obtain ⟨hps, hpb⟩ := hp
  refine Yields.mono ?_ fun out ho => Overwrites.of_front hv hfc (p := p)
    (fun j hj => hpb j (by omega)) ho
  have luma : Yields (onPlane dst 0 (onFront (w * h) (pixelLuma a (w * h) p)))
      (Drawn g w h (Layout.translated f.layout g.layout w fun _ => p.byte) 0 dst) := by
    refine yields_plane hv.dst g.planeCount_pos hg0 (fun j _ => ?_) fun r hr =>
      Plane.yields_onFront hr fun s hs _ => yields_pixelLuma hps (by omega) (by omega)
    rw [ha, hb]
    cases l <;> simp only [Layout.translated, Layout.draw, Layout.view, Pixel.luma, if_true]
  refine luma.bind fun d₀ h₀ => ?_
  cases l with
  | luma =>
    exact yields_pure (.of_single (Format.planeCount_luma hb) hv.dst h₀.replaces)
  | chroma t k =>
    have hc := Format.planeCount_chroma hb
    have hk := k.u_v
    have chroma : ∀ (i : Nat) {sample : Rgb → Checked UInt8} {of : Rgb → UInt8}
        {channel : Pixel → UInt8}, i = 1 ∨ i = 2 → (∀ c, sample c = .ok (of c)) →
        (∀ c z, channel (.rgb c z) = of c) → (if i = k.u then Pixel.u else Pixel.v) = channel →
        ∀ d, Holds g w h d → Yields (onPlane d i (pixelChroma a t sample w h p))
          (Drawn g w h (Layout.translated f.layout g.layout w fun _ => p.byte) i d) := by
      intro i sample of channel hi hof hchannel hat d hd
      refine yields_plane hd (by omega) (Format.planeSize_chroma hb hi) (fun c _ => ?_) fun r hr =>
        yields_pixelChroma hof (hv.target.across_dvd hb) (hv.target.down_dvd hb) hps hr hsmall hwide
      rw [ha, hb]
      simp only [Layout.translated, Layout.draw, if_neg (show i ≠ 0 by omega), hat,
        chromaOf_pixels, hchannel]
    exact h₀.thenChroma hc hv.dst hk
      (chroma k.u (by omega) Table.uOf_eq_ok (fun _ _ => rfl) (if_pos rfl))
      (chroma k.v (by omega) Table.vOf_eq_ok (fun _ _ => rfl) (if_neg (by omega)))

/-- **Pixel frames into packed frames**, pair by pair. -/
theorem pixelsToPacked_translates {o : MacroOrder} (ha : f.layout = .pixels a)
    (hb : g.layout = .packed o) : Translates (pixelsToPacked a o) f g := by
  intro src dst w h hv
  have hfc := Format.planeCount_pixels ha
  have hf0 := Format.planeSize_zero_pixels (w := w) (h := h) ha
  have hg0 := Format.planeSize_zero_packed (w := w) (h := h) hb
  have hsrc := hv.src.size 0 (by omega)
  have hsmall := hv.small
  have hch := Nat.mul_le_mul_left (w * h) a.channels_le
  have ha0 := a.channels_pos
  have heven := hv.target.even hb
  obtain ⟨v, hv2⟩ := hv.target.even hb
  have hsize : w * 2 * h = 4 * (v * h) := by rw [hv2]; ring
  have hpixels : w * h = 2 * (v * h) := by rw [hv2]; ring
  have hframe : w * h * a.channels = v * h * (a.channels * 2) := by rw [hpixels]; ring
  refine yields_bind_ok (size_eq_ok (by omega)) ?_
  refine yields_bind_ok (planeOf_eq_ok (hv.src.getElem? (by omega))) ?_
  refine yields_bind_ok (size_eq_ok (by omega)) ?_
  refine (Plane.yields_front (by omega)).bind fun p hp => ?_
  obtain ⟨hps, hpb⟩ := hp
  refine yields_bind_ok (chunk_eq_ok (by omega)) ?_
  refine yields_toFront (p := p) hv hfc (Format.planeCount_packed hb) hf0
    (hg0.trans (by omega)) hpb fun s hs => ?_
  rw [ha, hb, show w * 2 * h / 4 = v * h by omega, hsize, Nat.mul_comm 4]
  refine Plane.Overwritten.tiles_zero fun i r hi hr => ?_
  have hend := row_end (w := a.channels * 2) hi
  rw [Nat.mul_comm (a.channels * 2), Nat.succ_mul] at hend
  have hat₀ : i * (a.channels * 2) = 2 * i * a.channels := by ring
  have hat₁ : i * (a.channels * 2) + a.channels = (2 * i + 1) * a.channels := by ring
  have hcorner : Subsampling.corner .s422 w i = 2 * i := by
    have := Subsampling.under_s422 heven i 0
    simpa [Subsampling.under] using this
  rw [Nat.mul_comm i 4] at hr ⊢
  refine yields_bind_ok (size_eq_ok (by omega)) ?_
  refine yields_bind_ok (read_eq_colourIn (by omega) (by omega)) ?_
  refine yields_bind_ok (size_eq_ok (by omega)) ?_
  refine yields_bind_ok (read_eq_colourIn (by omega) (by omega)) ?_
  refine yields_bind_ok (Table.lumaOf_eq_ok _) ?_
  refine yields_bind_ok (Table.lumaOf_eq_ok _) ?_
  refine yields_bind_ok (Table.uOf_eq_ok _) ?_
  refine yields_bind_ok (Table.vOf_eq_ok _) ?_
  refine yields_bind_ok (size_eq_ok (by omega)) ?_
  refine hr.drawMacro (by omega) ?_
  rw [Layout.macroOf, chromaOf_pixels, chromaOf_pixels, hcorner, hat₁, hat₀]
  simp only [Layout.view, Pixel.luma, Pixel.u, Pixel.v]

end FromPixels

end FrameConvert
