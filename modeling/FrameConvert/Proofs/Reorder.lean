/-
# Reordering macro pixels and pixels

Between packed frames, and between pixel frames, unit `i` of the target is unit `i` of
the source in another order.  A unit read from a plane `p` is that of the bytes `x` as
soon as `p` agrees with `x` over the unit (`macroBytes_eq_ok`, `pixelBytes_eq_ok`); the
plane need not agree anywhere else.  So one lemma serves a transfer, where `p` is the
source, and a rework, where `p` is the target with some units done already: those lie
below the unit that is read, which is still the old one (`Overwritten.above`).

A scratch frame in between changes nothing, because what a packed frame draws it shows
(`view_draw_packed`).
-/

import FrameConvert.Proofs.Translates
import FrameConvert.Transfer.Packed
import FrameConvert.Transfer.Pixels

namespace FrameConvert

variable {f g : Format} {w h : Nat} {p q : Plane} {x : Nat → UInt8}

section Macro

variable {a b : MacroOrder}

/-- What macro pixel `m` of the bytes `x` is in another order. -/
theorem macroBytes_eq_ok (hw : 2 ∣ w) {m : Nat} (hm : 4 * m + 4 ≤ p.size)
    (hlt : p.size ≤ 0x10000000000000000) (hx : ∀ k < 4, p.byte (4 * m + k) = x (4 * m + k)) :
    macroBytes a b (4 * m) p =
      .ok (Layout.macroOf b w (Layout.view (.packed a) w fun _ => x) m) := by
  obtain ⟨h₀, h₁, hu, hv⟩ := a.position_lt
  rw [macroBytes, bind_eq_of_ok (size_eq_ok (by omega)),
    bind_eq_of_ok (Plane.read_eq_ok (by omega)), bind_eq_of_ok (size_eq_ok (by omega)),
    bind_eq_of_ok (Plane.read_eq_ok (by omega)), bind_eq_of_ok (size_eq_ok (by omega)),
    bind_eq_of_ok (Plane.read_eq_ok (by omega)), bind_eq_of_ok (size_eq_ok (by omega)),
    bind_eq_of_ok (Plane.read_eq_ok (by omega)), macroOf_packed hw, hx _ h₀, hx _ h₁, hx _ hu,
    hx _ hv]
  rfl

/-- **A plane of macro pixels reordered** into another of its size. -/
theorem yields_reorder (hw : 2 ∣ w) {n : Nat} (hp : p.size = 4 * n) (hq : q.size = 4 * n)
    (hlt : 4 * n < 0x10000000000000000) :
    Yields (reorder a b p q) (q.Overwritten (4 * n)
      (Layout.translated (.packed a) (.packed b) w (fun _ => p.byte) 0)) := by
  have hn : min p.size q.size / 4 = n := by omega
  rw [reorder, hn, Nat.mul_comm]
  refine Plane.Overwritten.tiles_zero fun i r hi hr => ?_
  rw [Nat.mul_comm i 4] at hr ⊢
  refine yields_bind_ok (size_eq_ok (by omega)) ?_
  refine yields_bind_ok (macroBytes_eq_ok hw (by omega) (by omega) fun _ _ => rfl) ?_
  exact hr.drawMacro (by omega) rfl

/-- **A plane of macro pixels reordered where it stands.** -/
theorem yields_reorder_inPlace (hw : 2 ∣ w) {n : Nat} (hp : p.size = 4 * n)
    (hlt : 4 * n < 0x10000000000000000) :
    Yields (sweep (p.size / 4) (fun i p => do
        let o ← size (4 * i)
        p.writeAll o (← macroBytes a b o p)) p)
      (p.Overwritten (4 * n)
        (Layout.translated (.packed a) (.packed b) w (fun _ => p.byte) 0)) := by
  have hn : p.size / 4 = n := by omega
  rw [hn, Nat.mul_comm 4 n]
  refine Plane.Overwritten.tiles_zero fun i r hi hr => ?_
  have hrs := hr.size
  rw [Nat.mul_comm i 4] at hr ⊢
  refine yields_bind_ok (size_eq_ok (by omega)) ?_
  refine yields_bind_ok
    (macroBytes_eq_ok hw (by omega) (by omega) fun k _ => hr.above (by omega)) ?_
  exact hr.drawMacro (by omega) rfl

/-- The geometry of packed frames is the same in every order. -/
theorem Fit.packed (hf : Fit f w h) (ha : f.layout = .packed a) (hb : g.layout = .packed b) :
    Fit g w h := by
  have : g.chromaBlock = f.chromaBlock := by
    simp only [Format.chromaBlock_eq_layout, Layout.block, ha, hb]
  rwa [Fit, this]

/-- **Packed frames into packed frames**, directly or through a scratch frame. -/
theorem packedToPacked_translates (ha : f.layout = .packed a) (hb : g.layout = .packed b) :
    Translates (packedToPacked a b) f g := by
  intro src dst w h hv
  have hfc := Format.planeCount_packed ha
  have hf0 := Format.planeSize_zero_packed (w := w) (h := h) ha
  have hg0 := Format.planeSize_zero_packed (w := w) (h := h) hb
  have hsrc := hv.src.size 0 (by omega)
  have hsmall := hv.small
  obtain ⟨v, hv2⟩ := hv.source.even ha
  have hframe : w * h * 2 = 4 * (v * h) := by rw [hv2]; ring
  have hsize : w * 2 * h = 4 * (v * h) := by rw [hv2]; ring
  have heven : 2 ∣ w := ⟨v, hv2⟩
  refine yields_bind_ok (size_eq_ok (by omega)) ?_
  refine yields_bind_ok (planeOf_eq_ok (hv.src.getElem? (by omega))) ?_
  refine (Plane.yields_front (by omega)).bind fun p hp => ?_
  obtain ⟨hps, hpb⟩ := hp
  refine yields_toFront (p := p) hv hfc (Format.planeCount_packed hb) (hf0.trans (by omega))
    (hg0.trans (by omega)) (fun j hj => hpb j (by omega)) fun s hs => ?_
  rw [ha, hb, hsize]
  rw [hsize] at hps hs
  split
  · exact yields_reorder heven hps hs (by omega)
  · have hscratch : (Array.replicate (4 * (v * h)) (0 : UInt8)).size = 4 * (v * h) :=
      Array.size_replicate
    refine (yields_reorder heven hps hscratch (by omega)).bind fun t ht => ?_
    refine (yields_reorder heven (ht.size.trans hscratch) hs (by omega)).mono fun r hr =>
      hr.congr fun j hj => ?_
    -- the scratch frame shows what the source shows
    have hshow : ∀ n < w * h, Layout.view (.packed .yuyv) w (fun _ => t.byte) n =
        Layout.view (.packed a) w (fun _ => p.byte) n := by
      intro n hn
      have hfit : Fit .yuy2 w h := hv.source.packed ha (by rfl : Format.yuy2.layout = .packed .yuyv)
      have := view_congr (x := fun _ => t.byte) (y := Layout.draw (.packed .yuyv) w
        (Layout.view (.packed a) w fun _ => p.byte)) hfit (fun i hi k hk => ?_) hn
      · exact this.trans (view_draw_packed heven a .yuyv _ n)
      · obtain rfl : i = 0 := by
          have : Format.planeCount .yuy2 = 1 := rfl
          omega
        have : Format.planeSize .yuy2 w h 0 = w * h * 2 :=
          Format.planeSize_zero_packed (by rfl : Format.yuy2.layout = .packed .yuyv)
        exact ht.below (by omega)
    have := draw_congr hv.target hshow (i := 0) (j := j)
      (by have := Format.planeCount_packed hb; omega) (by omega)
    rwa [hb] at this

/-- **Packed frames reordered where they stand.** -/
theorem packedRework_reworks (ha : f.layout = .packed a) (hb : g.layout = .packed b) :
    Reworks (packedRework a b) f g := by
  intro planes w h hv
  have hfc := Format.planeCount_packed ha
  have hf0 := Format.planeSize_zero_packed (w := w) (h := h) ha
  have hg0 := Format.planeSize_zero_packed (w := w) (h := h) hb
  have hsmall := hv.small
  obtain ⟨v, hv2⟩ := hv.source.even ha
  have hframe : w * h * 2 = 4 * (v * h) := by rw [hv2]; ring
  have hsize : w * 2 * h = 4 * (v * h) := by rw [hv2]; ring
  refine yields_bind_ok (size_eq_ok (by omega)) ?_
  refine yields_onOwnFront hv hfc (Format.planeCount_packed hb) (hf0.trans (by omega))
    (hg0.trans (by omega)) fun s hs => ?_
  rw [ha, hb, hsize]
  exact yields_reorder_inPlace ⟨v, hv2⟩ (hs.trans hsize) (by omega)

end Macro

section Pixels

variable {a b : PixelLayout}

/-- What the pixel at byte `o` of the bytes `x` is in another layout. -/
theorem pixelBytes_eq_ok {o : Nat} (ho : o + a.channels ≤ p.size)
    (hlt : p.size ≤ 0x10000000000000000) (hx : ∀ k < a.channels, p.byte (o + k) = x (o + k)) :
    pixelBytes a b o p = .ok (b.bytesFor (.rgb (a.colourIn x o) (a.alphaIn x o))) := by
  rw [pixelBytes, bind_eq_of_ok (PixelLayout.read_eq_ok ho (by omega)), a.colourAt_eq,
    a.colourIn_congr hx]
  cases b with
  | gray =>
    simp only [Table.grayOf_eq_ok]
    rfl
  | colour k =>
    simp only [PixelLayout.readAlpha_eq_ok ho (by omega : o + a.channels ≤ 0x10000000000000000),
      a.alphaAt_eq, a.alphaIn_congr hx]
    rfl

/-- **Pixel frames into pixel frames.** -/
theorem pixelsToPixels_translates (ha : f.layout = .pixels a) (hb : g.layout = .pixels b) :
    Translates (pixelsToPixels a b) f g := by
  intro src dst w h hv
  have hfc := Format.planeCount_pixels ha
  have hf0 := Format.planeSize_zero_pixels (w := w) (h := h) ha
  have hg0 := Format.planeSize_zero_pixels (w := w) (h := h) hb
  have hsrc := hv.src.size 0 (by omega)
  have hsmall := hv.small
  have hac := Nat.mul_le_mul_left (w * h) a.channels_le
  have hbc := Nat.mul_le_mul_left (w * h) b.channels_le
  have ha0 := a.channels_pos
  have hb0 := b.channels_pos
  refine yields_bind_ok (size_eq_ok (by omega)) ?_
  refine yields_bind_ok (planeOf_eq_ok (hv.src.getElem? (by omega))) ?_
  refine yields_bind_ok (chunk_eq_ok (by omega)) ?_
  refine yields_bind_ok (size_eq_ok (by omega)) ?_
  refine (Plane.yields_front (by omega)).bind fun p hp => ?_
  obtain ⟨hps, hpb⟩ := hp
  refine yields_bind_ok (chunk_eq_ok (by omega)) ?_
  refine yields_bind_ok (size_eq_ok (by omega)) ?_
  refine yields_toFront (p := p) hv hfc (Format.planeCount_pixels hb) hf0 hg0
    hpb fun s hs => ?_
  rw [ha, hb]
  refine Plane.Overwritten.tiles_zero fun i r hi hr => ?_
  have hia := row_end (w := a.channels) hi
  have hib := row_end (w := b.channels) hi
  rw [Nat.mul_comm a.channels, Nat.succ_mul] at hia
  rw [Nat.mul_comm b.channels, Nat.succ_mul] at hib
  refine yields_bind_ok (size_eq_ok (by omega)) ?_
  refine yields_bind_ok (pixelBytes_eq_ok (by omega) (by omega) fun _ _ => rfl) ?_
  refine yields_bind_ok (size_eq_ok (by omega)) ?_
  exact hr.drawPixel (by omega) rfl

/-- **Pixel frames reordered where they stand.** -/
theorem pixelsRework_reworks (ha : f.layout = .pixels a) (hb : g.layout = .pixels b)
    (hab : a.channels = b.channels) : Reworks (pixelsRework a b) f g := by
  intro planes w h hv
  have hfc := Format.planeCount_pixels ha
  have hf0 := Format.planeSize_zero_pixels (w := w) (h := h) ha
  have hg0 := Format.planeSize_zero_pixels (w := w) (h := h) hb
  rw [← hab] at hg0
  have hsmall := hv.small
  have hac := Nat.mul_le_mul_left (w * h) a.channels_le
  have ha0 := a.channels_pos
  refine yields_bind_ok (size_eq_ok (by omega)) ?_
  refine yields_bind_ok (chunk_eq_ok (by omega)) ?_
  refine yields_bind_ok (size_eq_ok (by omega)) ?_
  refine yields_onOwnFront hv hfc (Format.planeCount_pixels hb) hf0 hg0 fun s hs => ?_
  rw [ha, hb]
  refine Plane.Overwritten.tiles_zero fun i r hi hr => ?_
  have hrs := hr.size
  have hia := row_end (w := a.channels) hi
  rw [Nat.mul_comm a.channels, Nat.succ_mul] at hia
  refine yields_bind_ok (size_eq_ok (by omega)) ?_
  refine yields_bind_ok
    (pixelBytes_eq_ok (by omega) (by omega) fun k _ => hr.above (by omega)) ?_
  rw [hab] at hr hia hs ⊢
  exact hr.drawPixel (by omega) (by rw [Layout.view, hab])

end Pixels

end FrameConvert
