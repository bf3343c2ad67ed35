/-
# The front of a row, eight pixels at a time

Of a row of `w` pixels the lanes do the first `8 ⌊w / 8⌋`, and leave the others to whoever
finishes the row.  Every pixel of the front is the one that the tables of products give for its
samples, without alpha, and no byte behind the front changes (`Front`).

Inside, the sums of red, green and blue are computed in lanes of 32 bits, and no operation in them
wraps, whatever the bytes (`Lanes.Term.Exact`).  From there on the lanes are read as signed numbers:
narrowed twice, which is one clamp to a byte, and found again at the place of their pixel.  So byte
for byte the colours are the clamped lanes of their own pixels.
-/

import FrameConvert.Proofs.Lanes.Rows

namespace FrameConvert
namespace RowLanes

/-- The first `n` pixels of `row` are those of the samples by the tables, without alpha, and the
rest is as it was. -/
structure Front (s : Subsampling) (k : PixelOrder) (yRow uRow vRow row : Plane) (n : Nat)
    (q : Plane) : Prop where
  size : q.size = row.size
  colour : ∀ x < n, Table.rgb (yRow.byte x) (uRow.byte (x / s.across)) (vRow.byte (x / s.across)) =
    .ok ((PixelLayout.colour k).colourAt q (x * k.channels))
  alpha : ∀ x < n, ∀ i ∈ k.alpha?, q.byte (x * k.channels + i) = 0
  rest : ∀ j, n * k.channels ≤ j → q.byte j = row.byte j

variable {s : Subsampling} {k : PixelOrder} {yRow uRow vRow row q : Plane} {w n : Nat}

/-- What is overwritten by pixels is a front of pixels. -/
theorem Front.of_overwritten (h : row.Overwritten (n * k.channels)
    (Layout.draw (.pixels (.colour k)) w (rowPixel s yRow uRow vRow) 0) q) :
    Front s k yRow uRow vRow row n q := by
  obtain ⟨hr, hg, hb⟩ := k.position_lt
  have hbyte : ∀ {x i : Nat}, x < n → i < k.channels → q.byte (x * k.channels + i) =
      (k.bytes (FixedPoint.rgbOf (yRow.byte x) (uRow.byte (x / s.across))
        (vRow.byte (x / s.across))) 0).getD i 0 := fun hx hi => by
    have hin := index_lt hi hx
    exact (h.below (by rwa [Nat.mul_comm n])).trans (draw_pixels (.colour k) w _ _ hi)
  refine ⟨h.size, fun x hx => ?_, fun x hx i hi => ?_, fun j hj => h.above hj⟩
  · obtain ⟨hbr, hbg, hbb, -⟩ := k.bytes_at (FixedPoint.rgbOf (yRow.byte x)
      (uRow.byte (x / s.across)) (vRow.byte (x / s.across))) 0
    rw [Table.rgb_eq_ok, PixelLayout.colourAt, hbyte hx hr, hbyte hx hg, hbyte hx hb, hbr, hbg, hbb]
  · rw [hbyte hx (PixelOrder.alpha_lt hi)]
    exact (k.bytes_at _ 0).2.2.2 i hi

/-- **Lanes do the whole groups of eight pixels of a row, and do them exactly.**  For every
subsampling, every order of channels and every width, as long as the bytes of the row are counted
in a word: the start of a row returns, with eight pixels for each whole group, all of them those of
the tables, and nothing behind them is touched.  Inside, for whatever bytes, no product and no sum
of a channel wraps in any lane, the half that rounds it included; the colour of a pixel is its own
lane of each channel, clamped to a byte, which two packs do at once; and the bytes at a pixel's
place are those of its lane. -/
theorem row_start_is_exact (s : Subsampling) (k : PixelOrder) :
    (∀ {w : Nat} {yRow uRow vRow row : Plane}, yRow.size = w → uRow.size = w / s.across →
      vRow.size = w / s.across → row.size = w * k.channels → row.size < 0x10000000000000000 →
      Yields (start s k yRow uRow vRow row w) fun begun => begun.done = 8 * (w / 8) ∧
        Front s k yRow uRow vRow row begun.done begun.row) ∧
    (∀ y u v : Register, (redSum y v).rounded.Exact ∧ (greenSum y u v).rounded.Exact ∧
      (blueSum y u).rounded.Exact) ∧
    (∀ (y u v : Register) (i : Fin 8), (colours y u v).get i =
        ⟨Lanes.clamp8 (Lanes.clamp16 ((redSum y v).descale.get i)),
          Lanes.clamp8 (Lanes.clamp16 ((greenSum y u v).descale.get i)),
          Lanes.clamp8 (Lanes.clamp16 ((blueSum y u).descale.get i))⟩) ∧
    (∀ x : BitVec 32,
      ((Lanes.clamp8 (Lanes.clamp16 x)).toNat : Int) = max 0 (min x.toInt 255)) ∧
    ∀ (a b : Lanes) (i : Fin 8), ∃ (h : Lanes.place i < 32) (h' : Lanes.place i + 4 < 32),
      Lanes.place i = (if i.val < 4 then i.val else 12 + i.val) ∧
      (Lanes.packBytes (Lanes.packWords a b) (Lanes.packWords a b)).get ⟨Lanes.place i, h⟩ =
        Lanes.clamp8 (Lanes.clamp16 (a.get i)) ∧
      (Lanes.packBytes (Lanes.packWords a b) (Lanes.packWords a b)).get ⟨Lanes.place i + 4, h'⟩ =
        Lanes.clamp8 (Lanes.clamp16 (b.get i)) := by
  refine ⟨fun hy hu hv hrow hsize => ?_, fun y u v => ?_, fun y u v i => ?_, fun x => ?_,
    fun a b i => ?_⟩
  · refine (yields_start (hrow ▸ hsize) hy hu hv hrow).mono fun begun hbegun => ?_
    exact ⟨hbegun.1, .of_overwritten hbegun.2⟩
  · exact ⟨(fits_redSum y v).exact, (fits_greenSum y u v).exact, (fits_blueSum y u).exact⟩
  · simp only [Lanes.clamp8_clamp16]
    exact get_colours y u v i
  · rw [Lanes.clamp8_clamp16, toNat_saturate]
  · have h' := Lanes.place_lt i
    have h : Lanes.place i < 32 := by omega
    obtain ⟨ha, hb⟩ := Lanes.packed_place a b i h h'
    rw [← Lanes.clamp8_clamp16] at ha hb
    exact ⟨h, h', rfl, ha, hb⟩

/-- Ten pixels of one red in `BGRA`, over five chroma samples: eight are done, the last of them is
that red without alpha, and the ninth is still to be drawn. -/
theorem start_of_ten_pixels :
    Yields (start .s420 .bgra (.replicate 10 81) (.replicate 5 90) (.replicate 5 240)
        (.replicate 40 7) 10) fun begun => begun.done = 8 ∧
      [28, 29, 30, 31, 32].map begun.row.byte = [0, 0, 238, 0, 7] := by
  refine ((row_start_is_exact .s420 .bgra).1 (by decide) (by decide) (by decide) (by decide)
    (by decide)).mono fun begun hbegun => ?_
  obtain ⟨hdone, hfront⟩ := hbegun
  rw [hdone] at hfront
  have hcolour := hfront.colour 7 (by decide)
  have halpha := hfront.alpha 7 (by decide) 3 rfl
  have hrest := hfront.rest 32 (by decide)
  rw [Table.rgb_eq_ok] at hcolour
  have hred : FixedPoint.rgbOf 81 90 240 = ⟨238, 0, 0⟩ := by decide
  obtain ⟨hr, hg, hb⟩ := Rgb.mk.inj (hred.symm.trans (Except.ok.inj hcolour))
  refine ⟨hdone, ?_⟩
  simp only [List.map_cons, List.map_nil, List.cons.injEq, and_true]
  exact ⟨hb.symm, hg.symm, hr.symm, halpha, hrest⟩

end RowLanes
end FrameConvert
