/-
# Tiles of a frame

A tile is a part of a frame whose sides and place are multiples of the chroma block.  Byte `j`
of row `y` of a plane of the tile is, in the frame around it,

`(rows above + y) (bytes per row of the frame) + (bytes to the left + j)`,

and `t.Cut f w x z` says that the frame `z` of width `w` has the frame `x` there, plane by
plane.  Planes come in units, and a tile keeps to the rows and columns of these:

| plane | unit | bytes |
| --- | --- | ---: |
| luma | pixel | 1 |
| chroma | block | 1 |
| macro pixels | pair of pixels | 4 |
| pixels | pixel | one for each channel |

What a tile shows, the frame shows at its place (`Tile.Cut.shows`), and what the frame draws
there is what the tile draws of its own pixels (`Tile.Shows.cut`): a chroma sample sees the
pixels of its block and no others, and no block is partly in a tile.  So a conversion leaves
tiles where they are (`Tile.Cut.translated`), whatever lies around them.
-/

import FrameConvert.Proofs.Content
import Mathlib.Data.Nat.ModEq

namespace FrameConvert

namespace Format

/-- The bytes that a row of plane `i` has for `w` pixels. -/
def rowSize (f : Format) (w i : Nat) : Nat :=
  if i = 0 then w * f.bytesPerPixel else w / f.chromaBlock.1

/-- The rows that plane `i` has for `h` rows of pixels. -/
def rowCount (f : Format) (h i : Nat) : Nat := if i = 0 then h else h / f.chromaBlock.2

@[simp] theorem rowSize_zero (f : Format) (i : Nat) : f.rowSize 0 i = 0 := by
  simp [rowSize]

@[simp] theorem rowCount_zero (f : Format) (i : Nat) : f.rowCount 0 i = 0 := by
  simp [rowCount]

end Format

/-- A part of a frame, in pixels or in blocks of them. -/
structure Tile where
  left : Nat
  top : Nat
  width : Nat
  height : Nat

namespace Tile

/-- Pixel `x` of row `y` of a tile, in a frame of width `w`. -/
def pixel (t : Tile) (w x y : Nat) : Nat := (t.top + y) * w + (t.left + x)

/-- A tile counted in blocks of `a` by `d` pixels. -/
def blocks (t : Tile) (a d : Nat) : Tile := ⟨t.left / a, t.top / d, t.width / a, t.height / d⟩

/-- Plane `i` of the frame `z` has that of the frame `x` as a tile. -/
def CutPlane (t : Tile) (f : Format) (w i : Nat) (x z : FrameBytes) : Prop :=
  ∀ y < f.rowCount t.height i, ∀ j < f.rowSize t.width i,
    z i ((f.rowCount t.top i + y) * f.rowSize w i + (f.rowSize t.left i + j)) =
      x i (y * f.rowSize t.width i + j)

/-- The frame `z` has the frame `x` as a tile. -/
def Cut (t : Tile) (f : Format) (w : Nat) (x z : FrameBytes) : Prop :=
  ∀ i < f.planeCount, t.CutPlane f w i x z

/-- A tile lies in a frame and keeps to its blocks. -/
structure Lies (t : Tile) (f : Format) (w h : Nat) : Prop where
  frame : Fit f w h
  tile : Fit f t.width t.height
  left : f.chromaBlock.1 ∣ t.left
  top : f.chromaBlock.2 ∣ t.top
  right_le : t.left + t.width ≤ w
  bottom_le : t.top + t.height ≤ h

/-- At the place of a tile, the pixels are those of the tile. -/
def Shows (t : Tile) (w : Nat) (px pz : Nat → Pixel) : Prop :=
  ∀ y < t.height, ∀ x < t.width, pz (t.pixel w x y) = px (y * t.width + x)

/-- And so are the units of `u` bytes of a plane. -/
def SameUnits (t : Tile) (w u : Nat) (x z : Nat → UInt8) : Prop :=
  ∀ y < t.height, ∀ m < t.width, ∀ k < u, z (t.pixel w m y * u + k) = x ((y * t.width + m) * u + k)

end Tile

section Rows

variable {f : Format} {w h i : Nat}

/-- A plane is its rows. -/
theorem Format.planeSize_eq_rows (hi : i < f.planeCount) :
    f.planeSize w h i = f.rowSize w i * f.rowCount h i := by
  unfold Format.planeSize Format.rowSize Format.rowCount
  split
  · ring
  · have hp : f.isPlanar = true := by
      by_contra hp
      rw [Format.planeCount, if_neg hp] at hi
      omega
    simp only [Format.chromaSize, hp, if_pos]

/-- Rows of frames beside each other. -/
theorem Format.rowSize_add (f : Format) {l : Nat} (hl : f.chromaBlock.1 ∣ l) (n i : Nat) :
    f.rowSize (l + n) i = f.rowSize l i + f.rowSize n i := by
  unfold Format.rowSize
  split
  · exact Nat.add_mul l n _
  · exact Nat.add_div_of_dvd_right hl

/-- Rows of frames above each other. -/
theorem Format.rowCount_add (f : Format) {t : Nat} (ht : f.chromaBlock.2 ∣ t) (n i : Nat) :
    f.rowCount (t + n) i = f.rowCount t i + f.rowCount n i := by
  unfold Format.rowCount
  split
  · rfl
  · exact Nat.add_div_of_dvd_right ht

theorem Format.rowSize_mono (f : Format) {n w : Nat} (hn : n ≤ w) (i : Nat) :
    f.rowSize n i ≤ f.rowSize w i := by
  unfold Format.rowSize
  split
  · exact Nat.mul_le_mul_right _ hn
  · exact Nat.div_le_div_right hn

theorem Format.rowCount_mono (f : Format) {n h : Nat} (hn : n ≤ h) (i : Nat) :
    f.rowCount n i ≤ f.rowCount h i := by
  unfold Format.rowCount
  split
  · exact hn
  · exact Nat.div_le_div_right hn

end Rows

section Units

variable {f : Format} {w h i a d u : Nat} {t : Tile} {x z : FrameBytes} {p q : Nat → UInt8}

/-- Plane `i` has `u` bytes for every block of `a` by `d` pixels. -/
structure Format.InUnits (f : Format) (i a d u : Nat) : Prop where
  pos : 0 < u
  row : ∀ n, a ∣ n → f.rowSize n i = n / a * u
  count : ∀ n, f.rowCount n i = n / d

theorem Format.inUnits_planar {p : PlanarLayout} (hf : f.layout = .planar p) :
    f.InUnits 0 1 1 1 := by
  constructor
  · exact one_pos
  · intro n _
    simp [Format.rowSize, Format.bytesPerPixel_eq_layout, Layout.bytesPerPixel, hf]
  · intro n
    simp [Format.rowCount]

theorem Format.inUnits_chroma {s : Subsampling} {o : ChromaOrder}
    (hf : f.layout = .planar (.chroma s o)) (hi : i ≠ 0) : f.InUnits i s.across s.down 1 := by
  constructor
  · exact one_pos
  · intro n _
    simp [Format.rowSize, Format.chromaBlock_eq_layout, Layout.block, hf, hi]
  · intro n
    simp [Format.rowCount, Format.chromaBlock_eq_layout, Layout.block, hf, hi]

theorem Format.inUnits_packed {o : MacroOrder} (hf : f.layout = .packed o) :
    f.InUnits 0 2 1 4 := by
  constructor
  · exact four_pos
  · rintro _ ⟨n, rfl⟩
    simp only [Format.rowSize, Format.bytesPerPixel_eq_layout, Layout.bytesPerPixel, hf, if_pos]
    omega
  · intro n
    simp [Format.rowCount]

theorem Format.inUnits_pixels {l : PixelLayout} (hf : f.layout = .pixels l) :
    f.InUnits 0 1 1 l.channels := by
  constructor
  · exact l.channels_pos
  · intro n _
    simp [Format.rowSize, Format.bytesPerPixel_eq_layout, Layout.bytesPerPixel, hf]
  · intro n
    simp [Format.rowCount]

namespace Tile

theorem blocks_one (t : Tile) : t.blocks 1 1 = t := by
  simp only [blocks, Nat.div_one]

/-- **The bytes of a tile are those of its units.** -/
theorem cutPlane_iff (hu : f.InUnits i a d u) (hw : a ∣ w) (hl : a ∣ t.left) (hn : a ∣ t.width) :
    t.CutPlane f w i x z ↔ (t.blocks a d).SameUnits (w / a) u (x i) (z i) := by
  have hplace : ∀ y m k, (t.top / d + y) * (w / a * u) + (t.left / a * u + (m * u + k)) =
      (t.blocks a d).pixel (w / a) m y * u + k := by
    intro y m k
    simp only [pixel, blocks]
    ring
  have htile : ∀ y m k, y * (t.width / a * u) + (m * u + k) =
      (y * (t.blocks a d).width + m) * u + k := by
    intro y m k
    simp only [blocks]
    ring
  simp only [CutPlane, hu.row w hw, hu.row _ hl, hu.row _ hn, hu.count]
  constructor
  · intro hcut y hy m hm k hk
    rw [← hplace, ← htile]
    refine hcut y hy _ ?_
    rw [Nat.mul_comm (t.width / a)]
    exact index_lt hk hm
  · intro hunits y hy j hj
    obtain ⟨k, m, hk, hm, rfl⟩ := exists_index (w := u) (by rwa [Nat.mul_comm] at hj)
    rw [hplace, htile]
    exact hunits y hy m hm k hk

/-- Units of a single byte. -/
theorem sameUnits_one :
    t.SameUnits w 1 p q ↔
      ∀ y < t.height, ∀ m < t.width, q (t.pixel w m y) = p (y * t.width + m) := by
  simp only [SameUnits, Nat.lt_one_iff, forall_eq, Nat.mul_one, Nat.add_zero]

end Tile
end Units

section Blocks

variable {s : Subsampling} {w h : Nat} {t : Tile} {px pz : Nat → Pixel}

namespace Tile

/-- A tile keeps to the blocks of a grid. -/
structure OnGrid (t : Tile) (s : Subsampling) (w : Nat) : Prop where
  left : s.across ∣ t.left
  top : s.down ∣ t.top
  width : s.across ∣ t.width
  height : s.down ∣ t.height
  frame : s.across ∣ w
  right_le : t.left + t.width ≤ w

variable (hg : t.OnGrid s w)
include hg

/-- The sample over a pixel of a tile. -/
theorem cell_pixel {x : Nat} (y : Nat) (hx : x < t.width) : s.cell w (t.pixel w x y) =
    (t.blocks s.across s.down).pixel (w / s.across) (x / s.across) (y / s.down) := by
  have hcol : t.left + x < w := Nat.lt_of_lt_of_le (Nat.add_lt_add_left hx _) hg.right_le
  rw [pixel, s.cell_index _ hcol, Nat.add_div_of_dvd_right hg.top,
    Nat.add_div_of_dvd_right hg.left, pixel, blocks]

/-- The pixels under a sample of a tile. -/
theorem under_pixel {cx : Nat} (cy i j : Nat) (hx : cx < t.width / s.across) :
    s.under w ((t.blocks s.across s.down).pixel (w / s.across) cx cy) i j =
      t.pixel w (cx * s.across + i) (cy * s.down + j) := by
  have hcol : t.left / s.across + cx < w / s.across := by
    have hle := Nat.div_le_div_right (c := s.across) hg.right_le
    rw [Nat.add_div_of_dvd_right hg.left] at hle
    omega
  rw [pixel, blocks, s.under_index _ i j hcol, pixel, Nat.add_mul (t.top / s.down),
    Nat.div_mul_cancel hg.top, Nat.add_mul (t.left / s.across), Nat.div_mul_cancel hg.left,
    Nat.add_assoc, Nat.add_assoc t.left]

/-- **A chroma sample of a tile is drawn of the tile's pixels.** -/
theorem chromaOf_pixel (hp : t.Shows w px pz) (channel : Pixel → UInt8) {cx cy : Nat}
    (hx : cx < t.width / s.across) (hy : cy < t.height / s.down) :
    chromaOf s w channel pz ((t.blocks s.across s.down).pixel (w / s.across) cx cy) =
      chromaOf s t.width channel px (cy * (t.width / s.across) + cx) := by
  refine chromaOf_of_under channel fun i hi j hj => ?_
  rw [under_pixel hg cy i j hx, s.under_index cy i j hx]
  exact hp _ (Subsampling.row_lt hg.height hy hj) _ (Subsampling.column_lt hg.width hx hi)

end Tile

/-- A macro pixel of a tile is drawn of its two pixels. -/
theorem macroOf_pixel (o : MacroOrder) (hg : t.OnGrid .s422 w) (hp : t.Shows w px pz) {m r : Nat}
    (hm : m < t.width / 2) (hr : r < t.height) :
    Layout.macroOf o w pz ((t.blocks 2 1).pixel (w / 2) m r) =
      Layout.macroOf o t.width px (r * (t.width / 2) + m) := by
  have hchroma : ∀ channel, chromaOf .s422 w channel pz ((t.blocks 2 1).pixel (w / 2) m r) =
      chromaOf .s422 t.width channel px (r * (t.width / 2) + m) := fun channel =>
    Tile.chromaOf_pixel hg hp channel hm ((Nat.div_one _).symm ▸ hr)
  -- its two pixels are those under its sample in the 4:2:2 grid
  have hpixel : ∀ i < 2, pz (2 * (t.blocks 2 1).pixel (w / 2) m r + i) =
      px (2 * (r * (t.width / 2) + m) + i) := by
    intro i hi
    have hrow : r * 1 + 0 = r := Nat.mul_one r
    rw [← Subsampling.under_s422 hg.frame, ← Subsampling.under_s422 hg.width]
    have hplace := Tile.under_pixel hg r i 0 hm
    have htile := Subsampling.under_index .s422 (w := t.width) r i 0 hm
    simp only [Subsampling.across, Subsampling.down, hrow] at hplace htile
    rw [hplace, htile]
    exact hp r hr _ (Subsampling.column_lt hg.width hm hi)
  have hfirst := hpixel 0 two_pos
  simp only [Nat.add_zero] at hfirst
  rw [Layout.macroOf, Layout.macroOf, hchroma, hchroma, hfirst, hpixel 1 one_lt_two]

/-- In frames of macro pixels, columns tell first pixels from second ones. -/
theorem pixel_mod_two {l : Nat} (hw : 2 ∣ w) (hl : 2 ∣ l) (y x : Nat) :
    (y * w + (l + x)) % 2 = x % 2 := by
  obtain ⟨v, rfl⟩ := hw
  obtain ⟨k, rfl⟩ := hl
  have hrow : y * (2 * v) = 2 * (y * v) := by ring
  omega

end Blocks

section Formats

variable {f : Format} {w h : Nat} {t : Tile} {x z : FrameBytes} {px pz : Nat → Pixel}

namespace Tile

/-- A tile keeps to the grid of chroma planes. -/
theorem Lies.onGrid_chroma (ht : t.Lies f w h) {s : Subsampling} {o : ChromaOrder}
    (hf : f.layout = .planar (.chroma s o)) : t.OnGrid s w where
  left := by simpa [Format.chromaBlock_eq_layout, Layout.block, hf] using ht.left
  top := by simpa [Format.chromaBlock_eq_layout, Layout.block, hf] using ht.top
  width := ht.tile.across_dvd hf
  height := ht.tile.down_dvd hf
  frame := ht.frame.across_dvd hf
  right_le := ht.right_le

/-- And to that of macro pixels. -/
theorem Lies.onGrid_packed (ht : t.Lies f w h) {o : MacroOrder} (hf : f.layout = .packed o) :
    t.OnGrid .s422 w where
  left := by
    have hleft := ht.left
    rwa [Format.chromaBlock_eq_layout, hf] at hleft
  top := Nat.one_dvd _
  width := ht.tile.even hf
  height := Nat.one_dvd _
  frame := ht.frame.even hf
  right_le := ht.right_le

/-- The luma of a planar tile. -/
theorem cutPlane_planar {p : PlanarLayout} (hf : f.layout = .planar p) :
    t.CutPlane f w 0 x z ↔
      ∀ y < t.height, ∀ n < t.width, z 0 (t.pixel w n y) = x 0 (y * t.width + n) := by
  rw [cutPlane_iff (Format.inUnits_planar hf) (one_dvd _) (one_dvd _) (one_dvd _), blocks_one,
    Nat.div_one, sameUnits_one]

/-- The chroma of a planar tile. -/
theorem cutPlane_chroma (ht : t.Lies f w h) {s : Subsampling} {o : ChromaOrder}
    (hf : f.layout = .planar (.chroma s o)) {i : Nat} (hi : i ≠ 0) :
    t.CutPlane f w i x z ↔ ∀ y < t.height / s.down, ∀ n < t.width / s.across,
      z i ((t.blocks s.across s.down).pixel (w / s.across) n y) =
        x i (y * (t.width / s.across) + n) := by
  have hg := ht.onGrid_chroma hf
  rw [cutPlane_iff (Format.inUnits_chroma hf hi) hg.frame hg.left hg.width, sameUnits_one]
  rfl

/-- The macro pixels of a packed tile. -/
theorem cutPlane_packed (ht : t.Lies f w h) {o : MacroOrder} (hf : f.layout = .packed o) :
    t.CutPlane f w 0 x z ↔ ∀ y < t.height, ∀ m < t.width / 2, ∀ k < 4,
      z 0 (4 * (t.blocks 2 1).pixel (w / 2) m y + k) = x 0 (4 * (y * (t.width / 2) + m) + k) := by
  have hg := ht.onGrid_packed hf
  rw [cutPlane_iff (Format.inUnits_packed hf) hg.frame hg.left hg.width]
  simp only [SameUnits, Nat.mul_comm _ 4, blocks, Nat.div_one]

/-- The pixels of a tile of pixels. -/
theorem cutPlane_pixels {l : PixelLayout} (hf : f.layout = .pixels l) :
    t.CutPlane f w 0 x z ↔ t.SameUnits w l.channels (x 0) (z 0) := by
  rw [cutPlane_iff (Format.inUnits_pixels hf) (one_dvd _) (one_dvd _) (one_dvd _), blocks_one,
    Nat.div_one]

/-- **What a tile shows, the frame shows at its place.** -/
theorem Cut.shows (ht : t.Lies f w h) (hcut : t.Cut f w x z) :
    t.Shows w (f.layout.view t.width x) (f.layout.view w z) := by
  intro r hr n hn
  have h0 := hcut 0 f.planeCount_pos
  cases hl : f.layout with
  | planar p =>
    have hluma := (cutPlane_planar hl).1 h0 r hr n hn
    cases p with
    | luma => simp only [Layout.view, hluma]
    | chroma s o =>
      have hg := ht.onGrid_chroma hl
      have hc : ∀ i, i = 1 ∨ i = 2 → z i (s.cell w (t.pixel w n r)) =
          x i (s.cell t.width (r * t.width + n)) := by
        intro i hi
        have hplane := hcut i (by rw [Format.planeCount_chroma hl]; omega)
        rw [cell_pixel hg r hn, s.cell_index r hn]
        exact (cutPlane_chroma ht hl (by omega)).1 hplane _
          (Nat.div_lt_div_of_lt_of_dvd hg.height hr) _ (Nat.div_lt_div_of_lt_of_dvd hg.width hn)
      have hp := o.u_v
      simp only [Layout.view, hluma, hc o.u (by omega), hc o.v (by omega)]
  | packed o =>
    have hg := ht.onGrid_packed hl
    -- a macro pixel lies where its sample does in the 4:2:2 grid
    have hbyte : ∀ k < 4, z 0 (4 * (t.pixel w n r / 2) + k) =
        x 0 (4 * ((r * t.width + n) / 2) + k) := by
      intro k hk
      rw [← Subsampling.cell_s422 hg.frame, ← Subsampling.cell_s422 hg.width, cell_pixel hg r hn,
        Subsampling.cell_index _ r hn]
      simp only [Subsampling.across, Subsampling.down, Nat.div_one]
      exact (cutPlane_packed ht hl).1 h0 r hr _ (Nat.div_lt_div_of_lt_of_dvd hg.width hn) k hk
    have hsecond : t.pixel w n r % 2 = (r * t.width + n) % 2 := by
      have hown := pixel_mod_two hg.width (dvd_zero 2) r n
      rw [Nat.zero_add] at hown
      rw [hown, pixel, pixel_mod_two hg.frame hg.left]
    obtain ⟨h₀, h₁, hu, hv⟩ := o.position_lt
    simp only [Layout.view, hsecond, hbyte _ hu, hbyte _ hv]
    split
    · rw [hbyte _ h₀]
    · rw [hbyte _ h₁]
  | pixels l =>
    have hunit := (cutPlane_pixels hl).1 h0 r hr n hn
    simp only [Layout.view, l.colourIn_congr hunit, l.alphaIn_congr hunit]

/-- **What is drawn at the place of a tile is drawn of the tile's pixels.** -/
theorem Shows.cut (ht : t.Lies f w h) (hp : t.Shows w px pz) :
    t.Cut f w (f.layout.draw t.width px) (f.layout.draw w pz) := by
  intro i hi
  cases hl : f.layout with
  | planar p =>
    cases p with
    | luma =>
      rw [Format.planeCount_luma hl] at hi
      obtain rfl : i = 0 := by omega
      refine (cutPlane_planar hl).2 fun r hr n hn => ?_
      simp only [Layout.draw, hp r hr n hn]
    | chroma s o =>
      by_cases h0 : i = 0
      · subst h0
        refine (cutPlane_planar hl).2 fun r hr n hn => ?_
        simp only [Layout.draw, if_pos, hp r hr n hn]
      · refine (cutPlane_chroma ht hl h0).2 fun r hr n hn => ?_
        simp only [Layout.draw, if_neg h0]
        exact chromaOf_pixel (ht.onGrid_chroma hl) hp _ hn hr
  | packed o =>
    rw [Format.planeCount_packed hl] at hi
    obtain rfl : i = 0 := by omega
    have hg := ht.onGrid_packed hl
    refine (cutPlane_packed ht hl).2 fun r hr m hm k hk => ?_
    rw [draw_packed o w pz _ hk, draw_packed o t.width px _ hk, macroOf_pixel o hg hp hm hr]
  | pixels l =>
    rw [Format.planeCount_pixels hl] at hi
    obtain rfl : i = 0 := by omega
    refine (cutPlane_pixels hl).2 fun r hr n hn k hk => ?_
    rw [draw_pixels l w pz _ hk, draw_pixels l t.width px _ hk, hp r hr n hn]

/-- **A conversion leaves tiles where they are,** whatever lies around them. -/
theorem Cut.translated {a b : Format} (ha : t.Lies a w h) (hb : t.Lies b w h)
    (hcut : t.Cut a w x z) :
    t.Cut b w (Layout.translated a.layout b.layout t.width x)
      (Layout.translated a.layout b.layout w z) :=
  (hcut.shows ha).cut hb

/-- The bytes of a tile are bytes of the frame. -/
theorem Lies.place_lt (ht : t.Lies f w h) {i y j : Nat} (hi : i < f.planeCount)
    (hy : y < f.rowCount t.height i) (hj : j < f.rowSize t.width i) :
    (f.rowCount t.top i + y) * f.rowSize w i + (f.rowSize t.left i + j) < f.planeSize w h i := by
  have hrow := f.rowCount_add ht.top t.height i
  have hcol := f.rowSize_add ht.left t.width i
  have hrows := f.rowCount_mono ht.bottom_le i
  have hcols := f.rowSize_mono ht.right_le i
  rw [Format.planeSize_eq_rows hi]
  exact index_lt (by omega) (by omega)

/-- What planes hold of a tile and of the frame around it. -/
theorem Cut.carried (ht : t.Lies f w h) {F G : FrameBytes} {xs zs : List Plane}
    (hx : Carries f t.width t.height F xs) (hz : Carries f w h G zs) :
    t.Cut f w F G ↔ t.Cut f w (bytesOf xs) (bytesOf zs) := by
  refine forall₂_congr fun i hi => forall₂_congr fun y hy => forall₂_congr fun j hj => ?_
  have htile : y * f.rowSize t.width i + j < f.planeSize t.width t.height i := by
    rw [Format.planeSize_eq_rows hi]
    exact index_lt hj hy
  simp only [bytesOf, hz.byte i hi _ (ht.place_lt hi hy hj), hx.byte i hi _ htile]

end Tile
end Formats
end FrameConvert
