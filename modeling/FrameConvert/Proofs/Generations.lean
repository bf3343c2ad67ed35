/-
# No drift over generations

A YUV format leaves of a chroma channel the mean over the block of every pixel, through its
grid: `smooth`.  A channel that is equal all over the blocks of a grid is `Steady` there, and
smoothing through that grid leaves it alone (`smooth_of_steady`).

Smoothing through another grid keeps a channel steady (`steady_smooth`).  Along each axis
the blocks of the two grids are nested.  Where those of the other grid are the finer ones,
a whole row of them sees the same samples; where they are the coarser ones, they hide the
finer blocks altogether.  So of a frame that came from `f` to `g` nothing is lost on the way
back (`kept_kept`): the rounding happened on the way there.  That is so even where neither
grid is the finer one, 4:2:0 against 4:1:1, each of which averages along one axis and
replicates along the other.  Every later round trip repeats the first
(`no_generation_drift`).
-/

import FrameConvert.Proofs.Journey

namespace FrameConvert

/-- The grid that the chroma of a YUV format lies on. -/
def Format.grid? (f : Format) : Option Subsampling :=
  match f.layout with
  | .planar (.chroma s _) => some s
  | .packed _ => some .s422
  | .planar .luma | .pixels _ => none

/-- A channel of chroma as it is left through a grid; neutral where there is none. -/
def smooth (grid? : Option Subsampling) (w : Nat) (v : Nat → UInt8) (n : Nat) : UInt8 :=
  match grid? with
  | none => neutral
  | some s => s.mean fun i j => v (s.under w (s.cell w n) i j)

/-- A channel is equal all over the blocks of a grid; neutral where there is none. -/
def Steady (grid? : Option Subsampling) (w h : Nat) (v : Nat → UInt8) : Prop :=
  match grid? with
  | none => ∀ n < w * h, v n = neutral
  | some s => ∀ n < w * h, ∀ n' < w * h, s.cell w n = s.cell w n' → v n = v n'

/-- The blocks of a grid divide the sides of a frame. -/
def Divides (grid? : Option Subsampling) (w h : Nat) : Prop :=
  ∀ s ∈ grid?, s.across ∣ w ∧ s.down ∣ h

section Grids

/-- A block of `b` pixels along an axis, seen from two places in one block of `a` pixels. -/
theorem div_of_block {a b x x' i : Nat} (ha : 0 < a) (hb : 0 < b) (hab : a ∣ b ∨ b ∣ a)
    (hx : x / a = x' / a) (hi : i < b) : (x / b * b + i) / a = (x' / b * b + i) / a := by
  rcases hab with ⟨k, rfl⟩ | ⟨k, rfl⟩
  · rw [← Nat.div_div_eq_div_mul x, ← Nat.div_div_eq_div_mul x', hx]
  · rw [← Nat.div_div_eq_div_mul, ← Nat.div_div_eq_div_mul, (index_div_mod _ hi).1,
      (index_div_mod _ hi).1, Nat.div_div_eq_div_mul, Nat.div_div_eq_div_mul, hx]

variable {s t : Subsampling} {w h : Nat} {g g' : Option Subsampling} {v v' : Nat → UInt8}

theorem column_of_block (hs : s.across ∣ w) (hw : 0 < w) (n : Nat) :
    n % w / s.across < w / s.across :=
  Nat.div_lt_div_of_lt_of_dvd hs (Nat.mod_lt n hw)

/-- Pixels under one sample are in one row of blocks and in one column. -/
theorem block_of_cell (hs : s.across ∣ w) (hw : 0 < w) {n n' : Nat}
    (hn : s.cell w n = s.cell w n') :
    n / w / s.down = n' / w / s.down ∧ n % w / s.across = n' % w / s.across := by
  have hblock : ∀ n, s.cell w n / (w / s.across) = n / w / s.down ∧
      s.cell w n % (w / s.across) = n % w / s.across :=
    fun n => index_div_mod (n / w / s.down) (column_of_block hs hw n)
  obtain ⟨hrow, hcol⟩ := hblock n
  obtain ⟨hrow', hcol'⟩ := hblock n'
  rw [hn] at hrow hcol
  exact ⟨hrow.symm.trans hrow', hcol.symm.trans hcol'⟩

/-- The sample over a pixel of the block that another pixel is in. -/
theorem cell_under_cell (s : Subsampling) (ht : t.across ∣ w) (hw : 0 < w) (n : Nat) {i : Nat}
    (hi : i < t.across) (j : Nat) :
    s.cell w (t.under w (t.cell w n) i j) =
      (n / w / t.down * t.down + j) / s.down * (w / s.across) +
        (n % w / t.across * t.across + i) / s.across := by
  have hcol := column_of_block ht hw n
  have hunder : t.under w (t.cell w n) i j =
      (n / w / t.down * t.down + j) * w + (n % w / t.across * t.across + i) :=
    t.under_index _ i j hcol
  rw [hunder, s.cell_index _ (Subsampling.column_lt ht hcol hi)]

/-- **A block of one grid, seen from two pixels under one sample of another,** has the same
samples of that other grid over it. -/
theorem cell_of_under (hs : s.across ∣ w) (ht : t.across ∣ w) {n n' i j : Nat} (hw : 0 < w)
    (hn : s.cell w n = s.cell w n') (hi : i < t.across) (hj : j < t.down) :
    s.cell w (t.under w (t.cell w n) i j) = s.cell w (t.under w (t.cell w n') i j) := by
  obtain ⟨hrow, hcol⟩ := block_of_cell hs hw hn
  have hx := div_of_block s.across_pos t.across_pos (s.across_dvd t) hcol hi
  have hy := div_of_block s.down_pos t.down_pos (s.down_dvd t) hrow hj
  rw [cell_under_cell s ht hw n hi, cell_under_cell s ht hw n' hi, hx, hy]

/-- **A steady channel is left as it is.** -/
theorem smooth_of_steady (hg : Divides g w h) (hw : 0 < w) (hv : Steady g w h v) {n : Nat}
    (hn : n < w * h) : smooth g w v n = v n := by
  cases g with
  | none => exact (hv n hn).symm
  | some s =>
    obtain ⟨hsw, hsh⟩ := hg s rfl
    refine (Subsampling.mean_congr fun i hi j hj => ?_).trans (s.mean_const (v n))
    refine hv _ (Subsampling.under_lt hsw hsh (Subsampling.cell_lt hsw hsh hn) hi hj) n hn ?_
    exact Subsampling.cell_under hsw hw hi hj

/-- **Smoothing through another grid keeps a channel steady.** -/
theorem steady_smooth (hg : Divides g w h) (hg' : Divides g' w h) (hw : 0 < w)
    (hv : Steady g w h v) : Steady g w h (smooth g' w v) := by
  cases g' with
  | none =>
    cases g with
    | none => exact fun n _ => rfl
    | some s => exact fun n _ n' _ _ => rfl
  | some t =>
    obtain ⟨htw, hth⟩ := hg' t rfl
    have hunder : ∀ {n i j}, n < w * h → i < t.across → j < t.down →
        t.under w (t.cell w n) i j < w * h := fun hn hi hj =>
      Subsampling.under_lt htw hth (Subsampling.cell_lt htw hth hn) hi hj
    cases g with
    | none =>
      intro n hn
      refine (Subsampling.mean_congr fun i hi j hj => ?_).trans (t.mean_const neutral)
      exact hv _ (hunder hn hi hj)
    | some s =>
      intro n hn n' hn' hcell
      refine Subsampling.mean_congr fun i hi j hj => ?_
      exact hv _ (hunder hn hi hj) _ (hunder hn' hi hj)
        (cell_of_under (hg s rfl).1 htw hw hcell hi hj)

/-- What is left through a grid is steady there. -/
theorem steady_of_smooth (hv : ∀ n < w * h, smooth g w v n = v n) : Steady g w h v := by
  cases g with
  | none => exact fun n hn => (hv n hn).symm
  | some s =>
    intro n hn n' hn' hcell
    rw [← hv n hn, ← hv n' hn', smooth, smooth, hcell]

end Grids

section Frames

variable {f g : Format} {w h : Nat} {px : Nat → Pixel} {x : FrameBytes}

theorem Fit.divides (hf : Fit f w h) : Divides f.grid? w h := by
  intro s hs
  rw [Format.grid?] at hs
  split at hs
  · rename_i hl
    cases hs
    exact ⟨hf.across_dvd hl, hf.down_dvd hl⟩
  · rename_i hl
    cases hs
    exact ⟨hf.even hl, one_dvd h⟩
  · cases hs
  · cases hs

theorem content_yuv (hf : f.isYuv = true) : f.content = f.grid?.elim .luma .chroma := by
  cases f <;> first | rfl | cases hf

/-- A YUV frame is drawn with means. -/
theorem chromaOf_yuv (hpx : ∀ n, (px n).isRgb = false) (s : Subsampling) (w : Nat)
    (channel : Pixel → UInt8) (c : Nat) :
    chromaOf s w channel px c = s.mean fun i j => channel (px (s.under w c i j)) := by
  rw [chromaOf, if_neg (by simp [hpx])]

/-- A format with a grid is YUV. -/
theorem Format.isYuv_of_grid {s : Subsampling} (hs : f.grid? = some s) : f.isYuv = true := by
  revert hs
  cases f <;> simp [Format.grid?, Format.layout, Format.isYuv, Format.code]

/-- **What a YUV format keeps of pixels:** their luma, and chroma through its grid. -/
theorem kept_yuv (hf : f.isYuv = true) (hpx : ∀ n, (px n).isRgb = false) (w n : Nat) :
    f.content.kept w px n = .yuv (px n).luma (smooth f.grid? w (fun n => (px n).u) n)
      (smooth f.grid? w (fun n => (px n).v) n) := by
  rw [content_yuv hf]
  cases f.grid? with
  | none => rfl
  | some s => simp only [Option.elim, Content.kept, smooth, chromaOf_yuv hpx]

/-- And it is YUV that is left. -/
theorem isRgb_kept (hf : f.isYuv = true) (hpx : ∀ n, (px n).isRgb = false) (w n : Nat) :
    (f.content.kept w px n).isRgb = false := by
  rw [kept_yuv hf hpx]
  rfl

/-- **On the way back nothing is lost:** what `g` left of pixels that `f` keeps, `f` keeps. -/
theorem kept_kept (hf : f.isYuv = true) (hg : g.isYuv = true) (hff : Fit f w h) (hfg : Fit g w h)
    (hpx : ∀ n, (px n).isRgb = false) (hkept : ∀ n < w * h, f.content.kept w px n = px n)
    {n : Nat} (hn : n < w * h) :
    f.content.kept w (g.content.kept w px) n = g.content.kept w px n := by
  have hyuv := isRgb_kept hg hpx w
  have hleft : ∀ n < w * h, .yuv (px n).luma (smooth f.grid? w (fun n => (px n).u) n)
      (smooth f.grid? w (fun n => (px n).v) n) = px n := by
    intro n hn
    rw [← kept_yuv hf hpx]
    exact hkept n hn
  -- so its chroma is steady, and through `g` still is
  have hu : Steady f.grid? w h fun n => (px n).u :=
    steady_of_smooth fun n hn => congrArg Pixel.u (hleft n hn)
  have hv : Steady f.grid? w h fun n => (px n).v :=
    steady_of_smooth fun n hn => congrArg Pixel.v (hleft n hn)
  have hstill : ∀ {v : Nat → UInt8}, Steady f.grid? w h v →
      smooth f.grid? w (smooth g.grid? w v) n = smooth g.grid? w v n := fun hv =>
    smooth_of_steady hff.divides hff.1 (steady_smooth hff.divides hfg.divides hff.1 hv) hn
  have hku : (fun n => (g.content.kept w px n).u) = smooth g.grid? w fun n => (px n).u :=
    funext fun n => by rw [kept_yuv hg hpx]; rfl
  have hkv : (fun n => (g.content.kept w px n).v) = smooth g.grid? w fun n => (px n).v :=
    funext fun n => by rw [kept_yuv hg hpx]; rfl
  rw [kept_yuv hf hyuv, hku, hkv, hstill hu, hstill hv, kept_yuv hg hpx]
  rfl

/-- The frame in `f` after a round trip by way of `g`. -/
def roundTrip (f g : Format) (w : Nat) (x : FrameBytes) : FrameBytes :=
  Layout.translated g.layout f.layout w (Layout.translated f.layout g.layout w x)

/-- **After a round trip the same frame goes out again.** -/
theorem translated_roundTrip (hf : f.isYuv = true) (hg : g.isYuv = true) (hff : Fit f w h)
    (hfg : Fit g w h) (x : FrameBytes) {i j : Nat} (hi : i < g.planeCount)
    (hj : j < g.planeSize w h i) :
    Layout.translated f.layout g.layout w (roundTrip f g w x) i j =
      Layout.translated f.layout g.layout w x i j := by
  have hpx : ∀ n, (f.layout.view w x n).isRgb = false := isRgb_view hf w x
  calc Layout.translated f.layout g.layout w (roundTrip f g w x) i j
      = g.layout.draw w (f.content.kept w (g.content.kept w (f.layout.view w x))) i j := by
        rw [roundTrip, translated_translated hff, Layout.translated, view_draw hfg]
    _ = g.layout.draw w (g.content.kept w (f.layout.view w x)) i j :=
        draw_congr hfg (fun n hn => kept_kept hf hg hff hfg hpx (fun n hn => kept_view hff x hn) hn)
          hi hj
    _ = Layout.translated f.layout g.layout w x i j := draw_kept hfg _ hi hj

/-- **And comes back as it went.** -/
theorem roundTrip_roundTrip (hf : f.isYuv = true) (hg : g.isYuv = true) (hff : Fit f w h)
    (hfg : Fit g w h) (x : FrameBytes) {i j : Nat} (hi : i < f.planeCount)
    (hj : j < f.planeSize w h i) :
    roundTrip f g w (roundTrip f g w x) i j = roundTrip f g w x i j :=
  translated_congr hfg hff (fun _ hk _ hl => translated_roundTrip hf hg hff hfg x hk hl) hi hj

/-- The formats of `n` round trips from `f` by way of `g`. -/
def roundTrips (f g : Format) : Nat → List Format
  | 0 => []
  | n + 1 => g :: f :: roundTrips f g n

theorem getLastD_roundTrips (f g : Format) (n : Nat) : (roundTrips f g n).getLastD f = f := by
  induction n with
  | zero => rfl
  | succ n ih => rw [roundTrips, List.getLastD_cons, List.getLastD_cons, ih]

/-- More round trips do what one has done. -/
theorem along_roundTrips (hf : f.isYuv = true) (hg : g.isYuv = true) (hff : Fit f w h)
    (hfg : Fit g w h) (n : Nat) : ∀ x, ∀ i < f.planeCount, ∀ j < f.planeSize w h i,
      along w f x (roundTrips f g (n + 1)) i j = roundTrip f g w x i j := by
  induction n with
  | zero => exact fun _ _ _ _ _ => rfl
  | succ n ih =>
    intro x i hi j hj
    exact (ih (roundTrip f g w x) i hi j hj).trans
      (roundTrip_roundTrip hf hg hff hfg x hi hj)

/-- And the frame on the way is the same every time. -/
theorem along_roundTrips_there (hf : f.isYuv = true) (hg : g.isYuv = true) (hff : Fit f w h)
    (hfg : Fit g w h) (n : Nat) : ∀ x, ∀ i < g.planeCount, ∀ j < g.planeSize w h i,
      along w f x (roundTrips f g n ++ [g]) i j =
        Layout.translated f.layout g.layout w x i j := by
  induction n with
  | zero => exact fun _ _ _ _ _ => rfl
  | succ n ih =>
    intro x i hi j hj
    exact (ih (roundTrip f g w x) i hi j hj).trans
      (translated_roundTrip hf hg hff hfg x hi hj)

end Frames

namespace Engine

/-- **No generation drift.**  Round trips from a YUV format by way of another, however many,
each leg into other planes or where the frame stands, end with the frame in `f` that one
round trip ends with; and on every pass the frame in `g` is the one of the first. -/
theorem no_generation_drift (m : Mask) {f g : Format} (hf : f.isYuv = true) (hg : g.isYuv = true)
    (w h : UInt32) (hff : Fit f w.toNat h.toNat) (hfg : Fit g w.toNat h.toNat) (src : List Plane)
    (hs : Holds f w.toNat h.toNat src) (n : Nat) :
    (∀ once more, once.map Leg.target = roundTrips f g 1 →
      more.map Leg.target = roundTrips f g (n + 1) →
      Ready (build m) w.toNat h.toNat f once → Ready (build m) w.toNat h.toNat f more →
        (build m).EndAlike w.toNat h.toNat f src f once more) ∧
      ∀ once more, once.map Leg.target = [g] → more.map Leg.target = roundTrips f g n ++ [g] →
        Ready (build m) w.toNat h.toNat f once → Ready (build m) w.toNat h.toNat f more →
          (build m).EndAlike w.toNat h.toNat f src g once more := by
  have hw := w.toNat_lt
  have hh := h.toNat_lt
  constructor
  · intro once more honce hmore hr hr'
    apply endAlike_of_along hw hh hff hs hr hr'
    · rw [honce, getLastD_roundTrips]
    · rw [hmore, getLastD_roundTrips]
    · rw [honce, hmore]
      intro i hi j hj
      exact (along_roundTrips hf hg hff hfg n _ i hi j hj).symm
  · intro once more honce hmore hr hr'
    apply endAlike_of_along hw hh hff hs hr hr'
    · rw [honce, List.getLastD_cons, List.getLastD_nil]
    · rw [hmore, List.getLastD_concat]
    · rw [honce, hmore]
      intro i hi j hj
      exact (along_roundTrips_there hf hg hff hfg n _ i hi j hj).symm

/-- A frame of `YUV420P` against `YUV411P`, each of which averages where the other replicates:
two round trips, and the second pass through `YUV411P`. -/
theorem yuv420p_against_yuv411p :
    (build .detected).EndAlike 4 2 .yuv420p
      [#[16, 81, 145, 235, 1, 2, 3, 4], #[90, 240], #[34, 110]] .yuv420p
      [.fresh .yuv411p [.replicate 8 0, #[0, 0], #[0, 0]],
        .fresh .yuv420p [.replicate 8 0, #[0, 0], #[0, 0]]]
      [.fresh .yuv411p [.replicate 8 0, #[0, 0], #[0, 0]],
        .fresh .yuv420p [.replicate 8 0, #[0, 0], #[0, 0]],
        .fresh .yuv411p [.replicate 8 0, #[0, 0], #[0, 0]],
        .fresh .yuv420p [.replicate 8 0, #[0, 0], #[0, 0]]] ∧
    (build .detected).EndAlike 4 2 .yuv420p
      [#[16, 81, 145, 235, 1, 2, 3, 4], #[90, 240], #[34, 110]] .yuv411p
      [.fresh .yuv411p [.replicate 8 0, #[0, 0], #[0, 0]]]
      [.fresh .yuv411p [.replicate 8 0, #[0, 0], #[0, 0]],
        .fresh .yuv420p [.replicate 8 0, #[0, 0], #[0, 0]],
        .fresh .yuv411p [.replicate 8 0, #[0, 0], #[0, 0]]] := by
  have hthere : (Leg.fresh .yuv411p [.replicate 8 0, #[0, 0], #[0, 0]]).Ready
      (build .detected) 4 2 .yuv420p := .fresh rfl (by decide) (by decide)
  have hback : (Leg.fresh .yuv420p [.replicate 8 0, #[0, 0], #[0, 0]]).Ready
      (build .detected) 4 2 .yuv411p := .fresh rfl (by decide) (by decide)
  obtain ⟨hsame, hpass⟩ := no_generation_drift .detected (f := .yuv420p) (g := .yuv411p) rfl rfl
    4 2 (by decide) (by decide) [#[16, 81, 145, 235, 1, 2, 3, 4], #[90, 240], #[34, 110]]
    (by decide) 1
  exact ⟨hsame _ _ rfl rfl ⟨hthere, hback, trivial⟩ ⟨hthere, hback, hthere, hback, trivial⟩,
    hpass _ _ rfl rfl ⟨hthere, trivial⟩ ⟨hthere, hback, hthere, trivial⟩⟩

end Engine
end FrameConvert
