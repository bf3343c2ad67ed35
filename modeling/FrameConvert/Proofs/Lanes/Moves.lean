/-
# Planes moved unit by unit

Some formats differ in the order of the bytes of a unit alone: of a word of four bytes, or of a
pixel of three.  Converting between them is moving a plane, byte `j` of the result from byte
`source j`, which is in the same unit.  A step moves the next few units (`MovesNext`), one or a
block of them, and a way of moving a plane is a run of steps (`MovesNext.run`), or a run of large
ones and then one of smaller ones for what is left.  What a way comes to is one of these:

| into another plane | where it stands | a plane of |
| --- | --- | --- |
| `MovesUnits` | `MovesUnitsInPlace` | any length: its whole units, and the bytes behind them stay |
| `Moves` | `MovesInPlace` | whole units |

So two ways of moving the same units are one (`MovesUnits.eq`), and where a frame is made of units
(`Reorders`), moving it translates the formats (`wholePlane_translates`).
-/

import FrameConvert.Proofs.Translates
import FrameConvert.Method

namespace FrameConvert

/-- A whole plane is moved into another, byte `j` from byte `source j`. -/
def Moves (unit : Nat) (source : Nat → Nat) (move : Plane → Plane → Checked Plane) : Prop :=
  ∀ (n : Nat) (p q : Plane), unit ∣ n → n < 0x10000000000000000 → p.size = n → q.size = n →
    Yields (move p q) (q.Overwritten n fun j => p.byte (source j))

/-- A whole plane is moved where it stands, byte `j` from byte `source j`. -/
def MovesInPlace (unit : Nat) (source : Nat → Nat) (move : Plane → Checked Plane) : Prop :=
  ∀ (n : Nat) (p : Plane), unit ∣ n → n < 0x10000000000000000 → p.size = n →
    Yields (move p) (p.Overwritten n fun j => p.byte (source j))

/-- The whole units of a plane are moved into another of its length, byte `j` from byte `source j`;
the fewer bytes than a unit that are left behind them stay. -/
def MovesUnits (unit : Nat) (source : Nat → Nat) (move : Plane → Plane → Checked Plane) : Prop :=
  ∀ (n : Nat) (p q : Plane), n < 0x10000000000000000 → p.size = n → q.size = n →
    Yields (move p q) (q.Overwritten (n / unit * unit) fun j => p.byte (source j))

/-- The whole units of a plane are moved where they stand, byte `j` from byte `source j`. -/
def MovesUnitsInPlace (unit : Nat) (source : Nat → Nat) (move : Plane → Checked Plane) : Prop :=
  ∀ (n : Nat) (p : Plane), n < 0x10000000000000000 → p.size = n →
    Yields (move p) (p.Overwritten (n / unit * unit) fun j => p.byte (source j))

/-- A step moves the next `k` bytes, which begin with a whole unit, of a plane `p` that still has
those of `x` there. -/
def MovesNext (unit k : Nat) (source : Nat → Nat) (step : Nat → Plane → Plane → Checked Plane) :
    Prop :=
  ∀ (o : Nat) (x : Nat → UInt8) (p q r : Plane), unit ∣ o → o + k ≤ p.size →
    p.size < 0x10000000000000000 → (∀ i < k, p.byte (o + i) = x (o + i)) → o + k ≤ q.size →
    q.Overwritten o (fun j => x (source j)) r →
      Yields (step o p r) (q.Overwritten (o + k) fun j => x (source j))

/-- Frames in `b` are those in `a` with byte `j` from byte `source j`. -/
structure Reorders (a b : Format) (unit : Nat) (source : Nat → Nat) : Prop where
  source_count : a.planeCount = 1
  target_count : b.planeCount = 1
  bytes : b.bytesPerPixel = a.bytesPerPixel
  whole : ∀ w h, Fit a w h → unit ∣ w * h * a.bytesPerPixel
  byte : ∀ w h, Fit a w h → ∀ (x : Nat → UInt8) (j : Nat),
    Layout.translated a.layout b.layout w (fun _ => x) 0 j = x (source j)

section Runs

variable {unit k n o : Nat} {source place : Nat → Nat} {p q r : Plane}
  {step : Nat → Plane → Plane → Checked Plane}

/-- None of `n` tiles goes further than all of them. -/
theorem tile_le {i : Nat} (hi : i < n) : o + i * k + k ≤ o + n * k := by
  have hend := row_end (w := k) hi
  rw [Nat.succ_mul, Nat.mul_comm k n] at hend
  omega

/-- **A run of steps,** from one plane into another of its length. -/
theorem MovesNext.run (hstep : MovesNext unit k source step) (hk : unit ∣ k) (ho : unit ∣ o)
    (hplace : ∀ i, place i = o + i * k) (hn : o + n * k ≤ p.size) (hsize : p.size = q.size)
    (hlt : p.size < 0x10000000000000000) (hr : q.Overwritten o (fun j => p.byte (source j)) r) :
    Yields (sweep n (fun i t => do step (← size (place i)) p t) r)
      (q.Overwritten (o + n * k) fun j => p.byte (source j)) := by
  refine hr.tiles fun i t hi ht => ?_
  have hin := tile_le (o := o) (k := k) hi
  rw [hplace]
  refine yields_bind_ok (size_eq_ok (by omega)) ?_
  exact hstep _ _ _ _ _ (dvd_add ho (hk.mul_left i)) (by omega) hlt (fun _ _ => rfl) (by omega) ht

/-- A run of steps where a plane stands: what they read is not overwritten yet. -/
theorem MovesNext.runInPlace (hstep : MovesNext unit k source step) (hk : unit ∣ k) (ho : unit ∣ o)
    (hplace : ∀ i, place i = o + i * k) (hn : o + n * k ≤ p.size)
    (hlt : p.size < 0x10000000000000000) (hr : p.Overwritten o (fun j => p.byte (source j)) r) :
    Yields (sweep n (fun i t => do step (← size (place i)) t t) r)
      (p.Overwritten (o + n * k) fun j => p.byte (source j)) := by
  refine hr.tiles fun i t hi ht => ?_
  have hin := tile_le (o := o) (k := k) hi
  have hts := ht.size
  rw [hplace]
  refine yields_bind_ok (size_eq_ok (by omega)) ?_
  exact hstep _ _ _ _ _ (dvd_add ho (hk.mul_left i)) (by omega) (by omega)
    (fun j _ => ht.above (by omega)) (by omega) ht

end Runs

section Units

variable {unit : Nat} {source : Nat → Nat}

/-- Where there are whole units alone, all of the plane is moved. -/
theorem MovesUnits.moves {move : Plane → Plane → Checked Plane}
    (h : MovesUnits unit source move) : Moves unit source move := by
  intro n p q hunit hlt hp hq
  exact (h n p q hlt hp hq).mono fun r hr => hr.of_eq (Nat.div_mul_cancel hunit)

theorem MovesUnitsInPlace.movesInPlace {move : Plane → Checked Plane}
    (h : MovesUnitsInPlace unit source move) : MovesInPlace unit source move := by
  intro n p hunit hlt hp
  exact (h n p hlt hp).mono fun r hr => hr.of_eq (Nat.div_mul_cancel hunit)

/-- **Two ways of moving the same units** are one, whatever the length. -/
theorem MovesUnits.eq {f g : Plane → Plane → Checked Plane} (hf : MovesUnits unit source f)
    (hg : MovesUnits unit source g) {p q : Plane} (hsize : p.size = q.size)
    (hlt : q.size < 0x10000000000000000) : f p q = g p q := by
  obtain ⟨r, hr, hrq⟩ := hf _ p q hlt hsize rfl
  obtain ⟨t, ht, htq⟩ := hg _ p q hlt hsize rfl
  rw [hr, ht, hrq.unique htq]

theorem MovesUnitsInPlace.eq {f g : Plane → Checked Plane} (hf : MovesUnitsInPlace unit source f)
    (hg : MovesUnitsInPlace unit source g) {p : Plane} (hlt : p.size < 0x10000000000000000) :
    f p = g p := by
  obtain ⟨r, hr, hrp⟩ := hf _ p hlt rfl
  obtain ⟨t, ht, htp⟩ := hg _ p hlt rfl
  rw [hr, ht, hrp.unique htp]

/-- **Moved there and back** inside its units, a plane is what it was. -/
theorem MovesUnitsInPlace.back {f g : Plane → Checked Plane} {there back : Nat → Nat}
    (hf : MovesUnitsInPlace unit there f) (hg : MovesUnitsInPlace unit back g)
    (hinside : ∀ m j, j < m * unit → back j < m * unit) (hback : ∀ j, there (back j) = j)
    {p r : Plane} (hlt : p.size < 0x10000000000000000) (hr : f p = .ok r) : g r = .ok p := by
  obtain ⟨r', hr', hrp⟩ := hf _ p hlt rfl
  obtain rfl := Except.ok.inj (hr.symm.trans hr')
  obtain ⟨t, ht, htr⟩ := hg _ r hlt hrp.size
  rw [ht]
  refine congrArg Except.ok (Plane.ext_byte (htr.size.trans hrp.size) fun j _ => ?_)
  by_cases hj : j < p.size / unit * unit
  · rw [htr.below hj, hrp.below (hinside _ j hj), hback]
  · rw [htr.above (Nat.not_lt.1 hj), hrp.above (Nat.not_lt.1 hj)]

end Units

section WholePlane

variable {a b : Format} {unit : Nat} {source : Nat → Nat}

/-- **Moving the whole plane translates** formats that differ in the order of bytes. -/
theorem wholePlane_translates {move : Plane → Plane → Checked Plane}
    (hr : Reorders a b unit source) (hm : Moves unit source move) :
    Translates (Method.wholePlane a move) a b := by
  intro src dst w h hv
  have ha : a.planeSize w h 0 = w * h * a.bytesPerPixel := rfl
  have hb : b.planeSize w h 0 = w * h * a.bytesPerPixel := by
    rw [← hr.bytes]
    rfl
  have hac := hr.source_count
  have hsmall := hv.small
  have hle := Nat.mul_le_mul_left (w * h) a.bytesPerPixel_le
  have hsrc := hv.src.size 0 (by omega)
  refine yields_bind_ok (size_eq_ok (by omega)) ?_
  refine yields_bind_ok (planeOf_eq_ok (hv.src.getElem? (by omega))) ?_
  refine (Plane.yields_front (by omega)).bind fun p hp => ?_
  obtain ⟨hps, hpb⟩ := hp
  refine yields_toFront hv hac hr.target_count ha hb hpb fun q hq => ?_
  refine (hm _ p q (hr.whole w h hv.source) (by omega) hps hq).mono
    fun t ht => ht.congr fun j _ => ?_
  exact (hr.byte w h hv.source p.byte j).symm

/-- Moving it where it stands reworks them. -/
theorem wholePlaneInPlace_reworks {move : Plane → Checked Plane} (hr : Reorders a b unit source)
    (hm : MovesInPlace unit source move) : Reworks (Method.wholePlaneInPlace a move) a b := by
  intro planes w h hv
  have hb : b.planeSize w h 0 = w * h * a.bytesPerPixel := by
    rw [← hr.bytes]
    rfl
  have hsmall := hv.small
  have hle := Nat.mul_le_mul_left (w * h) a.bytesPerPixel_le
  refine yields_bind_ok (size_eq_ok (by omega)) ?_
  refine yields_onOwnFront hv hr.source_count hr.target_count rfl hb fun p hp => ?_
  refine (hm _ p (hr.whole w h hv.source) (by omega) hp).mono fun t ht => ht.congr fun j _ => ?_
  exact (hr.byte w h hv.source p.byte j).symm

end WholePlane

section Layouts

variable {a b : Format} {source pick : Nat → Nat}

/-- Macro pixels differ in the order of their bytes. -/
theorem reorders_packed {o k : MacroOrder} (ha : a.layout = .packed o) (hb : b.layout = .packed k)
    (hs : ∀ m i, i < 4 → source (4 * m + i) = 4 * m + pick i)
    (hp : ∀ (x : Nat → UInt8) (i : Nat), i < 4 →
      (k.word (x o.y₀) (x o.y₁) (x o.u) (x o.v)).getD i 0 = x (pick i)) :
    Reorders a b 4 source where
  source_count := Format.planeCount_packed ha
  target_count := Format.planeCount_packed hb
  bytes := by simp only [Format.bytesPerPixel_eq_layout, Layout.bytesPerPixel, ha, hb]
  whole w h hf := by
    obtain ⟨v, hv⟩ := hf.even ha
    refine ⟨v * h, ?_⟩
    simp only [Format.bytesPerPixel_eq_layout, Layout.bytesPerPixel, ha]
    rw [hv]
    ring
  byte w h hf x j := by
    have hi := Nat.mod_lt j (by decide : 0 < 4)
    rw [ha, hb, Layout.translated, ← Nat.div_add_mod j 4, draw_packed k w _ _ hi,
      macroOf_packed (hf.even ha), hs _ _ hi]
    exact hp (fun i => x (4 * (j / 4) + i)) _ hi

/-- Colour pixels differ in the order of their bytes. -/
theorem reorders_colour {o k : PixelOrder} {unit : Nat} (ha : a.layout = .pixels (.colour o))
    (hb : b.layout = .pixels (.colour k)) (ho : o.channels = unit) (hk : k.channels = unit)
    (hs : ∀ m i, i < unit → source (unit * m + i) = unit * m + pick i)
    (hp : ∀ (x : Nat → UInt8) (i : Nat), i < unit →
      (k.bytes ⟨x o.r, x o.g, x o.b⟩ ((o.alpha?.map x).getD 0)).getD i 0 = x (pick i)) :
    Reorders a b unit source where
  source_count := Format.planeCount_pixels ha
  target_count := Format.planeCount_pixels hb
  bytes := by
    simp only [Format.bytesPerPixel_eq_layout, Layout.bytesPerPixel, ha, hb, PixelLayout.channels,
      ho, hk]
  whole w h hf := by
    simp only [Format.bytesPerPixel_eq_layout, Layout.bytesPerPixel, ha, PixelLayout.channels, ho]
    exact Nat.dvd_mul_left unit (w * h)
  byte w h hf x j := by
    have hpos : 0 < unit := ho ▸ PixelLayout.channels_pos (.colour o)
    have hi := Nat.mod_lt j hpos
    have hdraw := draw_pixels (.colour k) w (Layout.view (.pixels (.colour o)) w fun _ => x)
      (j / unit) (i := j % unit) (hk.symm ▸ hi)
    have hj : j / unit * (PixelLayout.colour k).channels + j % unit = j := by
      rw [PixelLayout.channels, hk, Nat.mul_comm, Nat.div_add_mod]
    rw [hj] at hdraw
    rw [ha, hb, Layout.translated, hdraw, Layout.view, PixelLayout.bytesFor, Pixel.colour,
      Pixel.alpha, PixelLayout.colourIn, PixelLayout.alphaIn, PixelLayout.channels, ho,
      Nat.mul_comm (j / unit), hp (fun i => x (unit * (j / unit) + i)) _ hi, ← hs _ _ hi,
      Nat.div_add_mod]

end Layouts

end FrameConvert
