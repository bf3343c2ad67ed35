/-
# Frames as lists of planes

`Holds f w h planes` says that the planes are enough for a frame: there are as many
as the format has, and each has its size.  That is what the plane check accepts
(`checkPlanes_eq_ok_iff`).

`Overwrites f w h F dst out` says what a conversion leaves behind: the planes `out`
are those of `dst`, except that byte `j` of plane `i` of the frame is `F i j`.
Surplus planes and bytes behind the frame are the old ones, because planes that the
format does not have are of size `0`.  Of the frame alone, `Carries f w h F out` says
that it is `F`; what else the planes hold does not matter there.
-/

import FrameConvert.Geometry
import FrameConvert.Proofs.Overwrite

namespace FrameConvert

/-- Plane `i` of a frame; no bytes where there is none. -/
def planeAt (planes : List Plane) (i : Nat) : Plane := planes.getD i #[]

theorem getElem?_eq_planeAt {planes : List Plane} {i : Nat} (h : i < planes.length) :
    planes[i]? = some (planeAt planes i) := by
  rw [planeAt, List.getD_eq_getElem?_getD, List.getElem?_eq_getElem h, Option.getD_some]

theorem planeAt_of_le {planes : List Plane} {i : Nat} (h : planes.length ≤ i) :
    planeAt planes i = #[] := by
  rw [planeAt, List.getD_eq_getElem?_getD, List.getElem?_eq_none h, Option.getD_none]

theorem planeAt_set {planes : List Plane} {i j : Nat} {p : Plane} (h : i < planes.length) :
    planeAt (planes.set i p) j = if i = j then p else planeAt planes j := by
  rw [planeAt, planeAt, List.getD_eq_getElem?_getD, List.getD_eq_getElem?_getD, List.getElem?_set]
  by_cases hij : i = j
  · rw [if_pos hij, if_pos hij, if_pos (hij ▸ h), Option.getD_some]
  · rw [if_neg hij, if_neg hij]

/-- The planes are enough for a frame. -/
structure Holds (f : Format) (w h : Nat) (planes : List Plane) : Prop where
  count : f.planeCount ≤ planes.length
  size : ∀ i < f.planeCount, f.planeSize w h i ≤ (planeAt planes i).size

instance (f : Format) (w h : Nat) (planes : List Plane) : Decidable (Holds f w h planes) :=
  decidable_of_iff (f.planeCount ≤ planes.length ∧
      ∀ i < f.planeCount, f.planeSize w h i ≤ (planeAt planes i).size)
    ⟨fun hp => ⟨hp.1, hp.2⟩, fun hp => ⟨hp.count, hp.size⟩⟩

/-- Two lists of planes have the same bytes where the frame is. -/
def SameFrame (f : Format) (w h : Nat) (xs ys : List Plane) : Prop :=
  ∀ i < f.planeCount, ∀ j < f.planeSize w h i, (planeAt xs i).byte j = (planeAt ys i).byte j

instance (f : Format) (w h : Nat) (xs ys : List Plane) : Decidable (SameFrame f w h xs ys) :=
  inferInstanceAs (Decidable (∀ i < f.planeCount, ∀ j < f.planeSize w h i, _))

/-- Plane `i` has its first `n` bytes replaced; the other planes are kept. -/
def Replaces (planes : List Plane) (i n : Nat) (F : Nat → UInt8) (out : List Plane) : Prop :=
  ∃ q, (planeAt planes i).Overwritten n F q ∧ out = planes.set i q

/-- The planes are those of `dst`, except that the frame is `F`. -/
structure Overwrites (f : Format) (w h : Nat) (F : Nat → Nat → UInt8) (dst out : List Plane) :
    Prop where
  length : out.length = dst.length
  plane : ∀ i < dst.length,
    (planeAt dst i).Overwritten (f.planeSize w h i) (F i) (planeAt out i)

/-- The planes hold the frame `F`. -/
structure Carries (f : Format) (w h : Nat) (F : Nat → Nat → UInt8) (planes : List Plane) :
    Prop where
  holds : Holds f w h planes
  byte : ∀ i < f.planeCount, ∀ j < f.planeSize w h i, (planeAt planes i).byte j = F i j

/-- Nothing but the frame has changed: bytes behind it and surplus planes are as before. -/
structure KeepsRest (f : Format) (w h : Nat) (before after : List Plane) : Prop where
  length : after.length = before.length
  size : ∀ i, (planeAt after i).size = (planeAt before i).size
  behind : ∀ i j, f.planeSize w h i ≤ j → (planeAt after i).byte j = (planeAt before i).byte j
  surplus : ∀ i, f.planeCount ≤ i → planeAt after i = planeAt before i

variable {f : Format} {w h : Nat} {planes dst out : List Plane} {F G : Nat → Nat → UInt8}

theorem Format.planeCount_pos (f : Format) : 0 < f.planeCount := by
  rw [Format.planeCount]
  split <;> decide

theorem Format.planeSize_of_le {i : Nat} (hi : f.planeCount ≤ i) : f.planeSize w h i = 0 := by
  have hc := f.planeCount_pos
  rw [Format.planeSize, if_neg (by omega), if_neg (by omega)]

section Layout

variable {s : Subsampling} {o : ChromaOrder} {k : MacroOrder} {l : PixelLayout}

theorem Format.planeCount_chroma (hf : f.layout = .planar (.chroma s o)) : f.planeCount = 3 := by
  simp [Format.planeCount, Format.isPlanar, Format.family_eq_layout, Layout.family, hf]

theorem Format.planeCount_luma (hf : f.layout = .planar .luma) : f.planeCount = 1 := by
  simp [Format.planeCount, Format.isPlanar, Format.family_eq_layout, Layout.family, hf]

theorem Format.planeCount_packed (hf : f.layout = .packed k) : f.planeCount = 1 := by
  simp [Format.planeCount, Format.isPlanar, Format.family_eq_layout, Layout.family, hf]

theorem Format.planeCount_pixels (hf : f.layout = .pixels l) : f.planeCount = 1 := by
  cases l <;> simp [Format.planeCount, Format.isPlanar, Format.family_eq_layout, Layout.family, hf]

theorem Format.planeSize_zero_planar {p : PlanarLayout} (hf : f.layout = .planar p) :
    f.planeSize w h 0 = w * h := by
  simp [Format.planeSize, Format.bytesPerPixel_eq_layout, Layout.bytesPerPixel, hf]

theorem Format.planeSize_zero_packed (hf : f.layout = .packed k) :
    f.planeSize w h 0 = w * h * 2 := by
  simp [Format.planeSize, Format.bytesPerPixel_eq_layout, Layout.bytesPerPixel, hf]

theorem Format.planeSize_zero_pixels (hf : f.layout = .pixels l) :
    f.planeSize w h 0 = w * h * l.channels := by
  simp [Format.planeSize, Format.bytesPerPixel_eq_layout, Layout.bytesPerPixel, hf]

theorem Format.planeSize_chroma (hf : f.layout = .planar (.chroma s o)) {i : Nat}
    (hi : i = 1 ∨ i = 2) : f.planeSize w h i = w / s.across * (h / s.down) := by
  have hc := Format.planeCount_chroma hf
  rw [Format.planeSize, if_neg (by omega), if_pos (by omega)]
  simp [Format.chromaSize, Format.isPlanar, Format.family_eq_layout, Layout.family,
    Format.chromaBlock_eq_layout, Layout.block, hf]

theorem Fit.across_dvd (hg : Fit f w h) (hf : f.layout = .planar (.chroma s o)) :
    s.across ∣ w := by
  simpa [Format.chromaBlock_eq_layout, Layout.block, hf] using hg.2.2.2.1

theorem Fit.down_dvd (hg : Fit f w h) (hf : f.layout = .planar (.chroma s o)) : s.down ∣ h := by
  simpa [Format.chromaBlock_eq_layout, Layout.block, hf] using hg.2.2.2.2

theorem Fit.even (hg : Fit f w h) (hf : f.layout = .packed k) : 2 ∣ w := by
  simpa [Format.chromaBlock_eq_layout, Layout.block, hf] using hg.2.2.2.1

/-- A chroma plane of a frame. -/
theorem Holds.chroma (hp : Holds f w h planes) (hf : f.layout = .planar (.chroma s o)) {i : Nat}
    (hi : i = 1 ∨ i = 2) :
    planes[i]? = some (planeAt planes i) ∧
      w / s.across * (h / s.down) ≤ (planeAt planes i).size := by
  have hc := Format.planeCount_chroma hf
  have hl := hp.count
  have hs := hp.size i (by omega)
  rw [Format.planeSize_chroma hf hi] at hs
  exact ⟨getElem?_eq_planeAt (by omega), hs⟩

theorem ChromaOrder.u_v (o : ChromaOrder) : o.u = 1 ∧ o.v = 2 ∨ o.u = 2 ∧ o.v = 1 := by
  cases o <;> decide

end Layout

theorem Holds.getElem? (hp : Holds f w h planes) {i : Nat} (hi : i < f.planeCount) :
    planes[i]? = some (planeAt planes i) :=
  getElem?_eq_planeAt (Nat.lt_of_lt_of_le hi hp.count)

namespace Replaces

variable {i j n : Nat} {P Q : Nat → UInt8}

theorem length (hr : Replaces planes i n P out) : out.length = planes.length := by
  obtain ⟨q, -, rfl⟩ := hr
  exact List.length_set

theorem congr (hr : Replaces planes i n P out) (hPQ : ∀ k < n, P k = Q k) :
    Replaces planes i n Q out := by
  obtain ⟨q, hq, rfl⟩ := hr
  exact ⟨q, hq.congr hPQ, rfl⟩

theorem plane (hr : Replaces planes i n P out) (hi : i < planes.length) :
    (planeAt planes i).Overwritten n P (planeAt out i) := by
  obtain ⟨q, hq, rfl⟩ := hr
  rwa [planeAt_set hi, if_pos rfl]

theorem plane_of_ne (hr : Replaces planes i n P out) (hi : i < planes.length) (hij : i ≠ j) :
    planeAt out j = planeAt planes j := by
  obtain ⟨q, -, rfl⟩ := hr
  rw [planeAt_set hi, if_neg hij]

theorem holds (hr : Replaces planes i n P out) (hi : i < planes.length)
    (hp : Holds f w h planes) : Holds f w h out := by
  refine ⟨hr.length.symm ▸ hp.count, fun k hk => ?_⟩
  by_cases hik : i = k
  · subst hik
    rw [(hr.plane hi).size]
    exact hp.size i hk
  · rw [hr.plane_of_ne hi hik]
    exact hp.size k hk

/-- Nothing needs to be written for what is there already. -/
theorem refl (planes : List Plane) {i : Nat} (hi : i < planes.length) (n : Nat) :
    Replaces planes i n (planeAt planes i).byte planes := by
  refine ⟨planeAt planes i, ⟨rfl, fun j => by rw [ite_self]⟩, ?_⟩
  refine (List.ext_getElem? fun j => ?_).symm
  rw [List.getElem?_set]
  split
  · rename_i hij
    rw [← hij, getElem?_eq_planeAt hi]
  · rfl

end Replaces

theorem yields_onPlane {i n : Nat} {P : Nat → UInt8} {g : Plane → Checked Plane}
    (hi : i < planes.length)
    (hg : Yields (g (planeAt planes i)) ((planeAt planes i).Overwritten n P)) :
    Yields (onPlane planes i g) (Replaces planes i n P) := by
  obtain ⟨q, hq, hP⟩ := hg
  exact yields_of_eq_ok (onPlane_eq_ok (getElem?_eq_planeAt hi) hq) ⟨q, hP, rfl⟩

namespace Overwrites

/-- A frame that is there already. -/
theorem refl (f : Format) (w h : Nat) (planes : List Plane) :
    Overwrites f w h (fun i => (planeAt planes i).byte) planes planes :=
  ⟨rfl, fun i _ => ⟨rfl, fun j => by rw [ite_self]⟩⟩

/-- A frame of a single plane. -/
theorem of_single (hf : f.planeCount = 1) (hd : Holds f w h dst)
    (hr : Replaces dst 0 (f.planeSize w h 0) (F 0) out) : Overwrites f w h F dst out := by
  have hl := hd.count
  refine ⟨hr.length, fun i hi => ?_⟩
  by_cases h0 : 0 = i
  · subst h0
    exact hr.plane hi
  · rw [hr.plane_of_ne (by omega) h0, Format.planeSize_of_le (by omega)]
    exact .zero _ _

/-- A frame of luma and two chroma planes, whichever of these comes first. -/
theorem of_triple {d₀ d₁ : List Plane} {i j : Nat} (hf : f.planeCount = 3) (hd : Holds f w h dst)
    (hij : i = 1 ∧ j = 2 ∨ i = 2 ∧ j = 1) (h₀ : Replaces dst 0 (f.planeSize w h 0) (F 0) d₀)
    (h₁ : Replaces d₀ i (f.planeSize w h i) (F i) d₁)
    (h₂ : Replaces d₁ j (f.planeSize w h j) (F j) out) : Overwrites f w h F dst out := by
  have hl := hd.count
  have hl₀ := h₀.length
  have hl₁ := h₁.length
  refine ⟨by rw [h₂.length, hl₁, hl₀], fun k hk => ?_⟩
  by_cases hj : j = k
  · subst hj
    have := h₂.plane (by omega)
    rwa [h₁.plane_of_ne (by omega) (by omega), h₀.plane_of_ne (by omega) (by omega)] at this
  · rw [h₂.plane_of_ne (by omega) hj]
    by_cases hi : i = k
    · subst hi
      have := h₁.plane (by omega)
      rwa [h₀.plane_of_ne (by omega) (by omega)] at this
    · rw [h₁.plane_of_ne (by omega) hi]
      by_cases h0 : 0 = k
      · subst h0
        exact h₀.plane hk
      · rw [h₀.plane_of_ne (by omega) h0, Format.planeSize_of_le (by omega)]
        exact .zero _ _

/-- **What overwrites the same planes with the same frame is the same.** -/
theorem unique {out' : List Plane} (ho : Overwrites f w h F dst out)
    (ho' : Overwrites f w h F dst out') : out = out' := by
  refine List.ext_getElem? fun i => ?_
  by_cases hi : i < dst.length
  · rw [getElem?_eq_planeAt (ho.length.symm ▸ hi), getElem?_eq_planeAt (ho'.length.symm ▸ hi),
      (ho.plane i hi).unique (ho'.plane i hi)]
  · rw [List.getElem?_eq_none (by rw [ho.length]; omega),
      List.getElem?_eq_none (by rw [ho'.length]; omega)]

/-- Only the bytes of the frame matter. -/
theorem congr (ho : Overwrites f w h F dst out)
    (hF : ∀ i < f.planeCount, ∀ j < f.planeSize w h i, F i j = G i j) :
    Overwrites f w h G dst out := by
  refine ⟨ho.length, fun i hi => (ho.plane i hi).congr fun j hj => ?_⟩
  by_cases hc : i < f.planeCount
  · exact hF i hc j hj
  · rw [Format.planeSize_of_le (by omega)] at hj
    exact absurd hj (Nat.not_lt_zero j)

/-- A byte of the frame. -/
theorem byte (ho : Overwrites f w h F dst out) (hd : Holds f w h dst) {i j : Nat}
    (hi : i < f.planeCount) (hj : j < f.planeSize w h i) : (planeAt out i).byte j = F i j :=
  (ho.plane i (Nat.lt_of_lt_of_le hi hd.count)).below hj

/-- **Only the frame is overwritten.** -/
theorem keepsRest (ho : Overwrites f w h F dst out) : KeepsRest f w h dst out := by
  have habsent : ∀ i, dst.length ≤ i → planeAt out i = planeAt dst i := by
    intro i hi
    rw [planeAt_of_le hi, planeAt_of_le (ho.length.symm ▸ hi)]
  refine ⟨ho.length, fun i => ?_, fun i j hj => ?_, fun i hi => ?_⟩
  · by_cases hl : i < dst.length
    · exact (ho.plane i hl).size
    · rw [habsent i (by omega)]
  · by_cases hl : i < dst.length
    · exact (ho.plane i hl).above hj
    · rw [habsent i (by omega)]
  · by_cases hl : i < dst.length
    · have hp := ho.plane i hl
      rw [Format.planeSize_of_le hi] at hp
      exact hp.unique (.zero _ _)
    · exact habsent i (by omega)

/-- Planes that held a frame still do. -/
theorem holds {g : Format} (ho : Overwrites f w h F dst out) (hd : Holds g w h dst) :
    Holds g w h out := by
  refine ⟨ho.length.symm ▸ hd.count, fun i hi => ?_⟩
  rw [(ho.plane i (Nat.lt_of_lt_of_le hi hd.count)).size]
  exact hd.size i hi

/-- **What is overwritten is there afterwards.** -/
theorem carries (ho : Overwrites f w h F dst out) (hd : Holds f w h dst) : Carries f w h F out :=
  ⟨ho.holds hd, fun _ hi _ hj => ho.byte hd hi hj⟩

end Overwrites

namespace Carries

theorem congr (hp : Carries f w h F planes)
    (hF : ∀ i < f.planeCount, ∀ j < f.planeSize w h i, F i j = G i j) : Carries f w h G planes :=
  ⟨hp.holds, fun i hi j hj => (hp.byte i hi j hj).trans (hF i hi j hj)⟩

/-- **Equal frames in two lists of planes.** -/
theorem sameFrame {xs ys : List Plane} (hx : Carries f w h F xs) (hy : Carries f w h G ys)
    (hF : ∀ i < f.planeCount, ∀ j < f.planeSize w h i, F i j = G i j) :
    SameFrame f w h xs ys := by
  intro i hi j hj
  rw [hx.byte i hi j hj, hy.byte i hi j hj, hF i hi j hj]

end Carries

theorem checkPlanesFrom_eq_ok_iff (hw : w * h * 4 < 0x10000000000000000) : ∀ {ps : List Plane}
    {i : Nat}, checkPlanesFrom f w h ps i = .ok () ↔
      ∀ j < ps.length, f.planeSize w h (i + j) ≤ (planeAt ps j).size
  | [], i => ⟨fun _ j hj => absurd hj (Nat.not_lt_zero j), fun _ => rfl⟩
  | p :: ps, i => by
    rw [checkPlanesFrom, Format.planeSize64_eq_ok hw, attempt_ok]
    simp only [bind, Except.bind]
    split
    · refine ⟨fun hr => (nomatch hr), fun h => ?_⟩
      have := h 0 (by simp)
      simp only [planeAt, List.getD_cons_zero, Nat.add_zero] at this
      omega
    · rw [checkPlanesFrom_eq_ok_iff hw]
      refine ⟨fun h j hj => ?_, fun h j hj => ?_⟩
      · cases j with
        | zero =>
          simp only [planeAt, List.getD_cons_zero, Nat.add_zero]
          omega
        | succ j =>
          have := h j (by simpa using hj)
          rwa [Nat.add_right_comm, Nat.add_assoc] at this
      · have := h (j + 1) (by simpa using hj)
        rwa [← Nat.add_assoc, Nat.add_right_comm] at this

/-- **The plane check accepts exactly the planes that hold a frame.** -/
theorem checkPlanes_eq_ok_iff (hf : Fit f w h) :
    checkPlanes planes f w h = .ok () ↔ Holds f w h planes := by
  rw [checkPlanes]
  split
  · refine ⟨fun hr => (nomatch hr), fun h => ?_⟩
    have := h.count
    omega
  · have hc : f.planeCount ≤ planes.length := by omega
    have ht : ∀ j < f.planeCount, planeAt (planes.take f.planeCount) j = planeAt planes j := by
      intro j hj
      rw [planeAt, planeAt, List.getD_eq_getElem?_getD, List.getD_eq_getElem?_getD,
        List.getElem?_take, if_pos hj]
    rw [checkPlanesFrom_eq_ok_iff hf.2.2.1, List.length_take, Nat.min_eq_left hc]
    refine ⟨fun h => ⟨hc, fun i hi => ?_⟩, fun h j hj => ?_⟩
    · have := h i hi
      rwa [ht i hi, Nat.zero_add] at this
    · rw [ht j hj, Nat.zero_add]
      exact h.size j hj

end FrameConvert
