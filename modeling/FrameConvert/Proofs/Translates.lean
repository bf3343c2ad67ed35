/-
# What a transfer has to do

A conversion runs once formats, geometry and planes are checked.  `Valid a b w h src
dst` is what the checks leave it with: sides that are 32-bit words, a geometry fit for
both formats, and planes that hold a frame each.  Under that promise

* `Translates T a b` says that the transfer `T` goes through and overwrites `dst` with
  the frame that draws in `b` what `src` shows in `a`;
* `Reworks R a b` says the same of a rework, whose planes are source and target in one.

Both determine the result (`Translates.unique`), so two ways of doing the same are
equal wherever the checks let them run.  Frames of one plane and of three are put
together from their planes by `yields_single` and `Drawn.thenChroma`.
-/

import FrameConvert.Proofs.View

namespace FrameConvert

/-- What the checks promise a transfer. -/
structure Valid (a b : Format) (w h : Nat) (src dst : List Plane) : Prop where
  wide : w < 0x100000000
  high : h < 0x100000000
  source : Fit a w h
  target : Fit b w h
  src : Holds a w h src
  dst : Holds b w h dst

/-- **A transfer translates:** it goes through, and draws in `b` what the source shows
in `a`. -/
def Translates (T : Transfer) (a b : Format) : Prop :=
  ∀ src dst w h, Valid a b w h src dst →
    Yields (T src dst w h)
      (Overwrites b w h (Layout.translated a.layout b.layout w (bytesOf src)) dst)

/-- **A rework translates** the frame that stands in its planes. -/
def Reworks (R : Rework) (a b : Format) : Prop :=
  ∀ planes w h, Valid a b w h planes planes →
    Yields (R planes w h)
      (Overwrites b w h (Layout.translated a.layout b.layout w (bytesOf planes)) planes)

namespace Valid

variable {a b : Format} {w h : Nat} {src dst : List Plane}

theorem width_pos (hv : Valid a b w h src dst) : 0 < w := hv.source.1

/-- Four bytes per pixel are a size. -/
theorem small (hv : Valid a b w h src dst) : w * h * 4 < 0x10000000000000000 :=
  hv.source.2.2.1

end Valid

variable {f : Format} {w h : Nat} {planes dst out out' : List Plane} {F : FrameBytes}

/-- **Two transfers of one pair do the same.** -/
theorem Translates.unique {S T : Transfer} {a b : Format} {src : List Plane}
    (hS : Translates S a b) (hT : Translates T a b) (hv : Valid a b w h src dst) :
    S src dst w h = T src dst w h := by
  obtain ⟨out, hout, ho⟩ := hS src dst w h hv
  obtain ⟨out', hout', ho'⟩ := hT src dst w h hv
  rw [hout, hout', ho.unique ho']

/-- Two reworks of one pair do the same. -/
theorem Reworks.unique {S R : Rework} {a b : Format} (hS : Reworks S a b) (hR : Reworks R a b)
    (hv : Valid a b w h planes planes) : S planes w h = R planes w h := by
  obtain ⟨out, hout, ho⟩ := hS planes w h hv
  obtain ⟨out', hout', ho'⟩ := hR planes w h hv
  rw [hout, hout', ho.unique ho']

/-- Where the source has one plane, the front of that plane is all that is looked at. -/
theorem Overwrites.of_front {a b : Format} {src : List Plane} {p : Plane}
    (hv : Valid a b w h src dst) (hc : a.planeCount = 1)
    (hp : ∀ j < a.planeSize w h 0, p.byte j = (planeAt src 0).byte j)
    (ho : Overwrites b w h (Layout.translated a.layout b.layout w fun _ => p.byte) dst out) :
    Overwrites b w h (Layout.translated a.layout b.layout w (bytesOf src)) dst out := by
  refine ho.congr fun i hi j hj => translated_congr hv.source hv.target (fun k hk l hl => ?_) hi hj
  obtain rfl : k = 0 := by omega
  exact hp l hl

/-- Plane `i` of the frame `F` is drawn, among planes that hold a frame. -/
structure Drawn (f : Format) (w h : Nat) (F : FrameBytes) (i : Nat) (before after : List Plane) :
    Prop where
  replaces : Replaces before i (f.planeSize w h i) (F i) after
  holds : Holds f w h after

/-- One plane of a frame is drawn; what held a frame still does. -/
theorem yields_plane {i n : Nat} {P : Nat → UInt8} {g : Plane → Checked Plane}
    (hp : Holds f w h planes) (hi : i < f.planeCount) (hn : f.planeSize w h i = n)
    (hP : ∀ j < n, P j = F i j)
    (hg : ∀ q : Plane, n ≤ q.size → Yields (g q) (q.Overwritten n P)) :
    Yields (onPlane planes i g) (Drawn f w h F i planes) := by
  subst hn
  have hl := hp.count
  refine (yields_onPlane (by omega) (hg _ (hp.size i hi))).mono fun out hr => ?_
  exact ⟨hr.congr hP, hr.holds (by omega) hp⟩

/-- The two chroma planes after the luma, whichever of them comes first. -/
theorem Drawn.thenChroma {i j : Nat} {d₀ : List Plane} {c₁ c₂ : List Plane → Checked (List Plane)}
    (h₀ : Drawn f w h F 0 dst d₀) (hc : f.planeCount = 3) (hd : Holds f w h dst)
    (hij : i = 1 ∧ j = 2 ∨ i = 2 ∧ j = 1)
    (h₁ : ∀ d, Holds f w h d → Yields (c₁ d) (Drawn f w h F i d))
    (h₂ : ∀ d, Holds f w h d → Yields (c₂ d) (Drawn f w h F j d)) :
    Yields (c₁ d₀ >>= c₂) (Overwrites f w h F dst) := by
  refine (h₁ d₀ h₀.holds).bind fun d₁ hd₁ => ?_
  refine (h₂ d₁ hd₁.holds).mono fun out ho => ?_
  exact .of_triple hc hd hij h₀.replaces hd₁.replaces ho.replaces

/-- A frame of a single plane is overwritten. -/
theorem yields_single {n : Nat} {g : Plane → Checked Plane} (hc : f.planeCount = 1)
    (hp : Holds f w h dst) (hn : f.planeSize w h 0 = n)
    (hg : ∀ q : Plane, n ≤ q.size → Yields (g q) (q.Overwritten n (F 0))) :
    Yields (onPlane dst 0 g) (Overwrites f w h F dst) := by
  refine (yields_plane hp (by omega) hn (fun _ _ => rfl) hg).mono fun out hr => ?_
  exact .of_single hc hp hr.replaces

/-- **A single plane into a single plane:** the front of the one into the front of the
other. -/
theorem yields_toFront {a b : Format} {src : List Plane} {p : Plane} {m n : Nat}
    {body : Plane → Checked Plane} (hv : Valid a b w h src dst) (ha : a.planeCount = 1)
    (hb : b.planeCount = 1) (hm : a.planeSize w h 0 = m) (hn : b.planeSize w h 0 = n)
    (hp : ∀ j < m, p.byte j = (planeAt src 0).byte j)
    (hbody : ∀ q : Plane, q.size = n → Yields (body q)
      (q.Overwritten n (Layout.translated a.layout b.layout w (fun _ => p.byte) 0))) :
    Yields (onPlane dst 0 (onFront n body))
      (Overwrites b w h (Layout.translated a.layout b.layout w (bytesOf src)) dst) := by
  refine Yields.mono ?_ fun out ho => Overwrites.of_front hv ha (hm ▸ hp) ho
  exact yields_single hb hv.dst hn fun q hq => Plane.yields_onFront hq fun s hs _ => hbody s hs

/-- **A single plane where it stands.** -/
theorem yields_onOwnFront {a b : Format} {n : Nat} {body : Plane → Checked Plane}
    (hv : Valid a b w h planes planes) (ha : a.planeCount = 1) (hb : b.planeCount = 1)
    (hm : a.planeSize w h 0 = n) (hn : b.planeSize w h 0 = n)
    (hbody : ∀ p : Plane, p.size = n → Yields (body p)
      (p.Overwritten n (Layout.translated a.layout b.layout w (fun _ => p.byte) 0))) :
    Yields (onPlane planes 0 (onFront n body))
      (Overwrites b w h (Layout.translated a.layout b.layout w (bytesOf planes)) planes) := by
  have hl := hv.dst.count
  have hsize := hv.dst.size 0 (by omega)
  refine (yields_onPlane (by omega) (Plane.yields_onFront (by omega) fun s hs hsb =>
    (hbody s hs).mono fun r hr => hr.congr fun j hj => ?_)).mono
      fun out ho => Overwrites.of_single hb hv.dst (hn.symm ▸ ho)
  refine translated_congr hv.source hv.target (fun i hi k hk => ?_) (by omega) (hn.symm ▸ hj)
  obtain rfl : i = 0 := by omega
  exact hsb k (hm ▸ hk)

section Units

variable {p q : Plane} {px : Nat → Pixel} {bs : List UInt8}

/-- The next macro pixel is drawn. -/
theorem Plane.Overwritten.drawMacro {o : MacroOrder} {m : Nat}
    (hq : p.Overwritten (4 * m) (Layout.draw (.packed o) w px 0) q) (hm : 4 * m + 4 ≤ p.size)
    (hbs : bs = Layout.macroOf o w px m) :
    Yields (q.writeAll (4 * m) bs)
      (p.Overwritten (4 * m + 4) (Layout.draw (.packed o) w px 0)) := by
  have hl : bs.length = 4 := by rw [hbs, Layout.macroOf, MacroOrder.length_word]
  refine (hq.writeAll (by omega) fun i hi => ?_).mono fun r hr => hr.of_eq (by omega)
  rw [draw_packed o w px m (by omega), hbs]

/-- The next pixel is drawn. -/
theorem Plane.Overwritten.drawPixel {l : PixelLayout} {n : Nat}
    (hq : p.Overwritten (n * l.channels) (Layout.draw (.pixels l) w px 0) q)
    (hn : n * l.channels + l.channels ≤ p.size) (hbs : bs = l.bytesFor (px n)) :
    Yields (q.writeAll (n * l.channels) bs)
      (p.Overwritten (n * l.channels + l.channels) (Layout.draw (.pixels l) w px 0)) := by
  have hl : bs.length = l.channels := by rw [hbs, PixelLayout.length_bytesFor]
  refine (hq.writeAll (by omega) fun i hi => ?_).mono fun r hr => hr.of_eq (by omega)
  rw [draw_pixels l w px n (by omega), hbs]

/-- **The next pixels are drawn**, all at once. -/
theorem Plane.Overwritten.drawPixels {l : PixelLayout} (units : List (List UInt8)) : ∀ {q n},
    p.Overwritten (n * l.channels) (Layout.draw (.pixels l) w px 0) q →
    (n + units.length) * l.channels ≤ p.size →
    (∀ (i : Nat) (hi : i < units.length), units[i] = l.bytesFor (px (n + i))) →
    Yields (q.writeAll (n * l.channels) units.flatten)
      (p.Overwritten ((n + units.length) * l.channels) (Layout.draw (.pixels l) w px 0)) := by
  induction units with
  | nil => exact fun hq _ _ => yields_ok hq
  | cons bs units ih =>
    intro q n hq hsize hunits
    have hbs : bs = l.bytesFor (px n) := hunits 0 (by simp)
    have hl : bs.length = l.channels := by rw [hbs, PixelLayout.length_bytesFor]
    have hn : n * l.channels + l.channels = (n + 1) * l.channels := (Nat.succ_mul _ _).symm
    have hlen : n + (bs :: units).length = n + 1 + units.length := by
      rw [List.length_cons]
      omega
    have hle : (n + 1) * l.channels ≤ (n + 1 + units.length) * l.channels :=
      Nat.mul_le_mul_right _ (by omega)
    rw [hlen] at hsize ⊢
    rw [List.flatten_cons, Plane.writeAll_append, hl, hn]
    refine (hq.drawPixel (by omega) hbs).bind fun r hr => ?_
    refine ih (hr.of_eq hn) hsize fun i hi => ?_
    rw [Nat.add_assoc, Nat.add_comm 1 i]
    exact hunits (i + 1) (by simpa using hi)

end Units

end FrameConvert
