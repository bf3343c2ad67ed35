/-
# Journeys of a frame

A journey takes a frame from format to format, one leg after another:

| leg | what becomes of planes with a frame in `a` |
| --- | --- |
| `fresh b dst` | the frame in `b` in the planes `dst` |
| `inPlace b` | the frame in `b` in the same planes |

The first leg that fails ends it.  A leg is ready if its pair is registered and either
its planes are enough for a frame that is fit or the pair works in place.  Where all legs
are ready the journey goes through, and the planes at its end hold the frame translated
leg by leg, `along` (`journey_of_ready`); a step of the induction is `Leg.run_of_ready`.

`e.EndAlike` compares two journeys of one frame: they do if it is translated alike along
both (`endAlike_of_along`).  `e.Invisible w h a b c` compares journeys of two legs by way of
`b` with the conversion that does without; what is drawn on the two ways is `exists_detour`.
-/

import FrameConvert.Proofs.InPlace
import FrameConvert.Proofs.Content

namespace FrameConvert

/-- A leg of a journey: into planes of its own, or where the frame stands. -/
inductive Leg
  | fresh (target : Format) (dst : List Plane)
  | inPlace (target : Format)

namespace Leg

/-- The format that a leg leads to. -/
def target : Leg → Format
  | fresh b _ => b
  | inPlace b => b

/-- What a leg leaves of planes with a frame in `a`. -/
def run (e : Engine) (w h : Nat) (a : Format) (planes : List Plane) : Leg → Outcome (List Plane)
  | fresh b dst => e.convert a b w h planes dst
  | inPlace b => e.convertInPlace a b w h planes

/-- A leg can be taken from format `a`. -/
def Ready (e : Engine) (w h : Nat) (a : Format) : Leg → Prop
  | fresh b dst => e.supports a b = true ∧ Fit b w h ∧ Holds b w h dst
  | inPlace b => ∃ k, e.lookup a b = some k ∧ k.worksInPlace = true

end Leg

namespace Engine

/-- The planes after a journey, from planes with a frame in `a`. -/
def journey (e : Engine) (w h : Nat) (a : Format) (planes : List Plane) :
    List Leg → Outcome (List Plane)
  | [] => ⟨planes, none⟩
  | leg :: legs =>
    match leg.run e w h a planes with
    | ⟨after, none⟩ => journey e w h leg.target after legs
    | failed => failed

/-- Every leg can be taken from where the one before leads. -/
def Ready (e : Engine) (w h : Nat) (a : Format) : List Leg → Prop
  | [] => True
  | leg :: legs => leg.Ready e w h a ∧ Ready e w h leg.target legs

/-- **Format `b` does not show between `a` and `c`:** every journey by way of it ends with the
frame that comes directly. -/
def Invisible (e : Engine) (w h : Nat) (a b c : Format) : Prop :=
  ∀ src dst legs, Holds a w h src → Holds c w h dst → legs.map Leg.target = [b, c] →
    Ready e w h a legs →
      ∃ via direct, e.journey w h a src legs = ⟨via, none⟩ ∧
        e.convert a c w h src dst = ⟨direct, none⟩ ∧ SameFrame c w h via direct

/-- Two journeys of one frame go through, and end with the same frame in `b`. -/
def EndAlike (e : Engine) (w h : Nat) (a : Format) (src : List Plane) (b : Format)
    (legs legs' : List Leg) : Prop :=
  ∃ out out', e.journey w h a src legs = ⟨out, none⟩ ∧ e.journey w h a src legs' = ⟨out', none⟩ ∧
    SameFrame b w h out out'

end Engine

/-- A frame translated along formats, from format `a`. -/
def along (w : Nat) (a : Format) (x : FrameBytes) : List Format → FrameBytes
  | [] => x
  | b :: bs => along w b (Layout.translated a.layout b.layout w x) bs

section Journey

variable {m : Mask} {a b c : Format} {w h : Nat} {planes : List Plane} {x : FrameBytes}

theorem Holds.carries (hp : Holds a w h planes) : Carries a w h (bytesOf planes) planes :=
  ⟨hp, fun _ _ _ _ => rfl⟩

/-- A pair with a method has a kernel for a leg, whatever the mask. -/
theorem Leg.Ready.fresh {dst : List Plane} (hab : (Method.portable? a b).isSome = true)
    (hb : Fit b w h) (hd : Holds b w h dst) : (Leg.fresh b dst).Ready (Engine.build m) w h a :=
  ⟨(Engine.supports_build m a b).trans hab, hb, hd⟩

/-- A leg that is ready leads to a format that the frame is fit for. -/
theorem Leg.fit_of_ready {leg : Leg} (ha : Fit a w h) (hr : leg.Ready (Engine.build m) w h a) :
    Fit leg.target w h := by
  cases leg with
  | fresh b dst => exact hr.2.1
  | inPlace b =>
    obtain ⟨k, hk, hi⟩ := hr
    exact ((Engine.worksInPlace_iff hk).1 hi).sameShape.fit ha

/-- **A leg that is ready goes through,** and translates the frame. -/
theorem Leg.run_of_ready {leg : Leg} (hw : w < 0x100000000) (hh : h < 0x100000000)
    (ha : Fit a w h) (hp : Carries a w h x planes) (hr : leg.Ready (Engine.build m) w h a) :
    ∃ out, leg.run (Engine.build m) w h a planes = ⟨out, none⟩ ∧
      Carries leg.target w h (Layout.translated a.layout leg.target.layout w x) out := by
  have hb := leg.fit_of_ready ha hr
  have hx : ∀ i < leg.target.planeCount, ∀ j < leg.target.planeSize w h i,
      Layout.translated a.layout leg.target.layout w (bytesOf planes) i j =
        Layout.translated a.layout leg.target.layout w x i j :=
    fun i hi j hj => translated_congr ha hb hp.byte hi hj
  cases leg with
  | fresh b dst =>
    obtain ⟨hab, -, hd⟩ := hr
    obtain ⟨out, hout, ho⟩ := Engine.convert_of_valid hab ⟨hw, hh, ha, hb, hp.holds, hd⟩
    exact ⟨out, hout, (ho.carries hd).congr hx⟩
  | inPlace b =>
    obtain ⟨k, hk, hi⟩ := hr
    have hd := ((Engine.worksInPlace_iff hk).1 hi).sameShape.holds hp.holds
    obtain ⟨out, hout, ho⟩ := Engine.convertInPlace_of_valid hk hi ⟨hw, hh, ha, hb, hp.holds, hd⟩
    exact ⟨out, hout, (ho.carries hd).congr hx⟩

namespace Engine

variable {legs legs' : List Leg}

/-- A frame is fit for every format of a journey that is ready. -/
theorem fit_of_ready : ∀ {a legs}, Fit a w h → Ready (build m) w h a legs →
    ∀ b ∈ legs.map Leg.target, Fit b w h := by
  intro a legs ha hr
  induction legs generalizing a with
  | nil => exact fun b hb => absurd hb List.not_mem_nil
  | cons leg legs ih =>
    have hleg := leg.fit_of_ready ha hr.1
    intro b hb
    rcases List.mem_cons.1 hb with rfl | hb
    · exact hleg
    · exact ih hleg hr.2 b hb

/-- And for the format that the journey ends with. -/
theorem fit_last_of_ready {a : Format} {legs : List Leg} (ha : Fit a w h)
    (hr : Ready (build m) w h a legs) : Fit ((legs.map Leg.target).getLastD a) w h := by
  rcases List.mem_cons.1 (List.getLastD_mem_cons :
    (legs.map Leg.target).getLastD a ∈ a :: legs.map Leg.target) with hl | hl
  · rwa [hl]
  · exact fit_of_ready ha hr _ hl

/-- What holds of the targets of all legs holds of formats that the frame is fit for. -/
theorem targets_of_ready {P : Format → Prop} (ha : Fit a w h) (hr : Ready (build m) w h a legs)
    (hP : ∀ leg ∈ legs, P leg.target) : ∀ b ∈ legs.map Leg.target, Fit b w h ∧ P b := by
  intro b hb
  obtain ⟨leg, hleg, rfl⟩ := List.mem_map.1 hb
  exact ⟨fit_of_ready ha hr _ hb, hP leg hleg⟩

/-- What holds of the targets of all legs holds of the last one, if there is any. -/
theorem last_target {P : Format → Prop} (hne : legs ≠ [])
    (hP : ∀ leg ∈ legs, P leg.target) (a : Format) : P ((legs.map Leg.target).getLastD a) := by
  obtain ⟨leg, legs, rfl⟩ := List.exists_cons_of_ne_nil hne
  rw [List.map_cons, List.getLastD_cons]
  have hmem : (legs.map Leg.target).getLastD leg.target ∈ (leg :: legs).map Leg.target :=
    List.getLastD_mem_cons
  obtain ⟨last, hlast, heq⟩ := List.mem_map.1 hmem
  rw [← heq]
  exact hP last hlast

/-- **A journey that is ready goes through,** and translates the frame leg by leg. -/
theorem journey_of_ready (hw : w < 0x100000000) (hh : h < 0x100000000) :
    ∀ {a legs planes x}, Fit a w h → Carries a w h x planes → Ready (build m) w h a legs →
      ∃ out, journey (build m) w h a planes legs = ⟨out, none⟩ ∧
        Carries ((legs.map Leg.target).getLastD a) w h (along w a x (legs.map Leg.target)) out := by
  intro a legs planes x ha hp hr
  induction legs generalizing a planes x with
  | nil => exact ⟨planes, rfl, hp⟩
  | cons leg legs ih =>
    obtain ⟨mid, hrun, hmid⟩ := leg.run_of_ready hw hh ha hp hr.1
    obtain ⟨out, hout, ho⟩ := ih (leg.fit_of_ready ha hr.1) hmid hr.2
    refine ⟨out, ?_, ?_⟩
    · rw [journey, hrun]
      exact hout
    · rw [List.map_cons, List.getLastD_cons, along]
      exact ho

/-- **Journeys along which a frame is translated alike** end alike. -/
theorem endAlike_of_along (hw : w < 0x100000000) (hh : h < 0x100000000) (ha : Fit a w h)
    (hs : Holds a w h planes) (hr : Ready (build m) w h a legs)
    (hr' : Ready (build m) w h a legs') (hb : (legs.map Leg.target).getLastD a = b)
    (hb' : (legs'.map Leg.target).getLastD a = b)
    (halike : ∀ i < b.planeCount, ∀ j < b.planeSize w h i,
      along w a (bytesOf planes) (legs.map Leg.target) i j =
        along w a (bytesOf planes) (legs'.map Leg.target) i j) :
    (build m).EndAlike w h a planes b legs legs' := by
  obtain ⟨out, hout, ho⟩ := journey_of_ready hw hh ha hs.carries hr
  obtain ⟨out', hout', ho'⟩ := journey_of_ready hw hh ha hs.carries hr'
  rw [hb] at ho
  rw [hb'] at ho'
  exact ⟨out, out', hout, hout', ho.sameFrame ho' halike⟩

/-- **By way of `b` and directly:** what is drawn on the two ways. -/
theorem exists_detour (hw : w < 0x100000000) (hh : h < 0x100000000)
    (hac : (build m).supports a c = true) (ha : Fit a w h) (hs : Holds a w h planes)
    {dst : List Plane} (hd : Holds c w h dst) (hlegs : legs.map Leg.target = [b, c])
    (hr : Ready (build m) w h a legs) :
    ∃ via direct, (build m).journey w h a planes legs = ⟨via, none⟩ ∧
      (build m).convert a c w h planes dst = ⟨direct, none⟩ ∧
      Carries c w h (c.layout.draw w (b.content.kept w (a.layout.view w (bytesOf planes)))) via ∧
      Carries c w h (Layout.translated a.layout c.layout w (bytesOf planes)) direct := by
  have hfits := fit_of_ready ha hr
  obtain ⟨via, hvia, hv⟩ := journey_of_ready hw hh ha hs.carries hr
  rw [hlegs] at hfits hv
  have hb : Fit b w h := hfits b (by simp)
  have hc : Fit c w h := hfits c (by simp)
  obtain ⟨direct, hdirect, ho⟩ := convert_of_valid hac ⟨hw, hh, ha, hc, hs, hd⟩
  refine ⟨via, direct, hvia, hdirect, ?_, ho.carries hd⟩
  rw [← translated_translated hb]
  exact hv

/-- What is drawn alike on the two ways does not show. -/
theorem invisible_of_draw (hw : w < 0x100000000) (hh : h < 0x100000000)
    (hac : (build m).supports a c = true) (ha : Fit a w h)
    (hdraw : ∀ x, ∀ i < c.planeCount, ∀ j < c.planeSize w h i,
      c.layout.draw w (b.content.kept w (a.layout.view w x)) i j =
        Layout.translated a.layout c.layout w x i j) :
    (build m).Invisible w h a b c := by
  intro src dst legs hs hd hlegs hr
  obtain ⟨via, direct, hvia, hdirect, hv, ho⟩ := exists_detour hw hh hac ha hs hd hlegs hr
  exact ⟨via, direct, hvia, hdirect, hv.sameFrame ho (hdraw _)⟩

end Engine
end Journey
end FrameConvert
