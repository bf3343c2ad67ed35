/-
# Kernels behind their checks

`k.Passes src dst w h` says that a kernel's four checks pass.  For sides that are 32-bit
words that is all a transfer is promised (`passes_iff_valid`), and so a kernel that
serves its pair converts whatever passes (`yields_converted`, `yields_reworked`).
What does not pass is refused by the first check that fails, and no check looks at the
method; so kernels of one pair are alike altogether (`converted_eq`, `reworked_eq`), and
what an engine converts has passed (`Engine.valid_of_convert`).
-/

import FrameConvert.Proofs.Actions
import FrameConvert.Proofs.Selection

namespace FrameConvert
namespace Kernel

/-- All checks of a kernel pass. -/
def Passes (k : Kernel) (src dst : List Plane) (w h : Nat) : Prop :=
  checkGeometry k.source w h = .ok () ∧ checkGeometry k.target w h = .ok () ∧
    checkPlanes src k.source w h = .ok () ∧ checkPlanes dst k.target w h = .ok ()

instance (k : Kernel) (src dst : List Plane) (w h : Nat) : Decidable (k.Passes src dst w h) :=
  inferInstanceAs (Decidable (_ ∧ _ ∧ _ ∧ _))

variable {a b : Format} {k k' : Kernel} {src dst planes : List Plane} {w h : Nat}

/-- **What the checks promise.** -/
theorem passes_iff_valid (hk : k.Serves a b) (hw : w < 0x100000000) (hh : h < 0x100000000) :
    k.Passes src dst w h ↔ Valid a b w h src dst := by
  rw [Passes, hk.source, hk.target]
  constructor
  · rintro ⟨ha, hb, hs, hd⟩
    have hfa := checkGeometry_eq_ok_iff.1 ha
    have hfb := checkGeometry_eq_ok_iff.1 hb
    exact ⟨hw, hh, hfa, hfb, (checkPlanes_eq_ok_iff hfa).1 hs, (checkPlanes_eq_ok_iff hfb).1 hd⟩
  · rintro ⟨-, -, hfa, hfb, hs, hd⟩
    exact ⟨checkGeometry_eq_ok_iff.2 hfa, checkGeometry_eq_ok_iff.2 hfb,
      (checkPlanes_eq_ok_iff hfa).2 hs, (checkPlanes_eq_ok_iff hfb).2 hd⟩

/-- The checks in front of something that is run if they pass. -/
theorem checked_congr {α : Type} {c₁ c₂ c₃ c₄ : Attempt Unit} {x y : Attempt α}
    (h : c₁ = .ok () ∧ c₂ = .ok () ∧ c₃ = .ok () ∧ c₄ = .ok () → x = y) :
    (do c₁; c₂; c₃; c₄; x) = (do c₁; c₂; c₃; c₄; y) := by
  cases c₁ with
  | error e => rfl
  | ok u₁ =>
    cases c₂ with
    | error e => rfl
    | ok u₂ =>
      cases c₃ with
      | error e => rfl
      | ok u₃ =>
        cases c₄ with
        | error e => rfl
        | ok u₄ => exact h ⟨rfl, rfl, rfl, rfl⟩

/-- What passes is transferred. -/
theorem converted_of_passes (hp : k.Passes src dst w h) :
    k.converted src dst w h = attempt (k.method.transfer src dst w h) := by
  obtain ⟨ha, hb, hs, hd⟩ := hp
  rw [converted, ha, hb, hs, hd]
  rfl

/-- What is converted has passed. -/
theorem passes_of_converted {out : List Plane} (hk : k.converted src dst w h = .ok out) :
    k.Passes src dst w h := by
  obtain ⟨_, ha, hk⟩ := exists_of_bind_eq_ok hk
  obtain ⟨_, hb, hk⟩ := exists_of_bind_eq_ok hk
  obtain ⟨_, hs, hk⟩ := exists_of_bind_eq_ok hk
  obtain ⟨_, hd, -⟩ := exists_of_bind_eq_ok hk
  exact ⟨ha, hb, hs, hd⟩

/-- What passes is reworked. -/
theorem reworked_of_passes {r : Rework} (hr : k.method.rework? = some r)
    (hp : k.Passes planes planes w h) : k.reworked planes w h = attempt (r planes w h) := by
  obtain ⟨ha, hb, hs, hd⟩ := hp
  rw [reworked, hr]
  dsimp only
  rw [ha, hb, hs, hd]
  rfl

/-- **A kernel that serves its pair converts whatever passes.** -/
theorem yields_converted (hk : k.Serves a b) (hv : Valid a b w h src dst) :
    Yields (k.converted src dst w h)
      (Overwrites b w h (Layout.translated a.layout b.layout w (bytesOf src)) dst) := by
  obtain ⟨out, hout, ho⟩ := hk.method.transfer src dst w h hv
  rw [converted_of_passes ((passes_iff_valid hk hv.wide hv.high).2 hv), hout]
  exact yields_ok ho

/-- It reworks whatever passes, if it can. -/
theorem yields_reworked (hk : k.Serves a b) (hi : k.worksInPlace = true)
    (hv : Valid a b w h planes planes) :
    Yields (k.reworked planes w h)
      (Overwrites b w h (Layout.translated a.layout b.layout w (bytesOf planes)) planes) := by
  obtain ⟨r, hr⟩ := Option.isSome_iff_exists.1 hi
  obtain ⟨out, hout, ho⟩ := hk.method.rework r hr planes w h hv
  rw [reworked_of_passes hr ((passes_iff_valid hk hv.wide hv.high).2 hv), hout]
  exact yields_ok ho

/-- **Kernels of one pair convert alike,** what they refuse included. -/
theorem converted_eq (hk : k.Serves a b) (hk' : k'.Serves a b) (hw : w < 0x100000000)
    (hh : h < 0x100000000) (src dst : List Plane) :
    k.converted src dst w h = k'.converted src dst w h := by
  rw [converted, converted, hk.source, hk.target, hk'.source, hk'.target]
  refine checked_congr fun hc => congrArg attempt ?_
  have hp : k.Passes src dst w h := by
    rw [Passes, hk.source, hk.target]
    exact hc
  exact hk.method.transfer_eq hk'.method ((passes_iff_valid hk hw hh).1 hp)

/-- Kernels of one pair rework alike, if both can or neither. -/
theorem reworked_eq (hk : k.Serves a b) (hk' : k'.Serves a b)
    (hi : k.worksInPlace = k'.worksInPlace) (hw : w < 0x100000000) (hh : h < 0x100000000)
    (planes : List Plane) : k.reworked planes w h = k'.reworked planes w h := by
  rw [worksInPlace, worksInPlace] at hi
  rw [reworked, reworked]
  cases hr : k.method.rework? with
  | none =>
    cases hr' : k'.method.rework? with
    | none =>
      dsimp only
      rw [hk.source, hk.target, hk'.source, hk'.target]
    | some r' =>
      rw [hr, hr'] at hi
      cases hi
  | some r =>
    cases hr' : k'.method.rework? with
    | none =>
      rw [hr, hr'] at hi
      cases hi
    | some r' =>
      dsimp only
      rw [hk.source, hk.target, hk'.source, hk'.target]
      refine checked_congr fun hc => congrArg attempt ?_
      have hp : k.Passes planes planes w h := by
        rw [Passes, hk.source, hk.target]
        exact hc
      exact (hk.method.rework r hr).unique (hk'.method.rework r' hr')
        ((passes_iff_valid hk hw hh).1 hp)

end Kernel

namespace Engine

variable {a b : Format} {m : Mask} {k : Kernel} {src dst planes : List Plane} {w h : Nat}

/-- **What an engine leaves behind where the checks pass.** -/
theorem convert_of_valid (hab : (build m).supports a b = true) (hv : Valid a b w h src dst) :
    ∃ out, (build m).convert a b w h src dst = ⟨out, none⟩ ∧
      Overwrites b w h (Layout.translated a.layout b.layout w (bytesOf src)) dst out := by
  obtain ⟨k, hk⟩ := Option.isSome_iff_exists.1 hab
  obtain ⟨out, hout, ho⟩ := Kernel.yields_converted (of_lookup_build hk).1 hv
  refine ⟨out, ?_, ho⟩
  rw [convert_eq, kernel, hk, bind_eq_of_ok rfl, hout]
  rfl

/-- What the geometry check of the source refuses is refused. -/
theorem convert_of_refused (hab : (build m).supports a b = true) {e : Failure}
    (hg : checkGeometry a w h = .error e) :
    (build m).convert a b w h src dst = ⟨dst, some e⟩ := by
  obtain ⟨k, hk⟩ := Option.isSome_iff_exists.1 hab
  rw [convert_eq, kernel, hk, bind_eq_of_ok rfl, Kernel.converted, (of_lookup_build hk).1.source,
    hg]
  rfl

/-- **What an engine converts is a registered pair and passes the checks.** -/
theorem valid_of_convert {out : List Plane} (hw : w < 0x100000000) (hh : h < 0x100000000)
    (hout : (build m).convert a b w h src dst = ⟨out, none⟩) :
    (build m).supports a b = true ∧ Valid a b w h src dst := by
  rw [convert_eq] at hout
  have hok := Outcome.eq_ok_of_allOrNothing hout
  cases hk : (build m).lookup a b with
  | none =>
    rw [kernel, hk] at hok
    cases hok
  | some k =>
    rw [kernel, hk, bind_eq_of_ok rfl] at hok
    refine ⟨Option.isSome_iff_exists.2 ⟨k, hk⟩, ?_⟩
    exact (Kernel.passes_iff_valid (of_lookup_build hk).1 hw hh).1 (Kernel.passes_of_converted hok)

/-- And where the frame stands. -/
theorem convertInPlace_of_valid (hk : (build m).lookup a b = some k)
    (hi : k.worksInPlace = true) (hv : Valid a b w h planes planes) :
    ∃ out, (build m).convertInPlace a b w h planes = ⟨out, none⟩ ∧
      Overwrites b w h (Layout.translated a.layout b.layout w (bytesOf planes)) planes out := by
  obtain ⟨out, hout, ho⟩ := Kernel.yields_reworked (of_lookup_build hk).1 hi hv
  refine ⟨out, ?_, ho⟩
  rw [convertInPlace_eq, kernel, hk, bind_eq_of_ok rfl, hout]
  rfl

end Engine
end FrameConvert
