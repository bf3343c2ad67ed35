/-
# Checked kernels cannot go wrong

A fault is an index outside its plane, a number outside its machine word, or a division
by zero; it is the outcome of the computation that meets it.  Behind the checks there is
none: whatever tier a kernel is for, planes that pass its checks are transferred, and
reworked if the kernel works in place (`validated_kernels_go_through`).  The one bound
`4 w h < 2 ^ 64` and the divisibility of the sides carry every index of every loop; sums
of samples and of colour products are small by themselves.

The checks do not go wrong either.  So a conversion as a whole ends in a result or in a
refusal, whatever it is given (`converted_neverWrong`, `reworked_neverWrong`).
-/

import FrameConvert.Proofs.Kernels

namespace FrameConvert

/-- A value or a refusal, no fault. -/
def NeverWrong {α : Type} (x : Attempt α) : Prop := ∀ fault, x ≠ .error (.wrong fault)

section NeverWrong

variable {α β : Type} {f : Format} {w h : Nat}

theorem neverWrong_ok (a : α) : NeverWrong (.ok a) := fun _ hr => nomatch hr

theorem neverWrong_refuse (why : Refusal) : NeverWrong (refuse why : Attempt α) :=
  fun _ hr => nomatch hr

theorem NeverWrong.bind {x : Attempt α} {g : α → Attempt β} (hx : NeverWrong x)
    (hg : ∀ a, x = .ok a → NeverWrong (g a)) : NeverWrong (x >>= g) := by
  cases x with
  | ok a => exact hg a rfl
  | error e =>
    cases e with
    | refused why => exact neverWrong_refuse why
    | wrong fault => exact absurd rfl (hx fault)

theorem checkGeometry_neverWrong (f : Format) (w h : Nat) : NeverWrong (checkGeometry f w h) := by
  rw [checkGeometry]
  split
  · exact neverWrong_refuse _
  · split
    · exact neverWrong_refuse _
    · split
      · exact neverWrong_refuse _
      · exact neverWrong_ok ()

theorem checkPlanesFrom_neverWrong (hw : w * h * 4 < 0x10000000000000000) :
    ∀ (ps : List Plane) (i : Nat), NeverWrong (checkPlanesFrom f w h ps i)
  | [], _ => neverWrong_ok ()
  | p :: ps, i => by
    rw [checkPlanesFrom, Format.planeSize64_eq_ok hw, attempt_ok]
    refine (neverWrong_ok _).bind fun expected _ => ?_
    split
    · exact neverWrong_refuse _
    · exact checkPlanesFrom_neverWrong hw ps (i + 1)

/-- **The plane check never goes wrong** once the geometry is fit: no size that it computes
leaves the machine words. -/
theorem checkPlanes_neverWrong (hf : Fit f w h) (planes : List Plane) :
    NeverWrong (checkPlanes planes f w h) := by
  rw [checkPlanes]
  split
  · exact neverWrong_refuse _
  · exact checkPlanesFrom_neverWrong hf.2.2.1 _ 0

end NeverWrong

namespace Kernel

variable {a b : Format} {k : Kernel} {w h : Nat}

/-- A kernel of a pair: the portable one, or that of a tier. -/
def Available (k : Kernel) (a b : Format) : Prop :=
  portable? a b = some k ∨ ∃ t, accelerated? t a b = some k

theorem Available.serves (hk : k.Available a b) : k.Serves a b := by
  rcases hk with hk | ⟨t, hk⟩
  · exact portable?_serves hk
  · exact accelerated?_serves hk

/-- Checks in front of something that goes through if they pass. -/
theorem checked_neverWrong {α : Type} {x : Attempt α} (k : Kernel) (src dst : List Plane)
    (w h : Nat) (hx : k.Passes src dst w h → NeverWrong x) :
    NeverWrong (do
      checkGeometry k.source w h
      checkGeometry k.target w h
      checkPlanes src k.source w h
      checkPlanes dst k.target w h
      x) := by
  refine (checkGeometry_neverWrong _ w h).bind fun _ ha => ?_
  refine (checkGeometry_neverWrong _ w h).bind fun _ hb => ?_
  refine (checkPlanes_neverWrong (checkGeometry_eq_ok_iff.1 ha) src).bind fun _ hs => ?_
  refine (checkPlanes_neverWrong (checkGeometry_eq_ok_iff.1 hb) dst).bind fun _ hd => ?_
  exact hx ⟨ha, hb, hs, hd⟩

/-- **A conversion never goes wrong,** whatever planes it is given. -/
theorem converted_neverWrong (hk : k.Serves a b) (hw : w < 0x100000000) (hh : h < 0x100000000)
    (src dst : List Plane) : NeverWrong (k.converted src dst w h) := by
  refine checked_neverWrong k src dst w h fun hp => ?_
  obtain ⟨out, hout, -⟩ := hk.method.transfer src dst w h ((passes_iff_valid hk hw hh).1 hp)
  rw [hout]
  exact neverWrong_ok out

/-- Nor does a conversion in place. -/
theorem reworked_neverWrong (hk : k.Serves a b) (hw : w < 0x100000000) (hh : h < 0x100000000)
    (planes : List Plane) : NeverWrong (k.reworked planes w h) := by
  rw [reworked]
  split
  · exact neverWrong_refuse _
  · rename_i r hr
    refine checked_neverWrong k planes planes w h fun hp => ?_
    obtain ⟨out, hout, -⟩ :=
      hk.method.rework r hr planes w h ((passes_iff_valid hk hw hh).1 hp)
    rw [hout]
    exact neverWrong_ok out

/-- **What passes the checks goes through.**  Every kernel that any tier has for a pair
transfers planes that pass its checks, and reworks them if it works in place; on the way
no index leaves its plane, no number leaves its word and nothing is divided by zero, for
any of these would be the outcome.  Of the plane check itself the same holds once the
geometry check has passed: every size it looks at is a 64-bit word. -/
theorem validated_kernels_go_through (hk : k.Available a b) (w h : UInt32) :
    (∀ src dst, k.Passes src dst w.toNat h.toNat →
        ∃ out, k.method.transfer src dst w.toNat h.toNat = .ok out) ∧
      (∀ r planes, k.method.rework? = some r → k.Passes planes planes w.toNat h.toNat →
        ∃ out, r planes w.toNat h.toNat = .ok out) ∧
      ∀ f, checkGeometry f w.toNat h.toNat = .ok () →
        (∀ i, f.planeSize64 w.toNat h.toNat i = .ok (f.planeSize w.toNat h.toNat i)) ∧
          ∀ planes fault, checkPlanes planes f w.toNat h.toNat ≠ .error (.wrong fault) := by
  have hs := hk.serves
  refine ⟨fun src dst hp => ?_, fun r planes hr hp => ?_, fun f hf => ⟨fun i => ?_, ?_⟩⟩
  · have hv := (passes_iff_valid hs w.toNat_lt h.toNat_lt).1 hp
    obtain ⟨out, hout, -⟩ := hs.method.transfer src dst w.toNat h.toNat hv
    exact ⟨out, hout⟩
  · have hv := (passes_iff_valid hs w.toNat_lt h.toNat_lt).1 hp
    obtain ⟨out, hout, -⟩ := hs.method.rework r hr planes w.toNat h.toNat hv
    exact ⟨out, hout⟩
  · exact Format.planeSize64_eq_ok (checkGeometry_eq_ok_iff.1 hf).2.2.1 i
  · exact checkPlanes_neverWrong (checkGeometry_eq_ok_iff.1 hf)

/-- The kernel that `sse41` has for the exchange of red and blue, on a single pixel. -/
theorem swapped_pixel_goes_through :
    ∃ k, accelerated? .sse41 .rgb24 .bgr24 = some k ∧
      (∃ out, k.method.transfer [#[1, 2, 3]] [#[0, 0, 0]] 1 1 = .ok out) ∧
      (∃ r out, k.method.rework? = some r ∧ r [#[1, 2, 3]] 1 1 = .ok out) ∧
      ∀ fault, checkPlanes [#[1, 2, 3]] .rgb24 1 1 ≠ .error (.wrong fault) := by
  have hk : accelerated? .sse41 .rgb24 .bgr24 = some ⟨.rgb24, .bgr24, .sse41,
      ⟨Method.wholePlane .rgb24 PixelSwap.swap,
        some (Method.wholePlaneInPlace .rgb24 PixelSwap.reswap)⟩⟩ := rfl
  obtain ⟨hfresh, hstand, hcheck⟩ := validated_kernels_go_through (.inr ⟨.sse41, hk⟩) 1 1
  obtain ⟨out, hout⟩ := hstand _ [#[1, 2, 3]] rfl (by decide)
  exact ⟨_, hk, hfresh _ _ (by decide), ⟨_, out, rfl, hout⟩, (hcheck .rgb24 (by decide)).2 _⟩

end Kernel
end FrameConvert
