/-
# What a conversion writes, and what it depends on

A conversion that goes through has written its frame and nothing else:

| bytes | afterwards |
| --- | --- |
| of the target frame | drawn from the source frame |
| of the target's planes, behind the frame | as before |
| of surplus target planes | as before |

Every byte of the frame is drawn, so none is left over from what was there; and it is
drawn from the source frame alone, not from bytes behind it or from surplus planes.  Two
runs that agree on the source frame therefore agree on the target frame, whatever else
their planes hold (`convert_touches_its_frame_alone`).
-/

import FrameConvert.Proofs.Kernels

namespace FrameConvert
namespace Engine

/-- **A conversion writes its frame, all of it, and depends on the source frame alone.**
A registered pair is converted exactly if sides and planes are valid.  Then bytes behind
the target frame and surplus target planes are as before; and any other run, on any
mask, over planes with the same source frame, ends with the same target frame, whatever
its source planes hold besides and whatever its target planes held before. -/
theorem convert_touches_its_frame_alone (m : Mask) {a b : Format}
    (hab : (build m).supports a b = true) (w h : UInt32) (src dst : List Plane) :
    ((∃ out, (build m).convert a b w.toNat h.toNat src dst = ⟨out, none⟩) ↔
        Valid a b w.toNat h.toNat src dst) ∧
      ∀ out, (build m).convert a b w.toNat h.toNat src dst = ⟨out, none⟩ →
        KeepsRest b w.toNat h.toNat dst out ∧
        ∀ m' src' dst' out',
          (build m').convert a b w.toNat h.toNat src' dst' = ⟨out', none⟩ →
          SameFrame a w.toNat h.toNat src src' → SameFrame b w.toNat h.toNat out out' := by
  have hw := w.toNat_lt
  have hh := h.toNat_lt
  -- what a run has written, told from its outcome
  have written : ∀ {m src dst out}, (build m).convert a b w.toNat h.toNat src dst = ⟨out, none⟩ →
      Valid a b w.toNat h.toNat src dst ∧
        Overwrites b w.toNat h.toNat (Layout.translated a.layout b.layout w.toNat (bytesOf src))
          dst out := by
    intro m src dst out hrun
    obtain ⟨hsupported, hv⟩ := valid_of_convert hw hh hrun
    obtain ⟨out', hrun', ho⟩ := convert_of_valid hsupported hv
    rw [hrun] at hrun'
    cases hrun'
    exact ⟨hv, ho⟩
  constructor
  · constructor
    · rintro ⟨out, hrun⟩
      exact (written hrun).1
    · intro hv
      obtain ⟨out, hrun, -⟩ := convert_of_valid hab hv
      exact ⟨out, hrun⟩
  · intro out hrun
    obtain ⟨hv, ho⟩ := written hrun
    refine ⟨ho.keepsRest, fun m' src' dst' out' hrun' hsame => ?_⟩
    obtain ⟨hv', ho'⟩ := written hrun'
    refine (ho.carries hv.dst).sameFrame (ho'.carries hv'.dst) fun i hi j hj => ?_
    exact translated_congr hv.source hv.target hsame hi hj

/-- Two by two pixels from `YUV420P` to `RGB24`, twice: the source planes differ behind the
frame and in a surplus plane, the target planes in what they held before. -/
theorem convert_yuv420p_twice_alike :
    ∃ out out',
      (build .detected).convert .yuv420p .rgb24 2 2 [#[16, 81, 145, 235, 7], #[90], #[240]]
        [.replicate 13 0] = ⟨out, none⟩ ∧
      (build .none).convert .yuv420p .rgb24 2 2 [#[16, 81, 145, 235], #[90], #[240, 9], #[1]]
        [.replicate 12 255, #[3]] = ⟨out', none⟩ ∧
      KeepsRest .rgb24 2 2 [.replicate 13 0] out ∧ SameFrame .rgb24 2 2 out out' := by
  have hab : ∀ m, (build m).supports .yuv420p .rgb24 = true := fun m =>
    supports_build m .yuv420p .rgb24
  have hv : Valid .yuv420p .rgb24 2 2 [#[16, 81, 145, 235, 7], #[90], #[240]] [.replicate 13 0] :=
    ⟨by decide, by decide, by decide, by decide, by decide, by decide⟩
  have hv' : Valid .yuv420p .rgb24 2 2 [#[16, 81, 145, 235], #[90], #[240, 9], #[1]]
      [.replicate 12 255, #[3]] :=
    ⟨by decide, by decide, by decide, by decide, by decide, by decide⟩
  obtain ⟨hiff, hrest⟩ := convert_touches_its_frame_alone .detected (hab _) 2 2 _ _
  obtain ⟨out, hrun⟩ := hiff.2 hv
  obtain ⟨out', hrun', -⟩ := convert_of_valid (hab .none) hv'
  obtain ⟨hkept, hsame⟩ := hrest out hrun
  exact ⟨out, out', hrun, hrun', hkept, hsame .none _ _ out' hrun' (by decide)⟩

end Engine
end FrameConvert
