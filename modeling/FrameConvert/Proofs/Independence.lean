/-
# The mask decides how, not what

Which tiers a machine has decides which kernels its engine is built from.  All kernels of
one pair convert alike (`Kernel.converted_eq`, `Kernel.reworked_eq`), and whether a pair
has a kernel at all does not depend on the mask (`lookup_build_eq_none`).  So whatever is
asked of a pair's kernel has one answer for all masks (`bind_kernel_congr`), and engines
differ in speed alone (`conversions_independent_of_mask`).
-/

import FrameConvert.Proofs.Kernels

namespace FrameConvert
namespace Engine

variable {a b : Format}

/-- Engines for two masks refuse a pair both, or both have a kernel that serves it. -/
theorem kernel_build_alike (m m' : Mask) (a b : Format) :
    (build m).kernel a b = refuse (.unsupported a b) ∧
        (build m').kernel a b = refuse (.unsupported a b) ∨
      ∃ k k', (build m).kernel a b = .ok k ∧ (build m').kernel a b = .ok k' ∧
        k.Serves a b ∧ k'.Serves a b ∧ k.worksInPlace = k'.worksInPlace := by
  cases hk : (build m).lookup a b with
  | none =>
    have hk' : (build m').lookup a b = none :=
      (lookup_build_eq_none m').2 ((lookup_build_eq_none m).1 hk)
    refine .inl ⟨?_, ?_⟩
    · rw [kernel, hk]
    · rw [kernel, hk']
  | some k =>
    obtain ⟨hs, p, hp, hi⟩ := of_lookup_build hk
    cases hk' : (build m').lookup a b with
    | none =>
      have hnone := (lookup_build_eq_none m).2 ((lookup_build_eq_none m').1 hk')
      rw [hk] at hnone
      cases hnone
    | some k' =>
      obtain ⟨hs', p', hp', hi'⟩ := of_lookup_build hk'
      obtain rfl : p = p' := Option.some.inj (hp.symm.trans hp')
      refine .inr ⟨k, k', ?_, ?_, hs, hs', hi.trans hi'.symm⟩
      · rw [kernel, hk]
      · rw [kernel, hk']

/-- **What does the same with every kernel of a pair does the same with every mask.** -/
theorem bind_kernel_congr {α : Type} {f : Kernel → Attempt α}
    (hf : ∀ k k' : Kernel, k.Serves a b → k'.Serves a b → k.worksInPlace = k'.worksInPlace →
      f k = f k') (m m' : Mask) :
    ((build m).kernel a b >>= f) = ((build m').kernel a b >>= f) := by
  rcases kernel_build_alike m m' a b with ⟨hk, hk'⟩ | ⟨k, k', hk, hk', hs, hs', hi⟩
  · rw [hk, hk']
  · rw [bind_eq_of_ok hk, bind_eq_of_ok hk']
    exact hf k k' hs hs' hi

/-- **Conversions do not depend on the mask.**  Whatever tiers the engine is built for, it
converts between planes, between buffers and in place as the engine without any does:
the result or the failure is the same, and so is every byte of the memory afterwards.
Formats, sides, planes and buffers are any; masks are any as well, whichever they were
narrowed from. -/
theorem conversions_independent_of_mask (m : Mask) (a b : Format) (w h : UInt32) :
    (∀ src dst : List Plane, (build m).convert a b w.toNat h.toNat src dst =
        (build .none).convert a b w.toNat h.toNat src dst) ∧
      (∀ src dst : Plane, (build m).convertBuffer a b w.toNat h.toNat src dst =
        (build .none).convertBuffer a b w.toNat h.toNat src dst) ∧
      ∀ planes : List Plane, (build m).convertInPlace a b w.toNat h.toNat planes =
        (build .none).convertInPlace a b w.toNat h.toNat planes := by
  have hw := w.toNat_lt
  have hh := h.toNat_lt
  refine ⟨fun src dst => ?_, fun src dst => ?_, fun planes => ?_⟩
  · rw [convert_eq, convert_eq]
    refine congrArg _ (bind_kernel_congr (fun k k' hs hs' _ => ?_) m .none)
    exact Kernel.converted_eq hs hs' hw hh src dst
  · rw [convertBuffer_eq, convertBuffer_eq]
    refine congrArg _ (bind_kernel_congr (fun k k' hs hs' _ => ?_) m .none)
    simp only [Kernel.converted_eq hs hs' hw hh]
  · rw [convertInPlace_eq, convertInPlace_eq]
    refine congrArg _ (bind_kernel_congr (fun k k' hs hs' hi => ?_) m .none)
    exact Kernel.reworked_eq hs hs' hi hw hh planes

end Engine
end FrameConvert
