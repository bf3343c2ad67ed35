/-
# Every method serves its pair

`m.Serves a b` says that the transfer of a method translates `a` into `b`, and that its
rework does so too if it has one.  Every portable method serves its pair
(`portable?_serves`), and so does every method of every tier (`accelerated?_serves`):
the table of methods is right entry by entry, each by the theorem about what it is made
of.

Whether a pair can be reworked in place does not depend on the tier
(`rework?_isSome_accelerated`).
-/

import FrameConvert.Proofs.Planar
import FrameConvert.Proofs.Interleave
import FrameConvert.Proofs.Reorder
import FrameConvert.Proofs.Colours
import FrameConvert.Proofs.Lanes.Words
import FrameConvert.Proofs.Lanes.Swap
import FrameConvert.Proofs.Lanes.Rows
import FrameConvert.Method

namespace FrameConvert
namespace Method

variable {a b : Format} {m : Method}

/-- A method does what its pair is there for. -/
structure Serves (m : Method) (a b : Format) : Prop where
  transfer : Translates m.transfer a b
  rework : ∀ r, m.rework? = some r → Reworks r a b

theorem serves_of_transfer {T : Transfer} (hT : Translates T a b) : Serves ⟨T, none⟩ a b :=
  ⟨hT, fun _ hr => nomatch hr⟩

theorem serves_of_both {T : Transfer} {R : Rework} (hT : Translates T a b) (hR : Reworks R a b) :
    Serves ⟨T, some R⟩ a b :=
  ⟨hT, fun _ hr => Option.some.inj hr ▸ hR⟩

/-- Between planar frames, by resampling, and by exchange where that is enough. -/
theorem planar_serves {p q : PlanarLayout} (ha : a.layout = .planar p) (hb : b.layout = .planar q) :
    Serves ⟨planarToPlanar p q, planarRework? p q⟩ a b := by
  refine ⟨planarToPlanar_translates ha hb, fun r hr => ?_⟩
  cases p with
  | luma => cases hr
  | chroma s o =>
    cases q with
    | luma => cases hr
    | chroma t k =>
      simp only [planarRework?] at hr
      split at hr
      · rename_i h
        obtain ⟨rfl, hok⟩ := h
        cases hr
        exact swapChroma_reworks ha hb hok
      · cases hr

/-- Between pixel frames. -/
theorem pixels_serves {l k : PixelLayout} (ha : a.layout = .pixels l) (hb : b.layout = .pixels k) :
    Serves ⟨pixelsToPixels l k, pixelsRework? l k⟩ a b := by
  refine ⟨pixelsToPixels_translates ha hb, fun r hr => ?_⟩
  simp only [pixelsRework?] at hr
  split at hr
  · rename_i h
    cases hr
    exact pixelsRework_reworks ha hb h.1
  · cases hr

/-- **Every portable method serves its pair.** -/
theorem portable?_serves (hm : portable? a b = some m) : m.Serves a b := by
  rw [portable?] at hm
  split at hm
  · rename_i hab
    subst hab
    cases hm
    exact serves_of_both (copyFrame_translates a) (keep_reworks a)
  · split at hm <;> rename_i ha hb
    · cases hm
      exact planar_serves ha hb
    · cases hm
    · rename_i hq
      cases hm
      exact serves_of_transfer (planarToPacked_translates ha hb hq)
    · cases hm
      exact serves_of_transfer
        (planarToPixels_translates ha hb fun s _ _ => unstarted_begins s _)
    · cases hm
    · rename_i hq
      cases hm
      exact serves_of_transfer (packedToPlanar_translates ha hb hq)
    · cases hm
      exact serves_of_both (packedToPacked_translates ha hb) (packedRework_reworks ha hb)
    · cases hm
      exact serves_of_transfer (packedToPixels_translates ha hb)
    · cases hm
      exact serves_of_transfer (pixelsToPlanar_translates ha hb)
    · cases hm
      exact serves_of_transfer (pixelsToPacked_translates ha hb)
    · cases hm
      exact pixels_serves ha hb

theorem sse2?_serves (hm : sse2? a b = some m) : m.Serves a b := by
  obtain ⟨op, hop, rfl⟩ := Option.map_eq_some_iff.1 hm
  have hr := WordShuffle.reorders_between hop
  exact serves_of_both (wholePlane_translates hr (wordShift_moves op).moves)
    (wholePlaneInPlace_reworks hr (wordShift_movesInPlace op).movesInPlace)

theorem sse41?_serves (hm : sse41? a b = some m) : m.Serves a b := by
  rw [sse41?] at hm
  split at hm
  · rename_i hab
    cases hm
    have hr := PixelSwap.reorders_swap hab
    exact serves_of_both (wholePlane_translates hr PixelSwap.swap_moves.moves)
      (wholePlaneInPlace_reworks hr PixelSwap.reswap_movesInPlace.movesInPlace)
  · obtain ⟨op, hop, rfl⟩ := Option.map_eq_some_iff.1 hm
    have hr := WordShuffle.reorders_between hop
    exact serves_of_both (wholePlane_translates hr (byteTable_moves op).moves)
      (wholePlaneInPlace_reworks hr (byteTable_movesInPlace op).movesInPlace)

theorem avx2?_serves (hm : avx2? a b = some m) : m.Serves a b := by
  rw [avx2?] at hm
  split at hm <;> rename_i ha hb
  · rename_i s o k
    cases hm
    refine serves_of_transfer (planarToPixels_translates ha hb fun t o' h => ?_)
    cases h
    exact RowLanes.start_begins s k
  · split at hm
    · cases hm
    · cases hm
      exact planar_serves ha hb
  · cases hm
    exact serves_of_transfer (pixelsToPlanar_translates ha hb)
  · cases hm

/-- **Every method of every tier serves its pair.** -/
theorem accelerated?_serves {t : Tier} (hm : accelerated? t a b = some m) : m.Serves a b := by
  cases t with
  | portable => cases hm
  | sse2 => exact sse2?_serves hm
  | sse41 => exact sse41?_serves hm
  | avx2 => exact avx2?_serves hm
  | neon => cases hm

/-- Two methods of one pair do the same wherever the checks let them run. -/
theorem Serves.transfer_eq {m' : Method} {src dst : List Plane} {w h : Nat} (hm : m.Serves a b)
    (hm' : m'.Serves a b) (hv : Valid a b w h src dst) :
    m.transfer src dst w h = m'.transfer src dst w h :=
  hm.transfer.unique hm'.transfer hv

/-- **In place or not is the same for every tier,** and only pairs with a portable
method have others. -/
theorem rework?_isSome_accelerated {t : Tier} {m' : Method} (hm : accelerated? t a b = some m') :
    ∃ m, portable? a b = some m ∧ m.rework?.isSome = m'.rework?.isSome := by
  have hall : ∀ t ∈ Tier.all, ∀ a ∈ Format.all, ∀ b ∈ Format.all,
      (accelerated? t a b).all (fun m' =>
        (portable? a b).any fun m => m.rework?.isSome == m'.rework?.isSome) = true := by
    decide +kernel
  have ht : t ∈ Tier.all := by cases t <;> decide
  have hone := hall t ht a a.mem_all b b.mem_all
  rw [hm, Option.all_some] at hone
  obtain ⟨m, hp, heq⟩ := (Option.any_eq_true _ _).1 hone
  exact ⟨m, hp, by simpa using heq⟩

end Method
end FrameConvert
