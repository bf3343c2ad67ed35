/-
# In place as into planes of their own

A frame can be reworked where it stands if source and target are one format or of one
class:

| class | what is reordered |
| --- | --- |
| `YUY2`, `UYVY`, `YVYU` | the bytes of macro pixels |
| `RGB24`, `BGR24` | the bytes of pixels |
| `RGBA32`, `ABGR32`, `ARGB32`, `BGRA32` | the bytes of pixels, with their alpha |
| `YUV420P`, `YV12` | the chroma planes |

Formats of a class are of one shape (`Reworkable.sameShape`): what is a frame of the one
is a frame of the other.  A rework and a transfer draw the same frame
(`Method.Serves`), so the outcome in place is that of a conversion into other planes,
and the rest of the memory stays.
-/

import FrameConvert.Proofs.Kernels

namespace FrameConvert

/-- The formats that differ in the order of their bytes or planes alone. -/
def reorderClasses : List (List Format) :=
  [[.yuy2, .uyvy, .yvyu], [.rgb24, .bgr24], [.rgba32, .abgr32, .argb32, .bgra32],
    [.yuv420p, .yv12]]

/-- Frames of `a` can be made frames of `b` where they stand. -/
def Reworkable (a b : Format) : Prop := a = b ∨ ∃ c ∈ reorderClasses, a ∈ c ∧ b ∈ c

instance (a b : Format) : Decidable (Reworkable a b) :=
  inferInstanceAs (Decidable (_ ∨ ∃ c ∈ reorderClasses, a ∈ c ∧ b ∈ c))

/-- Planes of the same number and sizes hold frames of both formats. -/
structure SameShape (a b : Format) : Prop where
  chromaBlock : a.chromaBlock = b.chromaBlock
  planeCount : a.planeCount = b.planeCount
  planeSize : ∀ w h i, a.planeSize w h i = b.planeSize w h i

namespace SameShape

variable {a b : Format} {w h : Nat} {planes : List Plane}

theorem fit (hab : SameShape a b) (ha : Fit a w h) : Fit b w h := by
  rw [Fit, ← hab.chromaBlock]
  exact ha

theorem holds (hab : SameShape a b) (ha : Holds a w h planes) : Holds b w h planes := by
  refine ⟨hab.planeCount ▸ ha.count, fun i hi => ?_⟩
  rw [← hab.planeSize]
  exact ha.size i (hab.planeCount ▸ hi)

end SameShape

namespace Reworkable

variable {a b : Format} {m : Method}

/-- **Formats of one class are of one shape.** -/
theorem sameShape (hab : Reworkable a b) : SameShape a b := by
  have hall : ∀ a ∈ Format.all, ∀ b ∈ Format.all, Reworkable a b →
      a.isPlanar = b.isPlanar ∧ a.chromaBlock = b.chromaBlock ∧
        a.bytesPerPixel = b.bytesPerPixel := by
    decide +kernel
  obtain ⟨hp, hc, hn⟩ := hall a a.mem_all b b.mem_all hab
  have hcount : a.planeCount = b.planeCount := by
    rw [Format.planeCount, Format.planeCount, hp]
  refine ⟨hc, hcount, fun w h i => ?_⟩
  rw [Format.planeSize, Format.planeSize, Format.chromaSize, Format.chromaSize, hp, hc, hn,
    hcount]

/-- **The portable method of a pair has a rework exactly within a class.** -/
theorem iff_portable (hm : Method.portable? a b = some m) :
    m.rework?.isSome = true ↔ Reworkable a b := by
  have hall : ∀ a ∈ Format.all, ∀ b ∈ Format.all, (Method.portable? a b).all (fun m =>
      m.rework?.isSome == decide (Reworkable a b)) = true := by
    decide +kernel
  have hone := hall a a.mem_all b b.mem_all
  rw [hm, Option.all_some, beq_iff_eq] at hone
  rw [hone, decide_eq_true_iff]

/-- Within a class every pair has a method. -/
theorem isSome_portable? (hab : Reworkable a b) : (Method.portable? a b).isSome = true := by
  have hall : ∀ a ∈ Format.all, ∀ b ∈ Format.all, Reworkable a b →
      (Method.portable? a b).isSome = true := by
    decide +kernel
  exact hall a a.mem_all b b.mem_all hab

end Reworkable

namespace Engine

variable {a b : Format} {k : Kernel} {m : Mask} {w h : Nat} {planes dst : List Plane}

/-- The kernel of a pair works in place exactly within a class, whatever the mask. -/
theorem worksInPlace_iff (hk : (build m).lookup a b = some k) :
    k.worksInPlace = true ↔ Reworkable a b := by
  obtain ⟨-, p, hp, hi⟩ := of_lookup_build hk
  obtain ⟨n, hn, rfl⟩ := Option.map_eq_some_iff.1 hp
  rw [hi]
  exact Reworkable.iff_portable hn

/-- The kernel of a pair within a class. -/
theorem exists_lookup (m : Mask) (hab : Reworkable a b) :
    ∃ k, (build m).lookup a b = some k ∧ k.worksInPlace = true := by
  have hs : (build m).supports a b = true := (supports_build m a b).trans hab.isSome_portable?
  obtain ⟨k, hk⟩ := Option.isSome_iff_exists.1 hs
  exact ⟨k, hk, (worksInPlace_iff hk).2 hab⟩

/-- **In place the frame is that of a conversion into other planes,** and the rest of the
memory stays. -/
theorem exists_convertInPlace (m : Mask) (hab : Reworkable a b)
    (hv : Valid a b w h planes planes) :
    ∃ out, (build m).convertInPlace a b w h planes = ⟨out, none⟩ ∧ KeepsRest b w h planes out ∧
      ∀ dst, Holds b w h dst →
        ∃ fresh, (build m).convert a b w h planes dst = ⟨fresh, none⟩ ∧
          SameFrame b w h out fresh := by
  obtain ⟨k, hk, hi⟩ := exists_lookup m hab
  obtain ⟨out, hout, ho⟩ := convertInPlace_of_valid hk hi hv
  refine ⟨out, hout, ho.keepsRest, fun dst hd => ?_⟩
  obtain ⟨fresh, hfresh, hof⟩ := convert_of_valid (Option.isSome_iff_exists.2 ⟨k, hk⟩)
    ⟨hv.wide, hv.high, hv.source, hv.target, hv.src, hd⟩
  refine ⟨fresh, hfresh, fun i hi j hj => ?_⟩
  rw [ho.byte hv.dst hi hj, hof.byte hd hi hj]

/-- Outside the classes nothing but the pair is looked at. -/
theorem convertInPlace_refused (hk : (build m).lookup a b = some k) (hab : ¬Reworkable a b)
    (w h : Nat) (planes : List Plane) :
    (build m).convertInPlace a b w h planes =
      ⟨planes, some (.refused (.inPlaceUnsupported a b))⟩ := by
  obtain ⟨⟨hs, ht, -⟩, -⟩ := of_lookup_build hk
  have hnone : k.method.rework? = none := by
    rw [← Option.not_isSome_iff_eq_none]
    exact fun hi => hab ((worksInPlace_iff hk).1 hi)
  rw [convertInPlace_eq, kernel, hk, bind_eq_of_ok rfl, Kernel.reworked, hnone]
  dsimp only
  rw [hs, ht]
  rfl

/-- **In place equals fresh.**  Whatever the mask, a registered pair works in place exactly
if it is one format or one class of orders.  Both formats of such a pair have the same
blocks and plane sizes, so planes that pass the checks for the first pass those for the
second; then the conversion in place goes through, leaves everything behind the frame and
all surplus planes as they were, and makes the frame what a conversion of the same planes
writes into any other planes that are enough.  Any other registered pair is refused for
what it is, whatever the sides and planes, and nothing is changed. -/
theorem in_place_is_fresh (m : Mask) {a b : Format} {k : Kernel}
    (hk : (build m).lookup a b = some k) (w h : UInt32) (planes : List Plane) :
    (k.worksInPlace = true ↔ Reworkable a b) ∧
      (k.worksInPlace = true →
        a.chromaBlock = b.chromaBlock ∧ (∀ x y i, a.planeSize x y i = b.planeSize x y i) ∧
        (checkGeometry a w.toNat h.toNat = .ok () → checkGeometry b w.toNat h.toNat = .ok () ∧
          (checkPlanes planes a w.toNat h.toNat = .ok () →
            checkPlanes planes b w.toNat h.toNat = .ok () ∧
            ∃ out, (build m).convertInPlace a b w.toNat h.toNat planes = ⟨out, none⟩ ∧
              KeepsRest b w.toNat h.toNat planes out ∧
              ∀ dst, checkPlanes dst b w.toNat h.toNat = .ok () →
                ∃ fresh, (build m).convert a b w.toNat h.toNat planes dst = ⟨fresh, none⟩ ∧
                  SameFrame b w.toNat h.toNat out fresh))) ∧
      (k.worksInPlace = false →
        (build m).convertInPlace a b w.toNat h.toNat planes =
          ⟨planes, some (.refused (.inPlaceUnsupported a b))⟩) := by
  refine ⟨worksInPlace_iff hk, fun hi => ?_, fun hi => ?_⟩
  · have hab := (worksInPlace_iff hk).1 hi
    have hshape := hab.sameShape
    refine ⟨hshape.chromaBlock, hshape.planeSize, fun hg => ?_⟩
    have hfa := checkGeometry_eq_ok_iff.1 hg
    have hfb := hshape.fit hfa
    refine ⟨checkGeometry_eq_ok_iff.2 hfb, fun hc => ?_⟩
    have hpa := (checkPlanes_eq_ok_iff hfa).1 hc
    have hpb := hshape.holds hpa
    refine ⟨(checkPlanes_eq_ok_iff hfb).2 hpb, ?_⟩
    obtain ⟨out, hout, hrest, hfresh⟩ :=
      exists_convertInPlace m hab ⟨w.toNat_lt, h.toNat_lt, hfa, hfb, hpa, hpb⟩
    exact ⟨out, hout, hrest, fun dst hd => hfresh dst ((checkPlanes_eq_ok_iff hfb).1 hd)⟩
  · refine convertInPlace_refused hk (fun hab => ?_) _ _ planes
    rw [(worksInPlace_iff hk).2 hab] at hi
    cases hi

/-- One macro pixel from `YUY2` to `UYVY`, with a byte behind it and a surplus plane. -/
theorem macro_pixel_in_place_is_fresh :
    ∃ out fresh,
      (build .detected).convertInPlace .yuy2 .uyvy 2 1 [#[1, 2, 3, 4, 5], #[6]] = ⟨out, none⟩ ∧
      KeepsRest .uyvy 2 1 [#[1, 2, 3, 4, 5], #[6]] out ∧
      (build .detected).convert .yuy2 .uyvy 2 1 [#[1, 2, 3, 4, 5], #[6]] [.replicate 4 0] =
        ⟨fresh, none⟩ ∧
      SameFrame .uyvy 2 1 out fresh := by
  obtain ⟨k, hk, hi⟩ := exists_lookup .detected (show Reworkable .yuy2 .uyvy by decide)
  obtain ⟨-, hclass, -⟩ := in_place_is_fresh .detected hk 2 1 [#[1, 2, 3, 4, 5], #[6]]
  obtain ⟨-, -, hgeometry⟩ := hclass hi
  obtain ⟨-, hplanes⟩ := hgeometry (by decide)
  obtain ⟨-, out, hout, hrest, hfresh⟩ := hplanes (by decide)
  obtain ⟨fresh, hconvert, hsame⟩ := hfresh [.replicate 4 0] (by decide)
  exact ⟨out, fresh, hout, hrest, hconvert, hsame⟩

end Engine
end FrameConvert
