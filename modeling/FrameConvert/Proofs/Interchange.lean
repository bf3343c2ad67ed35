/-
# Formats that differ in order alone

| class | what differs |
| --- | --- |
| `YUV420P`, `YV12` | which chroma plane comes first |
| `YUV422P`, `YUY2`, `UYVY`, `YVYU` | where the samples of a macro pixel lie |
| `RGB24`, `BGR24` | the order of the channels |
| `RGBA32`, `ABGR32`, `ARGB32`, `BGRA32` | the order of the channels, alpha among them |

Formats of a class have one content, so each keeps of pixels what the others keep.  A frame
that came to one of them is drawn in another as if it had come there at once, and a frame
that leaves one of them is drawn elsewhere as if it had never been moved to the other
(`draw_kept_of_content`, `draw_view_of_content`).  By induction a journey within a class,
of any length, is one conversion (`along_of_content`), and one that returns restores the
frame.
-/

import FrameConvert.Proofs.Journey

namespace FrameConvert

/-- The classes of formats that differ in the order of bytes or planes alone. -/
def orderClasses : List (List Format) :=
  [[.yuv420p, .yv12], [.yuv422p, .yuy2, .uyvy, .yvyu], [.rgb24, .bgr24],
    [.rgba32, .abgr32, .argb32, .bgra32]]

/-- **The formats of a class keep the same of pixels,** for the same blocks. -/
theorem content_of_orderClass {cls : List Format} (hcls : cls ∈ orderClasses) {a b : Format}
    (ha : a ∈ cls) (hb : b ∈ cls) :
    a.content = b.content ∧ a.chromaBlock = b.chromaBlock ∧
      (Method.portable? a b).isSome = true := by
  have hall : ∀ cls ∈ orderClasses, ∀ a ∈ cls, ∀ b ∈ cls,
      a.content = b.content ∧ a.chromaBlock = b.chromaBlock ∧
        (Method.portable? a b).isSome = true := by
    decide +kernel
  exact hall cls hcls a ha b hb

section Content

variable {a b c : Format} {w h : Nat} {px : Nat → Pixel}

/-- What is left of pixels in a format is all that one of its content draws of them. -/
theorem draw_kept_of_content (hbc : b.content = c.content) (hc : Fit c w h) (px : Nat → Pixel)
    {i j : Nat} (hi : i < c.planeCount) (hj : j < c.planeSize w h i) :
    c.layout.draw w (b.content.kept w px) i j = c.layout.draw w px i j := by
  rw [hbc]
  exact draw_kept hc px hi hj

/-- What a frame shows stays whole in a format of its content. -/
theorem draw_view_of_content (hab : a.content = b.content) (ha : Fit a w h) (hc : Fit c w h)
    (x : FrameBytes) {i j : Nat} (hi : i < c.planeCount) (hj : j < c.planeSize w h i) :
    c.layout.draw w (b.content.kept w (a.layout.view w x)) i j =
      Layout.translated a.layout c.layout w x i j := by
  rw [← hab]
  exact draw_congr hc (fun n hn => kept_view ha x hn) hi hj

/-- **Formats of one content along the way do not matter.** -/
theorem along_of_content {bs : List Format} : ∀ {a x}, Fit a w h →
    (∀ b ∈ bs, Fit b w h ∧ b.content = a.content) →
      ∀ i < (bs.getLastD a).planeCount, ∀ j < (bs.getLastD a).planeSize w h i,
        along w a x bs i j = Layout.translated a.layout (bs.getLastD a).layout w x i j := by
  intro a x ha hbs
  induction bs generalizing a x with
  | nil =>
    intro i hi j hj
    exact (draw_view ha x hi hj).symm
  | cons b bs ih =>
    obtain ⟨hb, hba⟩ := hbs b List.mem_cons_self
    have hlast : Fit (bs.getLastD b) w h := by
      rcases List.mem_cons.1 (List.getLastD_mem_cons : bs.getLastD b ∈ b :: bs) with hl | hl
      · rwa [hl]
      · exact (hbs _ (List.mem_cons_of_mem b hl)).1
    intro i hi j hj
    rw [List.getLastD_cons] at hi hj ⊢
    rw [along, ih hb (fun c hc => ?_) i hi j hj, translated_translated hb]
    · exact draw_view_of_content hba.symm ha hlast x hi hj
    · obtain ⟨hc, hca⟩ := hbs c (List.mem_cons_of_mem b hc)
      exact ⟨hc, hca.trans hba.symm⟩

end Content

namespace Engine

/-- **Formats of a class are interchangeable.**  Between two formats of a class every
conversion exists.  What comes to the second by way of the first comes there directly, from
whatever format; what leaves the first by way of the second leaves it directly, to whatever
format.  A journey from the first to the second within the class, of any length, each leg
into other planes or where the frame stands, ends with the frame of the one direct
conversion, and with the frame it began with if the two are one format. -/
theorem orders_are_interchangeable (m : Mask) {cls : List Format} (hcls : cls ∈ orderClasses)
    {a b : Format} (ha : a ∈ cls) (hb : b ∈ cls) (w h : UInt32)
    (hfit : Fit a w.toNat h.toNat) :
    (build m).supports a b = true ∧ Fit b w.toNat h.toNat ∧
      (∀ x, Fit x w.toNat h.toNat → (build m).supports x b = true →
        (build m).Invisible w.toNat h.toNat x a b) ∧
      (∀ z, Fit z w.toNat h.toNat → (build m).supports a z = true →
        (build m).Invisible w.toNat h.toNat a b z) ∧
      ∀ src dst legs, Holds a w.toNat h.toNat src → Holds b w.toNat h.toNat dst →
        (∀ leg ∈ legs, leg.target ∈ cls) → (legs.map Leg.target).getLastD a = b →
        Ready (build m) w.toNat h.toNat a legs →
          ∃ out direct, (build m).journey w.toNat h.toNat a src legs = ⟨out, none⟩ ∧
            (build m).convert a b w.toNat h.toNat src dst = ⟨direct, none⟩ ∧
            SameFrame b w.toNat h.toNat out direct ∧
            (a = b → SameFrame b w.toNat h.toNat out src) := by
  have hw := w.toNat_lt
  have hh := h.toNat_lt
  obtain ⟨hab, hblock, hpair⟩ := content_of_orderClass hcls ha hb
  have hsupports : (build m).supports a b = true := (supports_build m a b).trans hpair
  have hfitb : Fit b w.toNat h.toNat := by
    rw [Fit, ← hblock]
    exact hfit
  refine ⟨hsupports, hfitb, fun x hx hxb => ?_, fun z hz haz => ?_, ?_⟩
  · exact invisible_of_draw hw hh hxb hx fun y i hi j hj =>
      draw_kept_of_content hab hfitb _ hi hj
  · exact invisible_of_draw hw hh haz hfit fun y i hi j hj =>
      draw_view_of_content hab hfit hz y hi hj
  · intro src dst legs hs hd hin hlast hr
    have hsame : ∀ c ∈ legs.map Leg.target, Fit c w.toNat h.toNat ∧ c.content = a.content := by
      intro c hc
      obtain ⟨leg, hleg, rfl⟩ := List.mem_map.1 hc
      exact ⟨fit_of_ready hfit hr _ hc, (content_of_orderClass hcls (hin leg hleg) ha).1⟩
    obtain ⟨out, hout, ho⟩ := journey_of_ready hw hh hfit hs.carries hr
    obtain ⟨direct, hdirect, hod⟩ := convert_of_valid hsupports ⟨hw, hh, hfit, hfitb, hs, hd⟩
    have ho := ho.congr (along_of_content hfit hsame)
    rw [hlast] at ho
    refine ⟨out, direct, hout, hdirect, ho.sameFrame (hod.carries hd) fun _ _ _ _ => rfl, ?_⟩
    rintro rfl
    exact ho.sameFrame hs.carries fun i hi j hj => draw_view hfit _ hi hj

/-- Two pixels: from `RGB24` by way of `YUV422P` to `UYVY`, from `YUV422P` by way of `UYVY` to
`GRAY8`, and from `YUV422P` into `YUY2`, to `UYVY` where they stand, and back. -/
theorem two_pixels_in_other_orders :
    (∃ via direct,
      (build .detected).journey 2 1 .rgb24 [#[1, 2, 3, 4, 5, 6]]
        [.fresh .yuv422p [#[0, 0], #[0], #[0]], .fresh .uyvy [.replicate 4 0]] = ⟨via, none⟩ ∧
      (build .detected).convert .rgb24 .uyvy 2 1 [#[1, 2, 3, 4, 5, 6]] [.replicate 5 9] =
        ⟨direct, none⟩ ∧ SameFrame .uyvy 2 1 via direct) ∧
    (∃ via direct,
      (build .detected).journey 2 1 .yuv422p [#[16, 81], #[90], #[240]]
        [.fresh .uyvy [.replicate 4 0], .fresh .gray8 [#[0, 0]]] = ⟨via, none⟩ ∧
      (build .detected).convert .yuv422p .gray8 2 1 [#[16, 81], #[90], #[240]] [#[9, 9]] =
        ⟨direct, none⟩ ∧ SameFrame .gray8 2 1 via direct) ∧
    ∃ out,
      (build .detected).journey 2 1 .yuv422p [#[16, 81], #[90], #[240]]
        [.fresh .yuy2 [.replicate 4 0], .inPlace .uyvy, .fresh .yuv422p [#[0, 0], #[0], #[0]]] =
        ⟨out, none⟩ ∧
      SameFrame .yuv422p 2 1 out [#[16, 81], #[90], #[240]] := by
  have hcls : [.yuv422p, .yuy2, .uyvy, .yvyu] ∈ orderClasses := by decide
  obtain ⟨-, -, hto, hfrom, -⟩ := orders_are_interchangeable .detected hcls
    (a := .yuv422p) (b := .uyvy) (by decide) (by decide) 2 1 (by decide)
  obtain ⟨-, -, -, -, hround⟩ := orders_are_interchangeable .detected hcls
    (a := .yuv422p) (b := .yuv422p) (by decide) (by decide) 2 1 (by decide)
  refine ⟨?_, ?_, ?_⟩
  · exact hto .rgb24 (by decide) (supports_build _ _ _) _ _ _ (by decide) (by decide) rfl
      ⟨.fresh rfl (by decide) (by decide), .fresh rfl (by decide) (by decide), trivial⟩
  · exact hfrom .gray8 (by decide) (supports_build _ _ _) _ _ _ (by decide) (by decide) rfl
      ⟨.fresh rfl (by decide) (by decide), .fresh rfl (by decide) (by decide), trivial⟩
  · obtain ⟨out, -, hout, -, -, hsame⟩ := hround [#[16, 81], #[90], #[240]]
      [#[0, 0], #[0], #[0]]
      [.fresh .yuy2 [.replicate 4 0], .inPlace .uyvy, .fresh .yuv422p [#[0, 0], #[0], #[0]]]
      (by decide) (by decide) (by simp [Leg.target]) rfl
      ⟨.fresh rfl (by decide) (by decide), exists_lookup _ (by decide),
        .fresh rfl (by decide) (by decide), trivial⟩
    exact ⟨out, hout, hsame rfl⟩

end Engine
end FrameConvert
