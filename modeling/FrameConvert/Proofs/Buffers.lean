/-
# A conversion between buffers is one between planes

`convertBuffer` splits both buffers and converts the planes it finds.  Three things make that the
same as a conversion into planes of their own:

| of | it is shown that |
| --- | --- |
| the split | its planes are exact, so the kernel's plane check passes (`checkPlanes_of_split`) |
| the conversion | exact planes are overwritten whole (`Overwrites.eq_of_exact`) |
| the transfers | the sizes they compute from the layout are those of the split (`Fit.sizesAgree`) |

What is put together again is the new planes, and behind them the bytes that were behind the frame;
so a buffer stays as long as it is (`of_convertedBuffer_eq_ok`, `size_unsplit_of_split`).  That
holds in place as well, the planes of both formats being of the same sizes
(`of_reworkedBuffer_eq_ok`).
-/

import FrameConvert.Proofs.Refusals
import FrameConvert.Proofs.Safety

namespace FrameConvert

/-- Refusals that tell of planes, and not of a buffer. -/
def Refusal.concernsPlanes : Refusal → Bool
  | .planeCount _ _ | .planeSize _ _ _ => true
  | _ => false

/-- **The geometry is written down twice,** in the tables of the formats and in the layouts that the
transfers go by, and both say the same: the blocks, and the sizes of the planes. -/
structure Format.SizesAgree (f : Format) (w h : Nat) : Prop where
  blocks : f.chromaBlock = f.layout.block
  luma : ∀ p, f.layout = .planar p → size (w * h) = .ok (f.planeSize w h 0)
  chroma : ∀ s o, f.layout = .planar (.chroma s o) →
    chromaSamples s w h = .ok (f.planeSize w h o.u) ∧
      chromaSamples s w h = .ok (f.planeSize w h o.v)
  packed : ∀ o, f.layout = .packed o → size (w * 2 * h) = .ok (f.planeSize w h 0)
  pixels : ∀ l, f.layout = .pixels l → size (w * h * l.channels) = .ok (f.planeSize w h 0)

section Exact

variable {f g : Format} {w h n : Nat} {dst dst' out out' planes : List Plane}
  {F : Nat → Nat → UInt8} {buffer : Plane} {s : Split}

/-- Planes keep their sizes when they are overwritten. -/
theorem Overwrites.exact (ho : Overwrites f w h F dst out) (hd : Exact f w h dst) :
    Exact f w h out := by
  refine ⟨ho.length.trans hd.count, fun i hi => ?_⟩
  rw [(ho.plane i (hd.count ▸ hi)).size]
  exact hd.size i hi

/-- **Exact planes are overwritten whole:** what they held before does not matter. -/
theorem Overwrites.eq_of_exact (ho : Overwrites f w h F dst out)
    (ho' : Overwrites f w h F dst' out') (hd : Exact f w h dst) (hd' : Exact f w h dst') :
    out = out' := by
  have he := ho.exact hd
  have he' := ho'.exact hd'
  refine List.ext_getElem? fun i => ?_
  by_cases hi : i < f.planeCount
  · rw [he.holds.getElem? hi, he'.holds.getElem? hi]
    refine congrArg some (Plane.ext_byte ((he.size i hi).trans (he'.size i hi).symm) fun j hj => ?_)
    rw [he.size i hi] at hj
    rw [ho.byte hd.holds hi hj, ho'.byte hd'.holds hi hj]
  · rw [List.getElem?_eq_none (by rw [he.count]; omega),
      List.getElem?_eq_none (by rw [he'.count]; omega)]

/-- **What is split passes the plane check.** -/
theorem checkPlanes_of_split (hs : split buffer f w h = .ok s) :
    checkPlanes s.planes f w h = .ok () := by
  obtain ⟨hf, -, -⟩ := split_eq_ok_iff.1 hs
  exact (checkPlanes_eq_ok_iff hf).2 (tiles_of_split hs).exact.holds

theorem SameShape.frameSize (hfg : SameShape f g) (w h : Nat) :
    f.frameSize w h = g.frameSize w h := by
  rw [← f.planeOffset_planeCount, ← g.planeOffset_planeCount, hfg.planeCount]
  exact Finset.sum_congr rfl fun i _ => hfg.planeSize w h i

theorem SameShape.exact (hfg : SameShape f g) (he : Exact f w h planes) : Exact g w h planes := by
  refine ⟨he.count.trans hfg.planeCount, fun i hi => ?_⟩
  rw [← hfg.planeSize]
  exact he.size i (hfg.planeCount ▸ hi)

/-- Exact planes of a frame of the same size, put in the place of those that were split. -/
theorem size_unsplit_of_split (hs : split buffer f w h = .ok s) (he : Exact g w h planes)
    (hfg : f.frameSize w h = g.frameSize w h) : (unsplit planes s.rest).size = buffer.size := by
  rw [← unsplit_split hs, size_unsplit, size_unsplit, he.extent_sizes,
    (tiles_of_split hs).exact.extent_sizes, hfg]

/-- Behind them is what was behind the frame. -/
theorem byte_unsplit_of_split (hs : split buffer f w h = .ok s) (he : Exact g w h planes)
    (hfg : f.frameSize w h = g.frameSize w h) (hn : f.frameSize w h ≤ n) :
    (unsplit planes s.rest).byte n = buffer.byte n := by
  obtain ⟨k, rfl⟩ := Nat.exists_eq_add_of_le hn
  have hold := byte_unsplit_behind s.rest k s.planes
  have hnew := byte_unsplit_behind s.rest k planes
  rw [(tiles_of_split hs).exact.extent_sizes, unsplit_split hs] at hold
  rw [he.extent_sizes, ← hfg] at hnew
  rw [hnew, hold]

/-- Sizes of planes are 64-bit words. -/
theorem Fit.size_planeSize (hf : Fit f w h) (i : Nat) :
    size (f.planeSize w h i) = .ok (f.planeSize w h i) := by
  have hsmall := hf.2.2.1
  have hle := f.planeSize_le w h i
  exact size_eq_ok (by omega)

/-- **Both ways of writing the geometry down agree.** -/
theorem Fit.sizesAgree (hf : Fit f w h) : f.SizesAgree w h where
  blocks := f.chromaBlock_eq_layout
  luma p hp := by
    rw [← Format.planeSize_zero_planar hp]
    exact hf.size_planeSize 0
  chroma s o hp := by
    have hchroma : ∀ i, i = 1 ∨ i = 2 → chromaSamples s w h = .ok (f.planeSize w h i) := by
      intro i hi
      rw [chromaSamples, ← Format.planeSize_chroma hp hi]
      exact hf.size_planeSize i
    have huv := o.u_v
    exact ⟨hchroma o.u (by omega), hchroma o.v (by omega)⟩
  packed o hp := by
    rw [Nat.mul_right_comm, ← Format.planeSize_zero_packed hp]
    exact hf.size_planeSize 0
  pixels l hp := by
    rw [← Format.planeSize_zero_pixels hp]
    exact hf.size_planeSize 0

end Exact

section NeverWrong

variable {α : Type} {os : List Objection} {x : Attempt α} {e : Failure}

/-- What fails without being wrong is no fault. -/
theorem NeverWrong.ne_wrong (hx : NeverWrong x) (he : x = .error e) (fault : Fault) :
    some e ≠ some (.wrong fault) := by
  intro hw
  obtain rfl := Option.some.inj hw
  exact hx fault he

theorem neverWrong_guarded (hx : NeverWrong x) : NeverWrong (guarded os x) := by
  cases hv : verdict os with
  | none => rwa [guarded_of_none hv]
  | some why =>
    rw [guarded_of_some hv]
    exact neverWrong_refuse why

theorem split_neverWrong (buffer : Plane) (f : Format) (w h : Nat) :
    NeverWrong (split buffer f w h) := by
  rw [split_eq]
  exact neverWrong_guarded (neverWrong_ok _)

end NeverWrong

section Refused

variable {why : Refusal} {a b : Format} {w h : Nat}

/-- No objection to buffers tells of planes. -/
theorem Engine.concernsPlanes_convertBufferObjections {e : Engine} {src dst : Plane}
    (hv : verdict (e.convertBufferObjections a b w h src dst) = some why) :
    why.concernsPlanes = false := by
  obtain ⟨o, ho, rfl⟩ := why_of_verdict hv
  simp only [convertBufferObjections, pairObjections, bufferObjections, geometryObjections,
    List.mem_append, List.mem_cons, List.not_mem_nil, or_false] at ho
  rcases ho with (rfl | (rfl | rfl | rfl) | rfl) | (rfl | rfl | rfl) | rfl <;> rfl

/-- **Buffers are never refused for planes,** by no engine there could be. -/
theorem Engine.concernsPlanes_of_convertBuffer {e : Engine} {src dst after : Plane}
    (hrun : e.convertBuffer a b w h src dst = ⟨after, some (.refused why)⟩) :
    why.concernsPlanes = false := by
  rw [convertBuffer_eq, convertedBuffer_eq_guarded] at hrun
  cases hv : verdict (e.convertBufferObjections a b w h src dst) with
  | some why' =>
    rw [guarded_of_some hv] at hrun
    cases hrun
    exact concernsPlanes_convertBufferObjections hv
  | none =>
    -- behind the objections there is nothing but the transfer, and that has faults at most
    obtain ⟨hrest, -⟩ := verdict_append_eq_none_iff.1 hv
    obtain ⟨hpair, -⟩ := verdict_append_eq_none_iff.1 hrest
    obtain ⟨k, hk⟩ := verdict_pairObjections.1 hpair
    rw [guarded_of_none hv, kernel, hk, bind_eq_of_ok rfl] at hrun
    cases ht : k.method.transfer (a.planesIn w h src) (b.planesIn w h dst) w h with
    | ok out =>
      rw [ht] at hrun
      cases hrun
    | error fault =>
      rw [ht] at hrun
      cases hrun

end Refused

namespace Engine

variable {m : Mask} {a b : Format} {w h : Nat} {src dst buffer out : Plane} {k : Kernel}

theorem kernel_eq_ok_iff {e : Engine} : e.kernel a b = .ok k ↔ e.lookup a b = some k := by
  rw [kernel]
  cases e.lookup a b with
  | none =>
    constructor
    · intro hk
      cases hk
    · intro hk
      cases hk
  | some k' =>
    exact ⟨fun hk => congrArg some (Except.ok.inj hk), fun hk => congrArg _ (Option.some.inj hk)⟩

theorem kernel_neverWrong (e : Engine) (a b : Format) : NeverWrong (e.kernel a b) := by
  rw [kernel]
  split
  · exact neverWrong_ok _
  · exact neverWrong_refuse _

theorem convertedBuffer_neverWrong (m : Mask) (a b : Format) (hw : w < 0x100000000)
    (hh : h < 0x100000000) (src dst : Plane) :
    NeverWrong ((build m).convertedBuffer a b w h src dst) := by
  refine (kernel_neverWrong _ a b).bind fun k hk => ?_
  refine (split_neverWrong src a w h).bind fun s _ => ?_
  refine (split_neverWrong dst b w h).bind fun d _ => ?_
  have hserves := (of_lookup_build (kernel_eq_ok_iff.1 hk)).1
  exact (Kernel.converted_neverWrong hserves hw hh _ _).bind fun _ _ => neverWrong_ok _

theorem reworkedBuffer_neverWrong (m : Mask) (a b : Format) (hw : w < 0x100000000)
    (hh : h < 0x100000000) (buffer : Plane) :
    NeverWrong ((build m).reworkedBuffer a b w h buffer) := by
  refine (split_neverWrong buffer a w h).bind fun s _ => ?_
  refine (kernel_neverWrong _ a b).bind fun k hk => ?_
  have hserves := (of_lookup_build (kernel_eq_ok_iff.1 hk)).1
  exact (Kernel.reworked_neverWrong hserves hw hh _).bind fun _ _ => neverWrong_ok _

/-- **A conversion puts exact planes** in the place of those of the target buffer. -/
theorem of_convertedBuffer_eq_ok (hw : w < 0x100000000) (hh : h < 0x100000000)
    (hout : (build m).convertedBuffer a b w h src dst = .ok out) :
    ∃ d planes, split dst b w h = .ok d ∧ Exact b w h planes ∧ out = unsplit planes d.rest := by
  obtain ⟨k, hk, hout⟩ := exists_of_bind_eq_ok hout
  obtain ⟨s, hs, hout⟩ := exists_of_bind_eq_ok hout
  obtain ⟨d, hd, hout⟩ := exists_of_bind_eq_ok hout
  obtain ⟨planes, hplanes, hout⟩ := exists_of_bind_eq_ok hout
  obtain rfl := Except.ok.inj hout
  have hserves := (of_lookup_build (kernel_eq_ok_iff.1 hk)).1
  have hv := (Kernel.passes_iff_valid hserves hw hh).1 (Kernel.passes_of_converted hplanes)
  obtain ⟨planes', hplanes', ho⟩ := Kernel.yields_converted hserves hv
  obtain rfl := Except.ok.inj (hplanes.symm.trans hplanes')
  exact ⟨d, planes, hd, ho.exact (tiles_of_split hd).exact, rfl⟩

/-- **A conversion in place puts exact planes of the target format** in the place of those of the
source format, which is of the same shape. -/
theorem of_reworkedBuffer_eq_ok (hw : w < 0x100000000) (hh : h < 0x100000000)
    (hout : (build m).reworkedBuffer a b w h buffer = .ok out) :
    SameShape a b ∧ ∃ s planes, split buffer a w h = .ok s ∧ Exact b w h planes ∧
      out = unsplit planes s.rest := by
  obtain ⟨s, hs, hout⟩ := exists_of_bind_eq_ok hout
  obtain ⟨k, hk, hout⟩ := exists_of_bind_eq_ok hout
  obtain ⟨planes, hplanes, hout⟩ := exists_of_bind_eq_ok hout
  obtain rfl := Except.ok.inj hout
  have hk := kernel_eq_ok_iff.1 hk
  have hserves := (of_lookup_build hk).1
  obtain ⟨hv, -⟩ := of_guarded_eq_ok ((k.reworked_eq_guarded s.planes w h).symm.trans hplanes)
  have hi : k.worksInPlace = true := by
    by_contra hi
    rw [Bool.not_eq_true] at hi
    rw [verdict_cons, hi] at hv
    cases hv
  have hshape := ((worksInPlace_iff hk).1 hi).sameShape
  rw [verdict_cons, hi, hserves.source, hserves.target] at hv
  obtain ⟨hfa, hfb, hha, hhb⟩ := Kernel.verdict_objections.1 hv
  obtain ⟨planes', hplanes', ho⟩ :=
    Kernel.yields_reworked hserves hi ⟨hw, hh, hfa, hfb, hha, hhb⟩
  obtain rfl := Except.ok.inj (hplanes.symm.trans hplanes')
  exact ⟨hshape, s, planes, hs, ho.exact (hshape.exact (tiles_of_split hs).exact), rfl⟩

/-- **Between buffers as between planes:** whatever exact planes a conversion of the source's planes
is made into, they are what the conversion between the buffers puts in front of the rest. -/
theorem convertBuffer_eq_unsplit (hab : (build m).supports a b = true) (hw : w < 0x100000000)
    (hh : h < 0x100000000) (hfa : Fit a w h) (hfb : Fit b w h) (hna : a.frameSize w h ≤ src.size)
    (hnb : b.frameSize w h ≤ dst.size) {planes : List Plane} (hp : Exact b w h planes) :
    ∃ out, (build m).convert a b w h (a.planesIn w h src) planes = ⟨out, none⟩ ∧
      Exact b w h out ∧
      (unsplit out (dst.extract (b.frameSize w h) dst.size)).size = dst.size ∧
      (build m).convertBuffer a b w h src dst =
        ⟨unsplit out (dst.extract (b.frameSize w h) dst.size), none⟩ := by
  have hsrc := (exact_planesIn hna).holds
  have hdst := exact_planesIn hnb
  obtain ⟨out, hout, ho⟩ := convert_of_valid hab ⟨hw, hh, hfa, hfb, hsrc, hp.holds⟩
  have hsplit := split_eq_ok_iff.2 ⟨hfb, hnb, rfl⟩
  refine ⟨out, hout, ho.exact hp, size_unsplit_of_split hsplit (ho.exact hp) rfl, ?_⟩
  obtain ⟨k, hk⟩ := Option.isSome_iff_exists.1 hab
  obtain ⟨out', hout', ho'⟩ :=
    (of_lookup_build hk).1.method.transfer _ _ w h ⟨hw, hh, hfa, hfb, hsrc, hdst.holds⟩
  have hclear : verdict ((build m).convertBufferObjections a b w h src dst) = none := by
    simp only [convertBufferObjections, verdict_append_eq_none_iff]
    exact ⟨⟨verdict_pairObjections.2 ⟨k, hk⟩, verdict_bufferObjections.2 ⟨hfa, hna⟩⟩,
      verdict_bufferObjections.2 ⟨hfb, hnb⟩⟩
  rw [convertBuffer_eq, convertedBuffer_eq_guarded, guarded_of_none hclear, kernel, hk,
    bind_eq_of_ok rfl, hout', attempt_ok, ho.eq_of_exact ho' hp hdst]
  rfl

/-- **Into a buffer of a frame's size** a conversion always puts the same: what was there before
does not matter, and the frame that it holds then draws what the source shows. -/
theorem exists_convertBuffer (hab : (build m).supports a b = true) (hw : w < 0x100000000)
    (hh : h < 0x100000000) (hfa : Fit a w h) (hfb : Fit b w h) (hna : a.frameSize w h ≤ src.size) :
    ∃ out : Plane, out.size = b.frameSize w h ∧
      (∀ dst : Plane, dst.size = b.frameSize w h →
        (build m).convertBuffer a b w h src dst = ⟨out, none⟩) ∧
      Carries b w h (Layout.translated a.layout b.layout w (bytesOf (a.planesIn w h src)))
        (b.planesIn w h out) := by
  have hp : Exact b w h (b.planesIn w h (Array.replicate (b.frameSize w h) 0)) :=
    exact_planesIn (Nat.le_of_eq Array.size_replicate.symm)
  obtain ⟨planes, hplanes, ho⟩ := convert_of_valid hab
    ⟨hw, hh, hfa, hfb, (exact_planesIn hna).holds, hp.holds⟩
  have he := ho.exact hp
  refine ⟨unsplit planes #[], ?_, fun dst hdst => ?_, ?_⟩
  · rw [size_unsplit, he.extent_sizes]
    rfl
  · obtain ⟨planes', hplanes', -, -, hbuffer⟩ :=
      convertBuffer_eq_unsplit hab hw hh hfa hfb hna (Nat.le_of_eq hdst.symm) hp
    rw [hplanes] at hplanes'
    cases hplanes'
    have hrest : dst.extract (b.frameSize w h) dst.size = #[] :=
      Array.extract_eq_empty_of_le (by omega)
    rw [hrest] at hbuffer
    exact hbuffer
  · rw [he.planesIn_unsplit]
    exact ho.carries hp.holds

/-- **Buffers are converted as planes are.**  Whatever the mask, buffers that hold a frame each are
converted for every registered pair and sides that are fit for both formats; a conversion of the
split source makes exact planes of any exact planes, and the new buffer is these, and behind them
the bytes that were behind the target frame, so it is as long as the old one.  No engine refuses
buffers for their planes, as planes that come of a split pass the plane check.  The sizes that
transfers compute from the layouts are those of the split's planes; so every kernel there is for the
pair, on planes that are not a byte longer, goes through, which it would not if it left one of
them. -/
theorem buffers_convert_as_planes (a b : Format) (w h : UInt32) :
    (∀ m, (build m).supports a b = true →
      checkGeometry a w.toNat h.toNat = .ok () → checkGeometry b w.toNat h.toNat = .ok () →
      ∀ src dst : Plane, a.frameSize w.toNat h.toNat ≤ src.size →
        b.frameSize w.toNat h.toNat ≤ dst.size →
        ∃ s, split src a w.toNat h.toNat = .ok s ∧
          ∀ planes, Exact b w.toNat h.toNat planes →
            ∃ out, (build m).convert a b w.toNat h.toNat s.planes planes = ⟨out, none⟩ ∧
              Exact b w.toNat h.toNat out ∧
              (unsplit out (dst.extract (b.frameSize w.toNat h.toNat) dst.size)).size =
                dst.size ∧
              (build m).convertBuffer a b w.toNat h.toNat src dst =
                ⟨unsplit out (dst.extract (b.frameSize w.toNat h.toNat) dst.size), none⟩) ∧
    (∀ (e : Engine) (src dst after : Plane) (why : Refusal),
      e.convertBuffer a b w.toNat h.toNat src dst = ⟨after, some (.refused why)⟩ →
        why.concernsPlanes = false) ∧
    (∀ (f : Format) (buffer : Plane) (s : Split), split buffer f w.toNat h.toNat = .ok s →
      checkPlanes s.planes f w.toNat h.toNat = .ok ()) ∧
    (∀ f, checkGeometry f w.toNat h.toNat = .ok () → f.SizesAgree w.toNat h.toNat) ∧
    ∀ k : Kernel, k.Available a b → ∀ (src dst : Plane) (s t : Split),
      split src a w.toNat h.toNat = .ok s → split dst b w.toNat h.toNat = .ok t →
        ∃ out, k.method.transfer s.planes t.planes w.toNat h.toNat = .ok out ∧
          Exact b w.toNat h.toNat out := by
  have hw := w.toNat_lt
  have hh := h.toNat_lt
  refine ⟨fun m hab hga hgb src dst hna hnb => ?_, fun e src dst after why hrun => ?_,
    fun f buffer s hs => checkPlanes_of_split hs,
    fun f hg => (checkGeometry_eq_ok_iff.1 hg).sizesAgree, fun k hk src dst s t hs ht => ?_⟩
  · have hfa := checkGeometry_eq_ok_iff.1 hga
    have hfb := checkGeometry_eq_ok_iff.1 hgb
    exact ⟨_, split_eq_ok_iff.2 ⟨hfa, hna, rfl⟩, fun planes hp =>
      convertBuffer_eq_unsplit hab hw hh hfa hfb hna hnb hp⟩
  · exact concernsPlanes_of_convertBuffer hrun
  · have hes := (tiles_of_split hs).exact
    have het := (tiles_of_split ht).exact
    obtain ⟨hfa, -, -⟩ := split_eq_ok_iff.1 hs
    obtain ⟨hfb, -, -⟩ := split_eq_ok_iff.1 ht
    obtain ⟨out, hout, ho⟩ := hk.serves.method.transfer s.planes t.planes w.toNat h.toNat
      ⟨hw, hh, hfa, hfb, hes.holds, het.holds⟩
    exact ⟨out, hout, ho.exact het⟩

/-- Two by two pixels from `YUV420P` to `GRAY8`, with a byte to spare in both buffers. -/
theorem gray_in_five_bytes :
    ∃ s out, split #[16, 81, 145, 235, 90, 240, 7] .yuv420p 2 2 = .ok s ∧
      (build .detected).convert .yuv420p .gray8 2 2 s.planes [.replicate 4 0] = ⟨out, none⟩ ∧
      Exact .gray8 2 2 out ∧
      (build .detected).convertBuffer .yuv420p .gray8 2 2 #[16, 81, 145, 235, 90, 240, 7]
        #[1, 2, 3, 4, 5] = ⟨unsplit out #[5], none⟩ := by
  have hab : (build .detected).supports .yuv420p .gray8 = true :=
    supports_build .detected .yuv420p .gray8
  obtain ⟨hconvert, -⟩ := buffers_convert_as_planes .yuv420p .gray8 2 2
  obtain ⟨s, hs, hplanes⟩ := hconvert .detected hab (by decide) (by decide)
    #[16, 81, 145, 235, 90, 240, 7] #[1, 2, 3, 4, 5] (by decide) (by decide)
  obtain ⟨out, hout, hexact, -, hbuffer⟩ := hplanes [.replicate 4 0] ⟨rfl, by decide⟩
  exact ⟨s, out, hs, hout, hexact, hbuffer⟩

end Engine
end FrameConvert
