/-
# A conversion fails for the first objection, and changes nothing then

An engine has three ways to convert, and raises its objections in this order:

| conversion | pair | then |
| --- | --- | --- |
| `convert` | registered | both geometries, the source planes, the target planes |
| `convertBuffer` | registered | source geometry and buffer, target geometry and buffer |
| `convertInPlace` | registered, in place | both geometries, the planes for both formats |

Each is `guarded` by its list for every engine there could be (`convert_eq_guarded`,
`convertedBuffer_eq_guarded`, `convertInPlace_eq_guarded`): a method is asked only behind the guard.
Nothing that looks comes after a write (`Kernel.atomic_converting`,
`Engine.atomic_convertingBuffer`), so no byte is written before the last objection has been raised.
Behind the guard the engine of a mask cannot fail.  That settles what a conversion ends in
(`Settled`).
-/

import FrameConvert.Proofs.InPlace
import FrameConvert.Proofs.Objections

namespace FrameConvert
namespace Engine

/-- What is wrong with a conversion between planes. -/
def convertObjections (e : Engine) (a b : Format) (w h : Nat) (src dst : List Plane) :
    List Objection :=
  e.pairObjections a b ++ Kernel.objections a b w h src dst

/-- What is wrong with a conversion between buffers. -/
def convertBufferObjections (e : Engine) (a b : Format) (w h : Nat) (src dst : Plane) :
    List Objection :=
  e.pairObjections a b ++ bufferObjections src.size a w h ++ bufferObjections dst.size b w h

/-- A pair needs planes of its own for the target. -/
def inPlaceObjection (e : Engine) (a b : Format) : Objection :=
  ⟨!(e.lookup a b).any (·.worksInPlace), .inPlaceUnsupported a b⟩

/-- What is wrong with a conversion where the frame stands. -/
def convertInPlaceObjections (e : Engine) (a b : Format) (w h : Nat) (planes : List Plane) :
    List Objection :=
  e.pairObjections a b ++ e.inPlaceObjection a b :: Kernel.objections a b w h planes planes

/-- **A conversion is settled by its objections:** it is refused for the first that applies, the
memory as it was, and this whatever the methods of the engine.  If none applies, the engine of a
mask does convert; so where one fails, it is for the first objection and nothing has changed. -/
structure Settled {α : Type} (objections : Engine → List Objection) (before : α)
    (run : Engine → Outcome α) : Prop where
  refused : ∀ e why, verdict (objections e) = some why → run e = ⟨before, some (.refused why)⟩
  done : ∀ m, verdict (objections (build m)) = none → ∃ after, run (build m) = ⟨after, none⟩
  failed : ∀ m after failure, run (build m) = ⟨after, some failure⟩ →
    after = before ∧ ∃ why, verdict (objections (build m)) = some why ∧ failure = .refused why

section Guarded

variable {a b : Format} {w h : Nat}

/-- **Planes are converted unless something is wrong with them.** -/
theorem convert_eq_guarded (e : Engine) (a b : Format) (w h : Nat) (src dst : List Plane) :
    e.convert a b w h src dst = .allOrNothing dst (guarded (e.convertObjections a b w h src dst) do
      attempt ((← e.kernel a b).method.transfer src dst w h)) := by
  rw [convert_eq, kernel_bind_eq, convertObjections, guarded_append]
  refine congrArg _ (guarded_congr fun hv => ?_)
  obtain ⟨k, hk⟩ := verdict_pairObjections.1 hv
  obtain ⟨hs, ht⟩ := pair_of_lookup hk
  rw [kernel, hk, bind_eq_of_ok rfl, bind_eq_of_ok rfl, Kernel.converted_eq_guarded, hs, ht]

/-- **Buffers are converted unless something is wrong with them.**  Their planes are exact, so the
kernel has no objection of its own. -/
theorem convertedBuffer_eq_guarded (e : Engine) (a b : Format) (w h : Nat) (src dst : Plane) :
    e.convertedBuffer a b w h src dst = guarded (e.convertBufferObjections a b w h src dst) (do
      let k ← e.kernel a b
      let out ← attempt (k.method.transfer (a.planesIn w h src) (b.planesIn w h dst) w h)
      return unsplit out (dst.extract (b.frameSize w h) dst.size)) := by
  rw [convertedBuffer, kernel_bind_eq, convertBufferObjections, guarded_append, guarded_append]
  refine guarded_congr fun hv => ?_
  obtain ⟨k, hk⟩ := verdict_pairObjections.1 hv
  obtain ⟨hs, ht⟩ := pair_of_lookup hk
  rw [kernel, hk, bind_eq_of_ok rfl, bind_eq_of_ok rfl, split_eq, guarded_bind]
  refine guarded_congr fun hva => ?_
  rw [bind_eq_of_ok rfl, split_eq, guarded_bind]
  refine guarded_congr fun hvb => ?_
  obtain ⟨hfa, hna⟩ := verdict_bufferObjections.1 hva
  obtain ⟨hfb, hnb⟩ := verdict_bufferObjections.1 hvb
  -- what the buffers have passed leaves the kernel nothing to object to
  have hclear : verdict (Kernel.objections k.source k.target w h (a.planesIn w h src)
      (b.planesIn w h dst)) = none := by
    rw [hs, ht, Kernel.verdict_objections]
    exact ⟨hfa, hfb, (exact_planesIn hna).holds, (exact_planesIn hnb).holds⟩
  rw [bind_eq_of_ok rfl, Kernel.converted_eq_guarded, guarded_of_none hclear]

/-- **A frame is converted where it stands unless something is wrong with it.** -/
theorem convertInPlace_eq_guarded (e : Engine) (a b : Format) (w h : Nat) (planes : List Plane) :
    e.convertInPlace a b w h planes = .allOrNothing planes
      (guarded (e.convertInPlaceObjections a b w h planes) do
        attempt (((← e.kernel a b).method.rework?.getD keep) planes w h)) := by
  rw [convertInPlace_eq, kernel_bind_eq, convertInPlaceObjections, guarded_append]
  refine congrArg _ (guarded_congr fun hv => ?_)
  obtain ⟨k, hk⟩ := verdict_pairObjections.1 hv
  obtain ⟨hs, ht⟩ := pair_of_lookup hk
  rw [kernel, hk, bind_eq_of_ok rfl, bind_eq_of_ok rfl, Kernel.reworked_eq_guarded, hs, ht,
    inPlaceObjection, hk, Option.any_some]

end Guarded

section Settled

variable {α : Type} {a b : Format} {w h : Nat} {k : Kernel} {m : Mask}

/-- What is guarded is settled if nothing fails behind the guard. -/
theorem settled_of_guarded {objections : Engine → List Objection} {before : α}
    {run : Engine → Outcome α} {x : Engine → Attempt α}
    (hrun : ∀ e, run e = .allOrNothing before (guarded (objections e) (x e)))
    (hx : ∀ m, verdict (objections (build m)) = none → Yields (x (build m)) fun _ => True) :
    Settled objections before run := by
  have hrefused : ∀ e why, verdict (objections e) = some why →
      run e = ⟨before, some (.refused why)⟩ := by
    intro e why hv
    rw [hrun, guarded_of_some hv]
    rfl
  have hdone : ∀ m, verdict (objections (build m)) = none →
      ∃ after, run (build m) = ⟨after, none⟩ := by
    intro m hv
    obtain ⟨after, hafter, -⟩ := hx m hv
    exact ⟨after, by rw [hrun, guarded_of_none hv, hafter]; rfl⟩
  refine ⟨hrefused, hdone, fun m after failure hfail => ?_⟩
  cases hv : verdict (objections (build m)) with
  | none =>
    obtain ⟨_, hafter⟩ := hdone m hv
    rw [hfail] at hafter
    cases hafter
  | some why =>
    have hbefore := hrefused _ why hv
    rw [hfail] at hbefore
    cases hbefore
    exact ⟨rfl, why, rfl, rfl⟩

theorem convert_settled (a b : Format) (hw : w < 0x100000000) (hh : h < 0x100000000)
    (src dst : List Plane) :
    Settled (·.convertObjections a b w h src dst) dst (·.convert a b w h src dst) := by
  refine settled_of_guarded (fun e => e.convert_eq_guarded a b w h src dst) fun m hv => ?_
  obtain ⟨hpair, hobjections⟩ := verdict_append_eq_none_iff.1 hv
  obtain ⟨k, hk⟩ := verdict_pairObjections.1 hpair
  obtain ⟨hfa, hfb, hs, hd⟩ := Kernel.verdict_objections.1 hobjections
  obtain ⟨out, hout, -⟩ := (of_lookup_build hk).1.method.transfer src dst w h
    ⟨hw, hh, hfa, hfb, hs, hd⟩
  refine ⟨out, ?_, trivial⟩
  rw [kernel, hk, bind_eq_of_ok rfl, hout, attempt_ok]

theorem convertBuffer_settled (a b : Format) (hw : w < 0x100000000) (hh : h < 0x100000000)
    (src dst : Plane) :
    Settled (·.convertBufferObjections a b w h src dst) dst (·.convertBuffer a b w h src dst) := by
  refine settled_of_guarded (fun e => (e.convertBuffer_eq a b w h src dst).trans
    (congrArg _ (e.convertedBuffer_eq_guarded a b w h src dst))) fun m hv => ?_
  obtain ⟨hrest, htarget⟩ := verdict_append_eq_none_iff.1 hv
  obtain ⟨hpair, hsource⟩ := verdict_append_eq_none_iff.1 hrest
  obtain ⟨k, hk⟩ := verdict_pairObjections.1 hpair
  obtain ⟨hfa, hna⟩ := verdict_bufferObjections.1 hsource
  obtain ⟨hfb, hnb⟩ := verdict_bufferObjections.1 htarget
  obtain ⟨out, hout, -⟩ := (of_lookup_build hk).1.method.transfer _ _ w h
    ⟨hw, hh, hfa, hfb, (exact_planesIn hna).holds, (exact_planesIn hnb).holds⟩
  refine ⟨unsplit out (dst.extract (b.frameSize w h) dst.size), ?_, trivial⟩
  rw [kernel, hk, bind_eq_of_ok rfl, hout, attempt_ok, bind_eq_of_ok rfl]
  rfl

/-- Nothing is wrong with a pair in place. -/
theorem verdict_inPlace {e : Engine} {os : List Objection} :
    verdict (e.pairObjections a b ++ e.inPlaceObjection a b :: os) = none ↔
      (∃ k, e.lookup a b = some k ∧ k.worksInPlace = true) ∧ verdict os = none := by
  rw [verdict_append_eq_none_iff, verdict_pairObjections, verdict_cons, inPlaceObjection]
  cases e.lookup a b with
  | none => simp
  | some k => cases hi : k.worksInPlace <;> simp [hi]

theorem convertInPlace_settled (a b : Format) (hw : w < 0x100000000) (hh : h < 0x100000000)
    (planes : List Plane) :
    Settled (·.convertInPlaceObjections a b w h planes) planes
      (·.convertInPlace a b w h planes) := by
  refine settled_of_guarded (fun e => e.convertInPlace_eq_guarded a b w h planes) fun m hv => ?_
  obtain ⟨⟨k, hk, hi⟩, hobjections⟩ := verdict_inPlace.1 hv
  obtain ⟨hfa, hfb, hs, hd⟩ := Kernel.verdict_objections.1 hobjections
  obtain ⟨r, hr⟩ := Option.isSome_iff_exists.1 hi
  obtain ⟨out, hout, -⟩ := (of_lookup_build hk).1.method.rework r hr planes w h
    ⟨hw, hh, hfa, hfb, hs, hd⟩
  refine ⟨out, ?_, trivial⟩
  rw [kernel, hk, bind_eq_of_ok rfl, hr, Option.getD_some, hout, attempt_ok]

/-- **In place the second format has no objection of its own:** it is of the shape of the first. -/
theorem verdict_convertInPlaceObjections (m : Mask) (a b : Format) (w h : Nat)
    (planes : List Plane) :
    verdict ((build m).convertInPlaceObjections a b w h planes) =
      verdict ((build m).pairObjections a b ++ (build m).inPlaceObjection a b ::
        (geometryObjections a w h ++ planeObjections planes a w h)) := by
  rw [convertInPlaceObjections, List.append_cons, List.append_cons _ _ (_ ++ _), verdict_append,
    verdict_append _ (_ ++ _)]
  cases hv : verdict ((build m).pairObjections a b ++ [(build m).inPlaceObjection a b]) with
  | some why => rfl
  | none =>
    -- only formats of one shape come this far
    obtain ⟨⟨k, hk, hi⟩, -⟩ := verdict_inPlace.1 hv
    have hshape := ((worksInPlace_iff hk).1 hi).sameShape
    rw [Option.none_or, Option.none_or, Kernel.objections, verdict_append, verdict_append,
      verdict_append, verdict_append]
    cases hga : verdict (geometryObjections a w h) with
    | some why => rfl
    | none =>
      have hgb : verdict (geometryObjections b w h) = none :=
        verdict_geometryObjections.2 (hshape.fit (verdict_geometryObjections.1 hga))
      rw [hgb, Option.or_none, Option.none_or]
      cases hpa : verdict (planeObjections planes a w h) with
      | some why => rfl
      | none =>
        exact verdict_planeObjections.2 (hshape.holds (verdict_planeObjections.1 hpa))

/-- **Failures are exact and atomic.**  Whatever the formats, the sides, the planes and the buffers,
each of the three conversions is settled by its objections: it fails for the first that applies, and
for nothing else, and what fails leaves the memory as it was.  In place the first objection is one
to the pair, to the sides or to the planes as those of the source format; the target format, which
is of the same shape, never has the first word. -/
theorem failures_are_exact_and_atomic (a b : Format) (w h : UInt32) :
    (∀ src dst : List Plane,
      Settled (·.convertObjections a b w.toNat h.toNat src dst) dst
        (·.convert a b w.toNat h.toNat src dst)) ∧
    (∀ src dst : Plane,
      Settled (·.convertBufferObjections a b w.toNat h.toNat src dst) dst
        (·.convertBuffer a b w.toNat h.toNat src dst)) ∧
    ∀ planes : List Plane,
      Settled (·.convertInPlaceObjections a b w.toNat h.toNat planes) planes
        (·.convertInPlace a b w.toNat h.toNat planes) ∧
      ∀ m, verdict ((build m).convertInPlaceObjections a b w.toNat h.toNat planes) =
        verdict ((build m).pairObjections a b ++ (build m).inPlaceObjection a b ::
          (geometryObjections a w.toNat h.toNat ++
            planeObjections planes a w.toNat h.toNat)) := by
  have hw := w.toNat_lt
  have hh := h.toNat_lt
  refine ⟨fun src dst => convert_settled a b hw hh src dst,
    fun src dst => convertBuffer_settled a b hw hh src dst, fun planes => ⟨?_, fun m => ?_⟩⟩
  · exact convertInPlace_settled a b hw hh planes
  · exact verdict_convertInPlaceObjections m a b w.toNat h.toNat planes

/-- Two by two pixels from `YUV420P` to `RGB24`: without the first chroma plane they are refused;
buffers that hold both frames are converted; and where the frame stands nothing is done. -/
theorem missing_chroma_is_refused :
    (build .detected).convert .yuv420p .rgb24 2 2 [#[1, 2, 3, 4], #[], #[]] [.replicate 12 0] =
        ⟨[.replicate 12 0], some (.refused (.planeSize 1 1 0))⟩ ∧
      (∃ after, (build .detected).convertBuffer .yuv420p .rgb24 2 2 #[1, 2, 3, 4, 5, 6]
        (.replicate 12 0) = ⟨after, none⟩) ∧
      (build .detected).convertInPlace .yuv420p .rgb24 2 2 [#[1, 2, 3, 4], #[5], #[6]] =
        ⟨[#[1, 2, 3, 4], #[5], #[6]], some (.refused (.inPlaceUnsupported .yuv420p .rgb24))⟩ := by
  have hs : (build .detected).supports .yuv420p .rgb24 = true :=
    supports_build .detected .yuv420p .rgb24
  obtain ⟨k, hk⟩ := Option.isSome_iff_exists.1 hs
  have hpair := verdict_pairObjections.2 ⟨k, hk⟩
  have hi : k.worksInPlace = false := by
    rw [← Bool.not_eq_true, worksInPlace_iff hk]
    decide
  obtain ⟨hplanes, hbuffers, hstand⟩ := failures_are_exact_and_atomic .yuv420p .rgb24 2 2
  refine ⟨(hplanes _ _).refused _ _ ?_, (hbuffers _ _).done _ ?_, (hstand _).1.refused _ _ ?_⟩
  · rw [convertObjections, verdict_append, hpair]
    decide
  · rw [convertBufferObjections, verdict_append, verdict_append, hpair]
    decide
  · rw [convertInPlaceObjections, verdict_append, hpair, verdict_cons, inPlaceObjection, hk,
      Option.any_some, hi]
    rfl

end Settled

end Engine
end FrameConvert
