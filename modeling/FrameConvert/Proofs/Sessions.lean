/-
# Whatever is done to a frame, its planes stay within its memory

A frame can be given any format and sides, so these need not go with its memory at all.  It is sound
nonetheless, because whoever looks at the planes checks them again; all that has to be kept is the
length of the memory.

| step | memory | format and sides |
| --- | --- | --- |
| `relabel` | kept | any |
| `write`, `writeData` | bytes changed, none added | kept |
| `convertFrom` | the frame overwritten, if the conversion is not refused | kept |
| `convertInPlace` | the frame overwritten, if it is not refused | the target format |
| the others | kept | kept |

`step_keeps` says so of one step: steps that fail change nothing, because all of them look before
they write (`write_eq`, `convertFrom_eq` and their like), and only a byte set where there is none is
a fault.  `run_keeps` is what follows for a whole session.
-/

import FrameConvert.Frame.Session
import FrameConvert.Proofs.Buffers

namespace FrameConvert

section Writes

variable {buffer p q : Plane} {f : Format} {w h i k : Nat} {planes : List Plane} {s : Split}
  {b : UInt8}

theorem of_attempt_eq_ok {α : Type} {c : Checked α} {a : α} (ha : attempt c = .ok a) :
    c = .ok a := by
  cases c with
  | error fault => cases ha
  | ok a' => exact congrArg Except.ok (Except.ok.inj ha)

/-- A byte that is written is there. -/
theorem Plane.lt_size_of_write (hq : p.write k b = .ok q) : k < p.size := by
  by_contra hk
  rw [write, dif_neg hk] at hq
  cases hq

theorem Plane.size_of_writeAll : ∀ {bs : List UInt8} {p : Plane} {o : Nat},
    p.writeAll o bs = .ok q → q.size = p.size
  | [], p, o, hq => congrArg Array.size (Except.ok.inj hq).symm
  | b :: bs, p, o, hq => by
    cases hw : p.write o b with
    | error e =>
      rw [writeAll, hw] at hq
      cases hq
    | ok r =>
      rw [writeAll, hw] at hq
      obtain ⟨r', hr', hsize, -⟩ := write_eq_ok (b := b) (lt_size_of_write hw)
      obtain rfl := Except.ok.inj (hw.symm.trans hr')
      exact (size_of_writeAll hq).trans hsize

/-- **What is written through a plane is written in the buffer,** and the plane was there. -/
theorem changed_of_write_through (hs : split buffer f w h = .ok s)
    (hp : onPlane s.planes i (·.write k b) = .ok planes) :
    buffer.Changed (f.planeOffset w h i + k) b (unsplit planes s.rest) := by
  have he := (tiles_of_split hs).exact
  obtain ⟨p, hplane, hp'⟩ := exists_of_bind_eq_ok hp
  obtain ⟨q, hq, -⟩ := exists_of_bind_eq_ok hp'
  have hi : i < f.planeCount := by
    by_contra hi
    rw [planeOf, List.getElem?_eq_none (by rw [he.count]; omega)] at hplane
    cases hplane
  rw [planeOf, he.holds.getElem? hi] at hplane
  obtain rfl := Except.ok.inj hplane
  have hk := Plane.lt_size_of_write hq
  rw [he.size i hi] at hk
  obtain ⟨planes', hplanes', hchanged⟩ := yields_write_through hs hi hk b
  obtain rfl := Except.ok.inj (hp.symm.trans hplanes')
  exact hchanged

end Writes

namespace Frame

/-- A frame as it is made: with memory of its own, or over memory that is long enough. -/
def Made (x : Frame) : Prop :=
  ∃ (f : Format) (w h : UInt32), (∃ grants, alloc grants f w.toNat h.toNat = .ok x) ∨
    ∃ memory, ofMemory memory f w.toNat h.toNat = .ok x

/-- The sides are 32-bit words. -/
structure Sided (x : Frame) : Prop where
  wide : x.width < 0x100000000
  high : x.height < 0x100000000

/-- **The planes are as they have to be:** there are some exactly if format and sides go with the
memory, and then they tile the front of it. -/
structure Sound (x : Frame) : Prop where
  planes : (∃ ps, x.planes = .ok ps) ↔ checkGeometry x.format x.width x.height = .ok () ∧
    x.format.frameSize x.width x.height ≤ x.data.size
  tiles : ∀ ps, x.planes = .ok ps →
    ∃ s : Split, s.planes = ps ∧ s.Tiles x.data x.format x.width x.height

/-- Steps that say sides which are 32-bit words, and engines that were built. -/
def Step.Proper : Step → Prop
  | .relabel _ w h => w < 0x100000000 ∧ h < 0x100000000
  | .convertFrom _ _ e | .convertTo _ _ e | .convertInPlace _ e => ∃ m, e = Engine.build m
  | _ => True

/-- Steps that set bytes wherever they are told to. -/
def Step.sets : Step → Bool
  | .write _ _ _ | .writeData _ _ => true
  | _ => false

/-- Why a step failed, if it did. -/
def Answer.failure? : Answer → Option Failure
  | .failed why => some why
  | .converted o => o.failure?
  | _ => none

/-- The frame `x` has become one of format `b` where it stands. -/
structure Reworked (x : Frame) (b : Format) (y : Frame) : Prop where
  format : y.format = b
  width : y.width = x.width
  height : y.height = x.height
  planes : ∃ ps, y.planes = .ok ps
  frameSize : y.format.frameSize y.width y.height = x.format.frameSize x.width x.height
  behind : ∀ n, x.format.frameSize x.width x.height ≤ n → y.data.byte n = x.data.byte n

/-- **What a step keeps:** the length of the memory, format and sides unless it is there to change
them, and everything if it fails. -/
structure Step.Keeps (s : Step) (x y : Frame) (a : Answer) : Prop where
  size : y.data.size = x.data.size
  label : y.format = x.format ∧ y.width = x.width ∧ y.height = x.height ∨
    s = .relabel y.format y.width y.height ∨
    ∃ e, s = .convertInPlace y.format e ∧ y.width = x.width ∧ y.height = x.height
  failed : ∀ why, a.failure? = some why → y = x
  refused : ∀ fault, a.failure? = some (.wrong fault) → s.sets = true
  reworked : ∀ b e, s = .convertInPlace b e → a.failure? = none → x.Reworked b y

section Planes

variable {x y : Frame} {ps : List Plane}

theorem planes_eq_ok_iff : x.planes = .ok ps ↔ ∃ s, x.split = .ok s ∧ s.planes = ps := by
  constructor
  · intro hps
    obtain ⟨s, hs, hps⟩ := exists_of_bind_eq_ok hps
    exact ⟨s, hs, Except.ok.inj hps⟩
  · rintro ⟨s, hs, rfl⟩
    rw [planes, hs]
    rfl

theorem exists_planes_iff : (∃ ps, x.planes = .ok ps) ↔ Fit x.format x.width x.height ∧
    x.format.frameSize x.width x.height ≤ x.data.size := by
  constructor
  · rintro ⟨ps, hps⟩
    obtain ⟨s, hs, -⟩ := planes_eq_ok_iff.1 hps
    obtain ⟨hf, hn, -⟩ := split_eq_ok_iff.1 hs
    exact ⟨hf, hn⟩
  · rintro ⟨hf, hn⟩
    exact ⟨_, planes_eq_ok_iff.2 ⟨_, split_eq_ok_iff.2 ⟨hf, hn, rfl⟩, rfl⟩⟩

/-- **Every frame is sound,** whatever its format, its sides and its memory: they are checked
whenever the planes are looked at. -/
theorem sound (x : Frame) : x.Sound where
  planes := by rw [exists_planes_iff, checkGeometry_eq_ok_iff]
  tiles ps hps := by
    obtain ⟨s, hs, hsp⟩ := planes_eq_ok_iff.1 hps
    exact ⟨s, hsp, tiles_of_split hs⟩

theorem planes_neverWrong (x : Frame) : NeverWrong x.planes :=
  (split_neverWrong _ _ _ _).bind fun _ _ => neverWrong_ok _

theorem failure?_planesOf {why : Failure} :
    x.planesOf.failure? = some why ↔ x.planes = .error why := by
  rw [planesOf]
  cases x.planes with
  | ok ps => exact ⟨fun hw => (nomatch hw), fun hw => (nomatch hw)⟩
  | error e =>
    exact ⟨fun hw => congrArg _ (Option.some.inj hw), fun hw => congrArg _ (Except.error.inj hw)⟩

/-- **A byte written through a plane** leaves the memory as long as it is, so there are planes
afterwards as well. -/
theorem of_written_eq_ok {plane pos : Nat} {value : UInt8} {data : Plane}
    (hdata : x.written plane pos value = .ok data) :
    data.size = x.data.size ∧ ∃ ps, ({ x with data := data } : Frame).planes = .ok ps := by
  obtain ⟨s, hs, hdata⟩ := exists_of_bind_eq_ok hdata
  obtain ⟨planes, hplanes, hdata⟩ := exists_of_bind_eq_ok hdata
  obtain rfl := Except.ok.inj hdata
  have hsize := (changed_of_write_through hs (of_attempt_eq_ok hplanes)).size
  obtain ⟨hf, hn, -⟩ := split_eq_ok_iff.1 hs
  exact ⟨hsize, exists_planes_iff.2 ⟨hf, hsize ▸ hn⟩⟩

end Planes

section Step

variable {x y : Frame} {s : Step} {a : Answer} {m : Mask}

/-- A step that leaves the frame alone. -/
theorem keeps_refl (hs : ∀ b e, s ≠ .convertInPlace b e)
    (ha : ∀ fault, a.failure? = some (.wrong fault) → s.sets = true) : s.Keeps x x a :=
  ⟨rfl, .inl ⟨rfl, rfl, rfl⟩, fun _ _ => rfl, ha, fun b e hse => absurd hse (hs b e)⟩

/-- A step that changes bytes and does not fail. -/
theorem keeps_of_size (hs : ∀ b e, s ≠ .convertInPlace b e) {data : Plane}
    (hsize : data.size = x.data.size) (ha : a.failure? = none) :
    s.Keeps x { x with data := data } a := by
  refine ⟨hsize, .inl ⟨rfl, rfl, rfl⟩, fun why hw => ?_, fun fault hw => ?_,
    fun b e hse => absurd hse (hs b e)⟩
  · rw [ha] at hw
    cases hw
  · rw [ha] at hw
    cases hw

theorem keeps_write (x : Frame) (plane pos : Nat) (value : UInt8) :
    (Step.write plane pos value).Keeps x (x.step (.write plane pos value)).1
      (x.step (.write plane pos value)).2 := by
  rw [step, write_eq]
  cases hdata : x.written plane pos value with
  | error e => exact keeps_refl (by nofun) fun _ _ => rfl
  | ok data =>
    obtain ⟨hsize, ps, hps⟩ := of_written_eq_ok hdata
    refine keeps_of_size (by nofun) hsize ?_
    change (planesOf { x with data := data }).failure? = none
    rw [planesOf, hps]
    rfl

theorem keeps_writeData (x : Frame) (pos : Nat) (bytes : List UInt8) :
    (Step.writeData pos bytes).Keeps x (x.step (.writeData pos bytes)).1
      (x.step (.writeData pos bytes)).2 := by
  rw [step, writeData_eq]
  cases hd : x.data.writeAll pos bytes with
  | error fault => exact keeps_refl (by nofun) fun _ _ => rfl
  | ok data => exact keeps_of_size (by nofun) (Plane.size_of_writeAll hd) rfl

theorem keeps_convertFrom (hx : x.Sided) (m : Mask) (f : Format) (src : Plane) :
    (Step.convertFrom f src (.build m)).Keeps x (x.step (.convertFrom f src (.build m))).1
      (x.step (.convertFrom f src (.build m))).2 := by
  rw [step, convertFrom_eq]
  cases hd : (Engine.build m).convertedBuffer f x.format x.width x.height src x.data with
  | error e =>
    have hnever := Engine.convertedBuffer_neverWrong m f x.format hx.wide hx.high src x.data
    exact keeps_refl (by nofun) fun fault hw => absurd hw (hnever.ne_wrong hd fault)
  | ok data =>
    obtain ⟨d, planes, hsplit, he, rfl⟩ := Engine.of_convertedBuffer_eq_ok hx.wide hx.high hd
    exact keeps_of_size (by nofun) (size_unsplit_of_split hsplit he rfl) rfl

theorem alloc_neverWrong (grants : Nat → Bool) (f : Format) (w h : Nat) :
    NeverWrong (alloc grants f w h) := by
  refine (checkGeometry_neverWrong f w h).bind fun _ hg => ?_
  rw [Format.frameSize64_eq_ok (checkGeometry_eq_ok_iff.1 hg).2.2.1]
  refine (neverWrong_ok _).bind fun n _ => ?_
  split
  · exact neverWrong_ok _
  · exact neverWrong_refuse _

theorem keeps_convertTo (hx : x.Sided) (m : Mask) (b : Format) (grants : Nat → Bool) :
    (Step.convertTo b grants (.build m)).Keeps x (x.step (.convertTo b grants (.build m))).1
      (x.step (.convertTo b grants (.build m))).2 := by
  rw [step, convertTo_eq]
  cases hy : alloc grants b x.width x.height with
  | error e =>
    have hnever := alloc_neverWrong grants b x.width x.height
    exact keeps_refl (by nofun) fun fault hw => absurd hw (hnever.ne_wrong hy fault)
  | ok y =>
    rw [bind_eq_of_ok rfl]
    cases hd : (Engine.build m).convertedBuffer x.format b x.width x.height x.data y.data with
    | error e =>
      have hnever := Engine.convertedBuffer_neverWrong m x.format b hx.wide hx.high x.data y.data
      exact keeps_refl (by nofun) fun fault hw => absurd hw (hnever.ne_wrong hd fault)
    | ok data => exact keeps_refl (by nofun) fun _ hw => (nomatch hw)

theorem keeps_convertInPlace (hx : x.Sided) (m : Mask) (b : Format) :
    (Step.convertInPlace b (.build m)).Keeps x (x.step (.convertInPlace b (.build m))).1
      (x.step (.convertInPlace b (.build m))).2 := by
  rw [step, convertInPlace_eq]
  cases hd : (Engine.build m).reworkedBuffer x.format b x.width x.height x.data with
  | error e =>
    have hnever := Engine.reworkedBuffer_neverWrong m x.format b hx.wide hx.high x.data
    exact ⟨rfl, .inl ⟨rfl, rfl, rfl⟩, fun _ _ => rfl,
      fun fault hw => absurd hw (hnever.ne_wrong hd fault), fun b e _ hw => (nomatch hw)⟩
  | ok data =>
    obtain ⟨hshape, s, planes, hsplit, he, rfl⟩ :=
      Engine.of_reworkedBuffer_eq_ok hx.wide hx.high hd
    have hframe := hshape.frameSize x.width x.height
    have hsize := size_unsplit_of_split hsplit he hframe
    refine ⟨hsize, .inr (.inr ⟨_, rfl, rfl, rfl⟩), fun _ hw => (nomatch hw),
      fun _ hw => (nomatch hw), fun c e hse _ => ?_⟩
    cases hse
    refine ⟨rfl, rfl, rfl, exists_planes_iff.2 ⟨?_, ?_⟩, hframe.symm,
      fun n hn => byte_unsplit_of_split hsplit he hframe hn⟩
    · exact hshape.fit (split_eq_ok_iff.1 hsplit).1
    · obtain ⟨-, hn, -⟩ := split_eq_ok_iff.1 hsplit
      exact hframe ▸ hsize ▸ hn

/-- **One step.** -/
theorem step_keeps (hx : x.Sided) (hs : s.Proper) : s.Keeps x (x.step s).1 (x.step s).2 := by
  cases s with
  | info => exact keeps_refl (by nofun) fun _ hw => (nomatch hw)
  | data => exact keeps_refl (by nofun) fun _ hw => (nomatch hw)
  | planes =>
    refine keeps_refl (by nofun) fun fault hw => ?_
    exact absurd (failure?_planesOf.1 hw) (x.planes_neverWrong fault)
  | relabel f w h =>
    exact ⟨rfl, .inr (.inl rfl), fun _ hw => (nomatch hw), fun _ hw => (nomatch hw),
      fun _ _ hse => (nomatch hse)⟩
  | write plane pos value => exact keeps_write x plane pos value
  | writeData pos bytes => exact keeps_writeData x pos bytes
  | convertFrom f src e =>
    obtain ⟨m, rfl⟩ := hs
    exact keeps_convertFrom hx m f src
  | convertTo b grants e =>
    obtain ⟨m, rfl⟩ := hs
    exact keeps_convertTo hx m b grants
  | convertInPlace b e =>
    obtain ⟨m, rfl⟩ := hs
    exact keeps_convertInPlace hx m b

theorem Made.sided (hx : x.Made) : x.Sided := by
  obtain ⟨f, w, h, ⟨grants, hx⟩ | ⟨memory, hx⟩⟩ := hx
  · obtain ⟨_, -, hx⟩ := exists_of_bind_eq_ok hx
    obtain ⟨n, -, hx⟩ := exists_of_bind_eq_ok hx
    split at hx
    · obtain rfl := Except.ok.inj hx
      exact ⟨w.toNat_lt, h.toNat_lt⟩
    · cases hx
  · obtain ⟨_, -, hx⟩ := exists_of_bind_eq_ok hx
    obtain ⟨n, -, hx⟩ := exists_of_bind_eq_ok hx
    split at hx
    · cases hx
    · obtain rfl := Except.ok.inj hx
      exact ⟨w.toNat_lt, h.toNat_lt⟩

/-- The sides stay 32-bit words. -/
theorem Sided.step (hx : x.Sided) (hs : s.Proper) : (x.step s).1.Sided := by
  rcases (step_keeps hx hs).label with ⟨-, hw, hh⟩ | hse | ⟨e, -, hw, hh⟩
  · exact ⟨hw ▸ hx.wide, hh ▸ hx.high⟩
  · rw [hse] at hs
    exact ⟨hs.1, hs.2⟩
  · exact ⟨hw ▸ hx.wide, hh ▸ hx.high⟩

end Step

section Run

variable {x : Frame} {steps : List Step}

theorem run_cons (x : Frame) (s : Step) (steps : List Step) :
    (x.run (s :: steps)).1 = ((x.step s).1.run steps).1 := rfl

/-- **A session keeps the length of the memory,** and the sides 32-bit words. -/
theorem run_keeps (hx : x.Sided) (hs : ∀ s ∈ steps, s.Proper) :
    (x.run steps).1.Sided ∧ (x.run steps).1.data.size = x.data.size := by
  induction steps generalizing x with
  | nil => exact ⟨hx, rfl⟩
  | cons s steps ih =>
    obtain ⟨hproper, hrest⟩ := List.forall_mem_cons.1 hs
    obtain ⟨hsided, hsize⟩ := ih (hx.step hproper) hrest
    rw [run_cons]
    exact ⟨hsided, hsize.trans (step_keeps hx hproper).size⟩

/-- **Sessions stay sound.**  However a frame was made, and whatever steps were taken with it, its
memory is as long as it was.  At every point it has planes exactly if format and sides are fit and
the memory is as long as a frame of them, and then the planes tile the front of the memory.
Whatever the next step is, if it fails nothing changes, and if it converts the frame where it stands
there are planes afterwards as well, of the format that was asked for, and the bytes behind the
frame are those that were there. -/
theorem sessions_stay_sound (hx : x.Made) (hs : ∀ s ∈ steps, s.Proper) :
    (x.run steps).1.data.size = x.data.size ∧ (x.run steps).1.Sound ∧
      ∀ s : Step, s.Proper → s.Keeps (x.run steps).1 ((x.run steps).1.step s).1
        ((x.run steps).1.step s).2 := by
  obtain ⟨hsided, hsize⟩ := run_keeps hx.sided hs
  exact ⟨hsize, sound _, fun s hproper => step_keeps hsided hproper⟩

/-- Two by two pixels of `YUV420P`, converted where they stand: said to be four by four pixels of
`RGB24` they have no planes, and said to be what they are they have planes again. -/
theorem relabelled_frame_keeps_its_memory :
    ∃ y, ((⟨.yuv420p, 2, 2, .replicate 6 0⟩ : Frame).run
        [.convertInPlace .yv12 (.build .detected), .relabel .rgb24 4 4]).1 = y ∧
      y.data.size = 6 ∧ (¬∃ ps, y.planes = .ok ps) ∧
      ∃ ps, (y.relabel .yv12 2 2).planes = .ok ps := by
  have hmade : Made ⟨.yuv420p, 2, 2, .replicate 6 0⟩ := ⟨.yuv420p, 2, 2, .inl ⟨fun _ => true, rfl⟩⟩
  have hproper : ∀ s ∈ [Step.convertInPlace .yv12 (.build .detected), .relabel .rgb24 4 4],
      s.Proper := by
    rw [List.forall_mem_cons, List.forall_mem_singleton]
    exact ⟨⟨.detected, rfl⟩, by decide, by decide⟩
  have hrun : ∃ y, ((⟨.yuv420p, 2, 2, .replicate 6 0⟩ : Frame).run
      [.convertInPlace .yv12 (.build .detected), .relabel .rgb24 4 4]).1 = y ∧
        y.format = .rgb24 ∧ y.width = 4 ∧ y.height = 4 := ⟨_, rfl, rfl, rfl, rfl⟩
  obtain ⟨y, hy, hformat, hwidth, hheight⟩ := hrun
  obtain ⟨hsize, hsound, -⟩ := sessions_stay_sound hmade hproper
  rw [hy] at hsize hsound
  refine ⟨y, hy, hsize, fun hps => ?_, exists_planes_iff.2 ⟨(by decide : Fit .yv12 2 2), ?_⟩⟩
  · obtain ⟨-, hlong⟩ := hsound.planes.1 hps
    rw [hformat, hwidth, hheight, hsize] at hlong
    revert hlong
    decide
  · change Format.yv12.frameSize 2 2 ≤ y.data.size
    rw [hsize]
    decide

end Run

end Frame
end FrameConvert
