/-
# Trials come out

A trial takes the pixels of a picture to a format and back (`Trial.Made`).  Where frames of both
formats exist there is one for every format (`exists_trial`), and its restored pixels are drawn from
what the format keeps of the picture (`Trial.Restores`).  That is the same for formats that differ
in order alone, and so are then the pixels and their distances (`Trial.restored_eq`).

On a machine that grants the memory and has a place for the files, a trial goes through: it shows
its line and leaves its two files (`run_tryFormat`).  So do all of them, by induction over the
formats (`run_trials`); what one writes does not stand in the way of a later one
(`Disk.Lands.putAll`).
Without pixels already the first one ends, before it shows or writes anything
(`run_trials_of_zero`).
-/

import FrameConvert.Proofs.Buffers
import FrameConvert.Proofs.Demo.Disk
import FrameConvert.Proofs.Demo.Machine
import FrameConvert.Proofs.Demo.Pictures
import FrameConvert.Proofs.ThroughColour

namespace FrameConvert

section Alloc

variable {grants : Nat → Bool} {f : Format} {w h : Nat}

/-- Memory for a fit frame is had if it is granted. -/
theorem Frame.alloc_eq_ok (hf : Fit f w h) (hgrants : grants (f.frameSize w h) = true) :
    alloc grants f w h = .ok ⟨f, w, h, Array.replicate (f.frameSize w h) 0⟩ := by
  rw [alloc, bind_eq_of_ok (checkGeometry_eq_ok_iff.2 hf), Format.frameSize64_eq_ok hf.2.2.1,
    attempt_ok, bind_eq_of_ok rfl, if_pos hgrants]
  rfl

/-- There is no frame without pixels. -/
theorem Frame.alloc_zero (hzero : w = 0 ∨ h = 0) : alloc grants f w h = refuse .zeroSize := by
  unfold alloc checkGeometry
  rw [if_pos hzero]
  rfl

end Alloc

namespace Demo

/-- What comes of a trial, the times apart. -/
structure Trial where
  format : Format
  raw : Plane
  restored : Plane
  red : Nat
  green : Nat
  blue : Nat

variable {x : Machine} {c : Codec} {e : Engine} {m : Mask} {w h : UInt32} {rgb : Plane}
  {f : Format} {t t' : Trial} {ts : List Trial} {d : Disk} {here : Path} {output : String}
  {lines : List String} {n : Nat}

section Names

/-- The name of the file with the bytes of a format. -/
def rawName (f : Format) : String := "frame." ++ fileWord f

/-- The name of the file with the restored picture. -/
def pictureName (f : Format) : String := "restored_" ++ fileWord f ++ ".png"

theorem rawPath_eq (output : String) (f : Format) :
    rawPath output f = output ++ "/" ++ rawName f := by
  have hslash : "/frame." = "/" ++ "frame." := by decide
  change output ++ "/frame." ++ fileWord f = _
  rw [hslash, rawName, String.append_assoc, String.append_assoc, String.append_assoc]

theorem picturePath_eq (output : String) (f : Format) :
    picturePath output f = output ++ "/" ++ pictureName f := by
  have hslash : "/restored_" = "/" ++ "restored_" := by decide
  change output ++ "/restored_" ++ fileWord f ++ ".png" = _
  rw [hslash, pictureName]
  simp only [String.append_assoc]

theorem fileWord_eq (f : Format) :
    fileWord f = String.ofList (f.name.toList.map Char.toLower) := by
  rw [← String.toList_inj, fileWord, String.toList_map, String.toList_ofList]

/-- The files of a run have names, -/
theorem fileName_of_trial :
    ∀ f ∈ trialFormats, FileName (rawName f) ∧ FileName (pictureName f) := by
  simp only [rawName, pictureName, fileWord_eq]
  decide +kernel

/-- and no two of them the same. -/
theorem nodup_names : (trialFormats.flatMap fun f => [rawName f, pictureName f]).Nodup := by
  simp only [rawName, pictureName, fileWord_eq]
  decide +kernel

end Names

/-- The formats that are tried are the nine of luma and chroma. -/
theorem trialFormats_eq : trialFormats =
    [.yuv420p, .yv12, .yuv411p, .yuv422p, .yuv444p, .yuy2, .uyvy, .yvyu, .y8] := by
  decide

namespace Trial

/-- **A trial is two conversions:** of colour pixels into the format, and of what came of it back
into colours, each into any memory of its size; and how far the channels of both are apart. -/
structure Made (e : Engine) (w h : UInt32) (rgb : Plane) (t : Trial) : Prop where
  size : t.raw.size = t.format.frameSize w.toNat h.toNat
  forward : ∀ dst : Plane, dst.size = t.format.frameSize w.toNat h.toNat →
    e.convertBuffer .rgb24 t.format w.toNat h.toNat rgb dst = ⟨t.raw, none⟩
  size_restored : t.restored.size = w.toNat * h.toNat * 3
  backward : ∀ dst : Plane, dst.size = w.toNat * h.toNat * 3 →
    e.convertBuffer t.format .rgb24 w.toNat h.toNat t.raw dst = ⟨t.restored, none⟩
  red : t.red = farthest (w.toNat * h.toNat) rgb t.restored 0
  green : t.green = farthest (w.toNat * h.toNat) rgb t.restored 1
  blue : t.blue = farthest (w.toNat * h.toNat) rgb t.restored 2

/-- **The restored pixels are drawn from what the format keeps** of the picture. -/
def Restores (w h : Nat) (rgb : Plane) (t : Trial) : Prop :=
  Carries .rgb24 w h
    (Format.rgb24.layout.draw w (t.format.content.kept w
      (Format.rgb24.layout.view w (bytesOf (Format.rgb24.planesIn w h rgb)))))
    (Format.rgb24.planesIn w h t.restored)

/-- The text of a trial, for the times that both ways took. -/
def text (e : Engine) (t : Trial) (forward backward : String) : String :=
  let tier (a b : Format) := ((e.lookup a b).map fun k => k.tier.name).getD "-"
  String.ofList (List.replicate (8 - t.format.name.length) ' ') ++ t.format.name ++
    ": forward " ++ forward ++ " (" ++ tier .rgb24 t.format ++ "), backward " ++ backward ++
    " (" ++ tier t.format .rgb24 ++ "), max divergence " ++
    ("[" ++ toString t.red ++ ", " ++ toString t.green ++ ", " ++ toString t.blue ++ "]")

/-- The texts of trials one after the other, where `n` computations were timed before. -/
def texts (e : Engine) (times : Nat → String) : List Trial → (n : Nat) → List String
  | [], _ => []
  | t :: ts, n => t.text e (times n) (times (n + 1)) :: texts e times ts (n + 2)

/-- The files of a trial. -/
def files (c : Codec) (w h : UInt32) (t : Trial) : List (String × Plane) :=
  [(rawName t.format, t.raw), (pictureName t.format, c.encode t.restored w h)]

theorem Restores.byte {w h : Nat} (hr : t.Restores w h rgb) {j : Nat} (hj : j < w * h * 3) :
    t.restored.byte j = Format.rgb24.layout.draw w (t.format.content.kept w
      (Format.rgb24.layout.view w (bytesOf (Format.rgb24.planesIn w h rgb)))) 0 j := by
  have hbyte := Carries.byte hr 0 (by decide) j hj
  have hfront : Format.rgb24.planeOffset w h 0 = 0 := Finset.sum_range_zero _
  rw [planeAt_planesIn _ (by decide), hfront, Nat.zero_add,
    Plane.byte_extract (by rw [Nat.zero_add]; exact hj), Nat.zero_add] at hbyte
  exact hbyte

/-- **Formats of one content restore the same pixels.** -/
theorem restored_eq (ht : t.Made e w h rgb) (ht' : t'.Made e w h rgb)
    (hr : t.Restores w.toNat h.toNat rgb) (hr' : t'.Restores w.toNat h.toNat rgb)
    (hcontent : t.format.content = t'.format.content) :
    t.restored = t'.restored ∧ t.red = t'.red ∧ t.green = t'.green ∧ t.blue = t'.blue := by
  have hrestored : t.restored = t'.restored := by
    refine Plane.ext_byte (ht.size_restored.trans ht'.size_restored.symm) fun j hj => ?_
    rw [ht.size_restored] at hj
    rw [hr.byte hj, hr'.byte hj, hcontent]
  refine ⟨hrestored, ?_, ?_, ?_⟩
  · rw [ht.red, ht'.red, hrestored]
  · rw [ht.green, ht'.green, hrestored]
  · rw [ht.blue, ht'.blue, hrestored]

/-- **The line of a trial,** written out. -/
theorem trialLine_eq (e : Engine) (t : Trial) (forward backward : String) :
    trialLine e t.format forward backward [t.red, t.green, t.blue] =
      t.text e forward backward := by
  have htier : ∀ a b, tierName e a b = ((e.lookup a b).map fun k => k.tier.name).getD "-" := by
    intro a b
    rw [tierName]
    cases e.lookup a b <;> rfl
  have hstring : ∀ s : String, toString s = s := fun _ => rfl
  have hlist : ∀ s a b c : String, s.intercalate [a, b, c] = a ++ s ++ b ++ s ++ c :=
    fun _ _ _ _ => rfl
  rw [trialLine, listText, List.map_cons, List.map_cons, List.map_cons, List.map_nil, hlist]
  simp only [padLeft, htier]
  unfold text
  simp only [hstring, String.append_assoc]

end Trial

/-- **A trial comes out,** where frames of both formats exist. -/
theorem exists_trial (m : Mask) (f : Format) (hrgb : rgb.size = w.toNat * h.toNat * 3)
    (hfit : ∀ f, Fit f w.toNat h.toNat) :
    ∃ t : Trial, t.format = f ∧ t.Made (Engine.build m) w h rgb ∧
      t.Restores w.toNat h.toNat rgb := by
  have hthere : (Engine.build m).supports .rgb24 f = true :=
    (Engine.supports_build m _ _).trans (isSome_portable?_colour (.inl rfl))
  have hback : (Engine.build m).supports f .rgb24 = true :=
    (Engine.supports_build m _ _).trans (isSome_portable?_colour (.inr rfl))
  obtain ⟨raw, hraw, hforward, hrawCarries⟩ :=
    Engine.exists_convertBuffer hthere w.toNat_lt h.toNat_lt (hfit .rgb24) (hfit f)
      (Nat.le_of_eq hrgb.symm)
  obtain ⟨restored, hrestored, hbackward, hcarries⟩ :=
    Engine.exists_convertBuffer hback w.toNat_lt h.toNat_lt (hfit f) (hfit .rgb24)
      (Nat.le_of_eq hraw.symm)
  let far := farthest (w.toNat * h.toNat) rgb restored
  refine ⟨⟨f, raw, restored, far 0, far 1, far 2⟩, rfl,
    ⟨hraw, hforward, hrestored, hbackward, rfl, rfl, rfl⟩, hcarries.congr fun i hi j hj => ?_⟩
  -- what the frame in between shows is what its format keeps of the picture
  refine (translated_congr (hfit f) (hfit .rgb24) hrawCarries.byte hi hj).trans ?_
  rw [translated_translated (hfit f)]

section Loop

/-- **The files of a trial can be written** into a directory. -/
structure Trial.Fits (t : Trial) (d : Disk) (output : String) (here : Path) : Prop where
  raw : d.Lands (rawPath output t.format) here (rawName t.format)
  picture : d.Lands (picturePath output t.format) here (pictureName t.format)

theorem Trial.Fits.putAll (ht : t.Fits d output here) (place : Path)
    (files : List (String × Plane)) : t.Fits (d.putAll place files) output here :=
  ⟨ht.raw.putAll place files, ht.picture.putAll place files⟩

open Machine

/-- A conversion is done and timed, if the memory is granted. -/
theorem run_convertTimed {a b : Format} {src out : Plane} (hfit : Fit b w.toNat h.toNat)
    (hgrants : x.grants (b.frameSize w.toNat h.toNat) = true)
    (hout : ∀ dst : Plane, dst.size = b.frameSize w.toNat h.toNat →
      e.convertBuffer a b w.toNat h.toNat src dst = ⟨out, none⟩) :
    Machine.run (convertTimed x.host e a b w.toNat h.toNat src) ⟨d, lines, n⟩ =
      (.ok (out, x.times n), ⟨d, lines, n + 1⟩) := by
  rw [convertTimed, show x.host.grants = x.grants from rfl, Frame.alloc_eq_ok hfit hgrants,
    run_bind_of_ok (run_ofExcept_ok ..), run_bind_of_ok (run_timed ..)]
  dsimp only
  rw [hout _ Array.size_replicate]
  rfl

/-- **One trial:** its line is shown and its files are written. -/
theorem run_tryFormat (ht : t.Made e w h rgb) (hrgb : rgb.size = w.toNat * h.toNat * 3)
    (hfit : ∀ f, Fit f w.toNat h.toNat)
    (hgrants : ∀ f, f = .rgb24 ∨ f = t.format → x.grants (f.frameSize w.toNat h.toNat) = true)
    (hfits : t.Fits d output here) :
    Machine.run (tryFormat x.host c e output w h rgb t.format) ⟨d, lines, n⟩ =
      (.ok (), ⟨d.putAll here (t.files c w h),
        lines ++ [t.text e (x.times n) (x.times (n + 1))], n + 2⟩) := by
  have hdivergence : maxDivergence rgb t.restored 3 = .ok [t.red, t.green, t.blue] := by
    rw [maxDivergence_eq hrgb ht.size_restored, ht.red, ht.green, ht.blue]
  rw [tryFormat,
    run_bind_of_ok (run_convertTimed (hfit t.format) (hgrants _ (.inr rfl)) ht.forward)]
  dsimp only
  rw [run_bind_of_ok (run_convertTimed (hfit .rgb24) (hgrants _ (.inl rfl)) ht.backward)]
  dsimp only
  rw [hdivergence, attempt_ok, run_bind_of_ok (run_ofExcept_ok ..),
    run_bind_of_ok (run_print ..), Trial.trialLine_eq,
    run_bind_of_ok (run_write x (hfits.raw.write t.raw)),
    run_bind_of_ok (run_ofExcept_ok ..),
    run_bind_of_ok (run_write x ((hfits.picture.put here (rawName t.format) t.raw).write _))]
  rfl

/-- **All trials,** by induction over the formats, the disk changing under way. -/
theorem run_trials (hmade : ∀ t ∈ ts, t.Made e w h rgb) (hrgb : rgb.size = w.toNat * h.toNat * 3)
    (hfit : ∀ f, Fit f w.toNat h.toNat)
    (hgrants : ∀ f, f = .rgb24 ∨ f ∈ ts.map Trial.format →
      x.grants (f.frameSize w.toNat h.toNat) = true)
    (hfits : ∀ t ∈ ts, t.Fits d output here) :
    Machine.run ((ts.map Trial.format).forM (tryFormat x.host c e output w h rgb)) ⟨d, lines, n⟩ =
      (.ok (), ⟨d.putAll here (ts.flatMap (·.files c w h)), lines ++ Trial.texts e x.times ts n,
        n + 2 * ts.length⟩) := by
  induction ts generalizing d lines n with
  | nil =>
    rw [Trial.texts, List.append_nil]
    rfl
  | cons t ts ih =>
    obtain ⟨ht, hts⟩ := List.forall_mem_cons.1 hmade
    obtain ⟨hfit₁, hrest⟩ := List.forall_mem_cons.1 hfits
    have hfirst : ∀ f, f = .rgb24 ∨ f = t.format →
        x.grants (f.frameSize w.toNat h.toNat) = true := by
      rintro f (rfl | rfl)
      · exact hgrants _ (.inl rfl)
      · exact hgrants _ (.inr List.mem_cons_self)
    have hlater : ∀ f, f = .rgb24 ∨ f ∈ ts.map Trial.format →
        x.grants (f.frameSize w.toNat h.toNat) = true :=
      fun f hf => hgrants f (hf.imp_right (List.mem_cons_of_mem _))
    refine (run_bind_of_ok (run_tryFormat ht hrgb hfit hfirst hfit₁) _).trans
      ((ih hts hlater fun t' ht' => (hrest t' ht').putAll here (t.files c w h)).trans ?_)
    have hdisk : (d.putAll here (t.files c w h)).putAll here (ts.flatMap (·.files c w h)) =
        d.putAll here ((t :: ts).flatMap (·.files c w h)) := by
      rw [List.flatMap_cons, Disk.putAll, Disk.putAll, Disk.putAll, List.foldl_append]
    have htimed : n + 2 + 2 * ts.length = n + 2 * (t :: ts).length := by
      rw [List.length_cons]
      omega
    rw [hdisk, htimed, List.append_assoc, List.singleton_append, Trial.texts]

/-- **Without pixels the first trial fails,** and nothing is shown or written. -/
theorem run_trials_of_zero (hzero : w.toNat = 0 ∨ h.toNat = 0) (fs : List Format)
    (s : World) :
    Machine.run ((f :: fs).forM (tryFormat x.host c e output w h rgb)) s =
      (.error (.conversion (.refused .zeroSize)), s) := by
  have htimed : Machine.run (convertTimed x.host e .rgb24 f w.toNat h.toNat rgb) s =
      (.error (.conversion (.refused .zeroSize)), s) := by
    rw [convertTimed, Frame.alloc_zero hzero]
    exact run_bind_of_error (run_ofExcept_error ..) _
  refine run_bind_of_error (run_bind_of_error htimed _) _

end Loop

end Demo
end FrameConvert
