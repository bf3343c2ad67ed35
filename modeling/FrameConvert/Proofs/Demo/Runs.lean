/-
# A run tries every YUV format

A run cuts the picture to aligned sides and takes the cut to each YUV format and back.  What can go
wrong on the way is a matter of the sides alone, memory and disk apart:

| sides of the picture | a run |
| --- | --- |
| at least 4 by 2, the bytes of the cut can be counted | goes through |
| less | ends before the first trial, at a side of zero |

Where files can be written one by one, all of them go to one directory (`exists_fits`), and they are
there in the end (`read_results`).  The formats of an order class restore the same pixels (`Tried`).
-/

import FrameConvert.Proofs.Demo.Trials
import FrameConvert.Proofs.Interchange

namespace FrameConvert
namespace Demo

variable {x : Machine} {c : Codec} {m : Mask} {w h : UInt32} {rgb : Plane} {t : Trial}
  {ts : List Trial} {d : Disk} {here : Path} {output : String} {lines : List String} {n : Nat}

section Results

/-- **All results go to one directory.** -/
theorem exists_fits (hwrite : ∀ f ∈ trialFormats,
      d.Writable (output ++ "/" ++ rawName f) ∧ d.Writable (output ++ "/" ++ pictureName f)) :
    ∃ here, d.follow (Route.directory d.home output) = .ok here ∧
      ∀ t : Trial, t.format ∈ trialFormats → t.Fits d output here := by
  have hlands : ∀ n f, f ∈ trialFormats → n = rawName f ∨ n = pictureName f →
      ∃ here, d.follow (Route.directory d.home output) = .ok here ∧
        d.Lands (output ++ "/" ++ n) here n := by
    intro n f hf hn
    obtain ⟨hraw, hpicture⟩ := hwrite f hf
    obtain ⟨hrawName, hpictureName⟩ := fileName_of_trial f hf
    rcases hn with rfl | rfl
    · exact hraw.lands hrawName
    · exact hpicture.lands hpictureName
  obtain ⟨here, hhere, -⟩ := hlands _ .yuv420p (by decide) (.inl rfl)
  refine ⟨here, hhere, fun t ht => ?_⟩
  obtain ⟨here₁, hhere₁, hraw⟩ := hlands _ _ ht (.inl rfl)
  obtain ⟨here₂, hhere₂, hpicture⟩ := hlands _ _ ht (.inr rfl)
  obtain rfl := Except.ok.inj (hhere₁.symm.trans hhere)
  obtain rfl := Except.ok.inj (hhere₂.symm.trans hhere)
  exact ⟨rawPath_eq .. ▸ hraw, picturePath_eq .. ▸ hpicture⟩

/-- **The results are there in the end,** all of them. -/
theorem read_results (hformats : ts.map Trial.format = trialFormats)
    (hfits : ∀ t ∈ ts, t.Fits d output here) (ht : t ∈ ts) :
    let results := d.putAll here (ts.flatMap (·.files c w h))
    results.read (output ++ "/" ++ rawName t.format) = .ok t.raw ∧
      results.read (output ++ "/" ++ pictureName t.format) = .ok (c.encode t.restored w h) := by
  have hnames : (ts.flatMap (·.files c w h)).map Prod.fst =
      trialFormats.flatMap fun f => [rawName f, pictureName f] := by
    rw [← hformats, List.map_flatMap, List.flatMap_map]
    rfl
  have hnodup : ((ts.flatMap (·.files c w h)).map Prod.fst).Nodup := hnames ▸ nodup_names
  have hfile : ∀ file ∈ t.files c w h, file ∈ ts.flatMap (·.files c w h) :=
    fun file hfile => List.mem_flatMap.2 ⟨t, ht, hfile⟩
  obtain ⟨hraw, hpicture⟩ := (hfits t ht).putAll here (ts.flatMap (·.files c w h))
  obtain ⟨hrawName, hpictureName⟩ :=
    fileName_of_trial t.format (hformats ▸ List.mem_map_of_mem ht)
  rw [rawPath_eq] at hraw
  rw [picturePath_eq] at hpicture
  constructor
  · exact hraw.read_eq_ok hrawName
      (Disk.file?_putAll hnodup (hfile _ List.mem_cons_self))
  · exact hpicture.read_eq_ok hpictureName
      (Disk.file?_putAll hnodup (hfile _ (List.mem_cons_of_mem _ List.mem_cons_self)))

end Results

/-- **A run's trials:** one for every YUV format, and the same pixels back from formats that
differ in order alone. -/
structure Tried (e : Engine) (w h : UInt32) (rgb : Plane) (ts : List Trial) : Prop where
  formats : ts.map Trial.format =
    [.yuv420p, .yv12, .yuv411p, .yuv422p, .yuv444p, .yuy2, .uyvy, .yvyu, .y8]
  made : ∀ t ∈ ts, t.Made e w h rgb
  alike : ∀ cls : List Format, cls = [.yuv420p, .yv12] ∨ cls = [.yuv422p, .yuy2, .uyvy, .yvyu] →
    ∀ t ∈ ts, ∀ t' ∈ ts, t.format ∈ cls → t'.format ∈ cls →
      t.restored = t'.restored ∧ t.red = t'.red ∧ t.green = t'.green ∧ t.blue = t'.blue

/-- All trials come out where frames of all formats exist. -/
theorem exists_tried (m : Mask) (hrgb : rgb.size = w.toNat * h.toNat * 3)
    (hfit : ∀ f, Fit f w.toNat h.toNat) : ∃ ts, Tried (Engine.build m) w h rgb ts := by
  choose trialOf hformat hmade hrestores using fun f => exists_trial m f hrgb hfit
  have hmem : ∀ t ∈ trialFormats.map trialOf, ∃ f, trialOf f = t := by
    intro t ht
    obtain ⟨f, -, hf⟩ := List.mem_map.1 ht
    exact ⟨f, hf⟩
  refine ⟨trialFormats.map trialOf, ⟨?_, fun t ht => ?_, fun cls hcls t ht t' ht' hc hc' => ?_⟩⟩
  · rw [List.map_map, ← trialFormats_eq]
    exact (List.map_congr_left fun f _ => hformat f).trans (List.map_id _)
  · obtain ⟨f, rfl⟩ := hmem t ht
    exact hmade f
  · obtain ⟨f, rfl⟩ := hmem t ht
    obtain ⟨f', rfl⟩ := hmem t' ht'
    have hclass : cls ∈ orderClasses := by
      rcases hcls with rfl | rfl <;> decide
    obtain ⟨hcontent, -⟩ := content_of_orderClass hclass hc hc'
    exact Trial.restored_eq (hmade f) (hmade f') (hrestores f) (hrestores f') hcontent

section Start

variable {args : List String} {input : String} {file : Plane} {image : c.Image}

theorem run_openPicture (hread : d.read input = .ok file)
    (hdecode : c.decode input file = some image) :
    Machine.run (openPicture x.host c input) ⟨d, lines, n⟩ = (.ok image, ⟨d, lines, n⟩) := by
  rw [openPicture, Machine.run_bind_of_ok (Machine.run_read ..), hread,
    Machine.run_bind_of_ok (Machine.run_ofExcept_ok ..), hdecode]
  rfl

/-- **Up to the trials** a picture is opened and cut, and two lines are shown. -/
theorem run_eq_trials (hinput : args.getD 0 "./assets/bench.jpg" = input)
    (houtput : args.getD 1 "." = output) (hread : d.read input = .ok file)
    (hdecode : c.decode input file = some image)
    (hsides : aligned (c.width image) (c.height image) = (w, h)) :
    Machine.run (run x.host c args) ⟨d, lines, n⟩ =
      Machine.run (trialFormats.forM (tryFormat x.host c (Engine.ofEnvironment x.environment) output
        w h (c.toRgb (c.crop image w h))))
        ⟨d, lines ++ [(Engine.ofEnvironment x.environment).describe,
          input ++ " " ++ toString w.toNat ++ "x" ++ toString h.toNat], n⟩ := by
  have hline : s!"{input} {w}x{h}" = input ++ " " ++ toString w.toNat ++ "x" ++ toString h.toNat :=
    rfl
  rw [run, arguments, hinput, houtput]
  dsimp only
  rw [Machine.run_bind_of_ok (run_openPicture hread hdecode), hsides]
  dsimp only
  rw [hline, Machine.run_bind_of_ok (Machine.run_environment ..),
    Machine.run_bind_of_ok (Machine.run_print ..), Machine.run_bind_of_ok (Machine.run_print ..),
    List.append_assoc]
  rfl

end Start

/-- **A run of the demonstration,** on any machine and with any library of pictures that keeps to
what it says.  Whatever picture is decoded, it is cut to the largest sides that are multiples of
four and of two, and all sixteen formats accept these exactly if the picture has at least 4 by 2
pixels and the bytes of the cut can be counted; the cut is the top left part of the picture.  Where
they do, and memory is granted and the files can be written, the run has no error: after its two
lines it shows one for each of the nine YUV formats, each tried there by one conversion and back by
another; formats that differ in order alone come back as the same pixels, at the same distances; and
what came of each trial is in its two files.  Where the picture has fewer pixels across or down, the
run ends after its two lines at a side of zero, and the disk is as it was. -/
theorem run_tries_every_format (x : Machine) (hc : c.Lawful) (args : List String) (d : Disk)
    (lines : List String) (n : Nat) {input output : String}
    (hinput : args.getD 0 "./assets/bench.jpg" = input) (houtput : args.getD 1 "." = output)
    {file : Plane} {image : c.Image} (hread : d.read input = .ok file)
    (hdecode : c.decode input file = some image) :
    ∃ (w h : UInt32) (rgb : Plane) (header : List String),
      Aligned (c.width image) (c.height image) w h ∧
      TopLeft w.toNat h.toNat rgb (c.width image).toNat (c.toRgb image) ∧
      header = [(Engine.ofEnvironment x.environment).describe,
        input ++ " " ++ toString w.toNat ++ "x" ++ toString h.toNat] ∧
      ((∀ f, checkGeometry f w.toNat h.toNat = .ok ()) →
        (∀ f, f = .rgb24 ∨ f ∈ trialFormats → x.grants (f.frameSize w.toNat h.toNat) = true) →
        (∀ f ∈ trialFormats, d.Writable (output ++ "/" ++ rawName f) ∧
          d.Writable (output ++ "/" ++ pictureName f)) →
        ∃ ts here, Tried (Engine.ofEnvironment x.environment) w h rgb ts ∧
          d.follow (Route.directory d.home output) = .ok here ∧
          Machine.run (run x.host c args) ⟨d, lines, n⟩ =
            (.ok (), ⟨d.putAll here (ts.flatMap (·.files c w h)),
              lines ++ header ++ Trial.texts (Engine.ofEnvironment x.environment) x.times ts n,
              n + 18⟩) ∧
          ∀ t ∈ ts,
            (d.putAll here (ts.flatMap (·.files c w h))).read
              (output ++ "/" ++ rawName t.format) = .ok t.raw ∧
            (d.putAll here (ts.flatMap (·.files c w h))).read
              (output ++ "/" ++ pictureName t.format) = .ok (c.encode t.restored w h)) ∧
      ((c.width image).toNat < 4 ∨ (c.height image).toNat < 2 →
        Machine.run (run x.host c args) ⟨d, lines, n⟩ =
          (.error (.conversion (.refused .zeroSize)), ⟨d, lines ++ header, n⟩)) := by
  obtain ⟨w, h, hsides⟩ : ∃ w h, aligned (c.width image) (c.height image) = (w, h) :=
    ⟨_, _, rfl⟩
  have haligned : Aligned (c.width image) (c.height image) w h := by
    have haligned := aligned_spec (c.width image) (c.height image)
    rw [hsides] at haligned
    exact haligned
  have hcut := hc.topLeft haligned.width_le haligned.height_le
  have hrun : Machine.run (run x.host c args) ⟨d, lines, n⟩ = _ :=
    run_eq_trials hinput houtput hread hdecode hsides
  refine ⟨w, h, _, _, haligned, hcut, rfl, fun haccepted hgrants hwrite => ?_, fun hsmall => ?_⟩
  · have hfit : ∀ f, Fit f w.toNat h.toNat := fun f => checkGeometry_eq_ok_iff.1 (haccepted f)
    obtain ⟨ts, htried⟩ : ∃ ts, Tried (Engine.ofEnvironment x.environment) w h
        (c.toRgb (c.crop image w h)) ts := exists_tried x.environment.probe.mask hcut.size hfit
    have hformats : ts.map Trial.format = trialFormats := htried.formats.trans trialFormats_eq.symm
    obtain ⟨here, hhere, hfits⟩ := exists_fits hwrite
    have hfits : ∀ t ∈ ts, t.Fits d output here :=
      fun t ht => hfits t (hformats ▸ List.mem_map_of_mem ht)
    have hcount : ts.length = 9 := by
      rw [← List.length_map (f := Trial.format), htried.formats]
      rfl
    refine ⟨ts, here, htried, hhere, ?_, fun t ht => read_results hformats hfits ht⟩
    rw [hrun, ← hformats, run_trials htried.made hcut.size hfit (hformats ▸ hgrants) hfits, hcount]
  · have hzero : w.toNat = 0 ∨ h.toNat = 0 := by
      obtain ⟨hw, hh⟩ := toNat_aligned (c.width image) (c.height image)
      rw [hsides] at hw hh
      dsimp only at hw hh
      omega
    rw [hrun, trialFormats_eq]
    exact run_trials_of_zero hzero _ _

/-- A file with a gray picture of 5 by 3 pixels, compressed. -/
def grayFile : Plane :=
  #[137, 80, 78, 71, 13, 10, 26, 10, 0, 0, 0, 13, 73, 72, 68, 82, 0, 0, 0, 5, 0, 0, 0, 3, 8, 0, 0,
    0, 0, 126, 93, 154, 36, 0, 0, 0, 26, 73, 68, 65, 84, 120, 218, 99, 96, 16, 84, 50, 118, 97, 8,
    77, 43, 239, 152, 201, 176, 106, 247, 153, 187, 239, 0, 40, 233, 6, 250, 207, 171, 93, 40, 0,
    0, 0, 0, 73, 69, 78, 68, 174, 66, 96, 130]

/-- A file with a picture of one pixel. -/
def dotFile : Plane :=
  #[137, 80, 78, 71, 13, 10, 26, 10, 0, 0, 0, 13, 73, 72, 68, 82, 0, 0, 0, 1, 0, 0, 0, 1, 8, 2, 0,
    0, 0, 144, 119, 83, 222, 0, 0, 0, 12, 73, 68, 65, 84, 120, 218, 99, 96, 100, 98, 6, 0, 0, 14,
    0, 7, 233, 146, 55, 212, 0, 0, 0, 0, 73, 69, 78, 68, 174, 66, 96, 130]

theorem sides_grayFile :
    (Png.decode? grayFile).map (fun p => (p.width, p.height)) = some (5, 3) := by
  decide +kernel

theorem sides_dotFile :
    (Png.decode? dotFile).map (fun p => (p.width, p.height)) = some (1, 1) := by
  decide +kernel

/-- A working directory with both files and a directory for results. -/
def sampleDisk : Disk :=
  ⟨["home"], [["home", "out"]], [⟨["home"], "gray.png", grayFile⟩, ⟨["home"], "dot.png", dotFile⟩]⟩

/-- A machine that grants all memory and does not tell times. -/
def sampleMachine : Machine := ⟨.empty, fun _ => true, fun _ => "-"⟩

/-- The first picture is tried in all nine formats, and its 4 by 2 pixels in `YUV420P` are there as
a file afterwards; the second has too few. -/
theorem gray_and_dot_tried :
    ∃ (ts : List Trial) (d : Disk) (describe : String), ts.length = 9 ∧
      Machine.run (run sampleMachine.host Png.codec ["gray.png", "../home/out"])
          ⟨sampleDisk, [], 0⟩ =
        (.ok (), ⟨d, [describe, "gray.png 4x2"] ++
          Trial.texts (Engine.ofEnvironment .empty) (fun _ => "-") ts 0, 18⟩) ∧
      (∃ t ∈ ts, t.raw.size = 12 ∧ d.read "../home/out/frame.yuv420p" = .ok t.raw) ∧
      Machine.run (run sampleMachine.host Png.codec ["dot.png"]) ⟨sampleDisk, [], 0⟩ =
        (.error (.conversion (.refused .zeroSize)),
          ⟨sampleDisk, [describe, "dot.png 0x0"], 0⟩) := by
  obtain ⟨gray, hgray, hgraySides⟩ := Option.map_eq_some_iff.1 sides_grayFile
  obtain ⟨dot, hdot, hdotSides⟩ := Option.map_eq_some_iff.1 sides_dotFile
  obtain ⟨hgrayWidth, hgrayHeight⟩ := Prod.mk_inj.1 hgraySides
  obtain ⟨hdotWidth, hdotHeight⟩ := Prod.mk_inj.1 hdotSides
  have houtput : ["gray.png", "../home/out"].getD 1 "." = "../home/out" := rfl
  have hreadGray : sampleDisk.read "gray.png" = .ok grayFile := rfl
  have hreadDot : sampleDisk.read "dot.png" = .ok dotFile := rfl
  have hwrite : ∀ f ∈ trialFormats, sampleDisk.Writable ("../home/out" ++ "/" ++ rawName f) ∧
      sampleDisk.Writable ("../home/out" ++ "/" ++ pictureName f) := by
    have hok : ∀ f ∈ trialFormats,
        (sampleDisk.write ("../home/out" ++ "/" ++ rawName f) #[]).isOk = true ∧
          (sampleDisk.write ("../home/out" ++ "/" ++ pictureName f) #[]).isOk = true := by
      simp only [rawName, pictureName, fileWord_eq]
      decide +kernel
    exact fun f hf => ⟨Disk.writable_of_isOk (hok f hf).1, Disk.writable_of_isOk (hok f hf).2⟩
  obtain ⟨w, h, rgb, _, haligned, -, rfl, hrun, -⟩ := run_tries_every_format sampleMachine
    Png.codec_lawful ["gray.png", "../home/out"] sampleDisk [] 0 rfl houtput hreadGray hgray
  obtain ⟨v, u, _, _, hcut, -, rfl, -, hstop⟩ := run_tries_every_format sampleMachine
    Png.codec_lawful ["dot.png"] sampleDisk [] 0 rfl rfl hreadDot hdot
  have hgrayCut : (4, 2) = (w, h) := by
    have hsides : aligned gray.width gray.height = (w, h) := haligned.eq_aligned
    rw [hgrayWidth, hgrayHeight] at hsides
    exact hsides
  have hdotCut : (0, 0) = (v, u) := by
    have hsides : aligned dot.width dot.height = (v, u) := hcut.eq_aligned
    rw [hdotWidth, hdotHeight] at hsides
    exact hsides
  cases hgrayCut
  cases hdotCut
  obtain ⟨ts, here, htried, -, hreport, hresults⟩ :=
    hrun (fun f => by cases f <;> rfl) (fun _ _ => rfl) hwrite
  obtain ⟨t, ht, hformat⟩ : ∃ t ∈ ts, t.format = .yuv420p := by
    rw [← List.mem_map, htried.formats]
    decide
  have hcount : ts.length = 9 := by
    rw [← List.length_map (f := Trial.format), htried.formats]
    rfl
  have hsize := (htried.made t ht).size
  have hraw := (hresults t ht).1
  rw [hformat] at hsize hraw
  have hpath : "../home/out" ++ "/" ++ rawName .yuv420p = "../home/out/frame.yuv420p" := by
    simp only [rawName, fileWord_eq]
    decide +kernel
  rw [hpath] at hraw
  refine ⟨ts, _, _, hcount, hreport, ⟨t, ht, hsize, hraw⟩, hstop (.inl ?_)⟩
  change dot.width.toNat < 4
  rw [hdotWidth]
  decide

end Demo
end FrameConvert
