/-
# There and back

A trial takes colour pixels from `RGB24` to a YUV format and back, and compares what
comes out with what went in.  Its line names the format, the tiers that did the work,
how long each way took, and the largest distance in each channel:

`    YV12: forward 12µs (avx2), backward 9µs (avx2), max divergence [1, 2, 3]`

Then the bytes of the format go to one file, and the restored pixels to another as a
picture.  Trials are run for every YUV format, in the order of the codes.
-/

import FrameConvert.Frame
import FrameConvert.Demo.Host
import FrameConvert.Demo.Picture

namespace FrameConvert
namespace Demo

/-- The formats that are tried. -/
def trialFormats : List Format := Format.all.filter Format.isYuv

/-- The name of the tier that serves a pair, or a dash. -/
def tierName (e : Engine) (a b : Format) : String :=
  match e.lookup a b with
  | some k => k.tier.name
  | none => "-"

/-- A text with blanks before it up to a width. -/
def padLeft (width : Nat) (s : String) : String :=
  String.ofList (List.replicate (width - s.length) ' ') ++ s

/-- Numbers between brackets. -/
def listText (ns : List Nat) : String := "[" ++ ", ".intercalate (ns.map toString) ++ "]"

/-- The line of a trial, for the times that the two ways took. -/
def trialLine (e : Engine) (f : Format) (forward backward : String) (divergence : List Nat) :
    String :=
  s!"{padLeft 8 f.name}: forward {forward} ({tierName e .rgb24 f}), backward {backward} ({tierName e f .rgb24}), max divergence {listText divergence}"

/-- The name of a format in file names. -/
def fileWord (f : Format) : String := f.name.map Char.toLower

/-- Where the bytes of a format go. -/
def rawPath (output : String) (f : Format) : String := s!"{output}/frame.{fileWord f}"

/-- Where the restored picture goes. -/
def picturePath (output : String) (f : Format) : String :=
  s!"{output}/restored_{fileWord f}.png"

section Run

variable {m : Type → Type} [Monad m]

/-- A timed conversion of a frame into a new one, and the text of the time. -/
def convertTimed (host : Host m) (e : Engine) (a b : Format) (w h : Nat) (src : Plane) :
    Act m (Plane × String) := do
  let frame ← Act.ofExcept .conversion (Frame.alloc host.grants b w h)
  let (o, time) ← host.timed fun _ => e.convertBuffer a b w h src frame.data
  return (← Act.ofExcept .conversion o.result, time)

/-- The trial of a format. -/
def tryFormat (host : Host m) (c : Codec) (e : Engine) (output : String) (w h : UInt32)
    (rgb : Plane) (f : Format) : Act m Unit := do
  let (raw, forward) ← convertTimed host e .rgb24 f w.toNat h.toNat rgb
  let (restored, backward) ← convertTimed host e f .rgb24 w.toNat h.toNat raw
  let divergence ← Act.ofExcept .conversion (attempt (maxDivergence rgb restored 3))
  host.print (trialLine e f forward backward divergence)
  Act.ofExcept .disk (← host.write (rawPath output f) raw)
  Act.ofExcept (fun _ => .picture)
    (← host.write (picturePath output f) (c.encode restored w h))

end Run

end Demo
end FrameConvert
