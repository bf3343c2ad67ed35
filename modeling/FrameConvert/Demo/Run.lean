/-
# The demonstration

Two arguments name the picture and the directory for the results; without them
they are `./assets/bench.jpg` and `.`.  The picture is cut to aligned sides.  Then
come two lines, the engine's and one with the picture's name and size, and after
them a trial for every YUV format.  The first error ends the run.
-/

import FrameConvert.Demo.Trial

namespace FrameConvert
namespace Demo

variable {m : Type → Type} [Monad m]

/-- The picture's name and the directory for the results. -/
def arguments (args : List String) : String × String :=
  (args.getD 0 "./assets/bench.jpg", args.getD 1 ".")

/-- The stop for a picture that cannot be opened.  A directory opens, but what it
holds is no picture. -/
def Stop.ofOpening : DiskError → Stop
  | .isADirectory => picture
  | why => disk why

/-- The picture in a file. -/
def openPicture (host : Host m) (c : Codec) (name : String) : Act m c.Image := do
  let file ← Act.ofExcept .ofOpening (← host.read name)
  match c.decode name file with
  | some image => return image
  | none => throw .picture

/-- The whole demonstration. -/
def run (host : Host m) (c : Codec) (args : List String) : Act m Unit := do
  let (input, output) := arguments args
  let image ← openPicture host c input
  let (w, h) := aligned (c.width image) (c.height image)
  let rgb := c.toRgb (c.crop image w h)
  let e := Engine.ofEnvironment (← host.environment)
  host.print e.describe
  host.print s!"{input} {w}x{h}"
  trialFormats.forM (tryFormat host c e output w h rgb)

end Demo
end FrameConvert
