/-
# The command line

Runs the demonstration on real files, with real times.  Pictures are PNG files.  An
error ends the program with its text on the error stream.
-/

import FrameConvert.Demo.Duration
import FrameConvert.Demo.Png.Codec
import FrameConvert.Demo.Run

namespace FrameConvert
namespace Demo

/-- What the system reports of a file that cannot be opened. -/
def diskError : IO.Error → DiskError
  | .noFileOrDirectory .. => .notFound
  | .inappropriateType _ 20 _ => .notADirectory
  | .inappropriateType .. => .isADirectory
  | .invalidArgument _ 36 _ => .nameTooLong
  | e => .other (toString e)

/-- Work on a file. -/
def onFile {α : Type} (work : IO α) : IO (Except DiskError α) := do
  match ← work.toBaseIO with
  | .ok a => return .ok a
  | .error e => return .error (diskError e)

/-- The machine that the program runs on. -/
def realHost : Host IO where
  read name := do return (← onFile (IO.FS.readBinFile name)).map (·.data)
  write name bytes := onFile (IO.FS.writeBinFile name ⟨bytes⟩)
  print := IO.println
  environment := return ⟨← IO.getEnv Environment.disableName, ← IO.getEnv Environment.maxTierName⟩
  grants _ := true
  timed work := do
    let start ← IO.monoNanosNow
    let a ← IO.lazyPure work
    let stop ← IO.monoNanosNow
    return (a, Duration.text (stop - start))

/-- The program; an error is shown and leads to the code `1`. -/
def program (args : List String) : IO UInt32 := do
  match ← (run realHost Png.codec args).run with
  | .ok _ => return 0
  | .error why =>
    IO.eprintln s!"Error: {why.message}"
    return 1

end Demo
end FrameConvert

def main (args : List String) : IO UInt32 := FrameConvert.Demo.program args
