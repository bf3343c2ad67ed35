/-
# What the demonstration runs on

The demonstration reads and writes files, shows lines, asks for the environment and for
memory, and takes times.  All of that is a `Host`, over any monad.  What a run does on a
real machine and what it does on one that is known altogether, a `Machine` with its
`World`, is the same run on two hosts.

A run may end early, with a `Stop`; what was shown and written before stays.
-/

import FrameConvert.Environment
import FrameConvert.Refusal
import FrameConvert.Demo.Disk

namespace FrameConvert
namespace Demo

/-- Why a run ends early. -/
inductive Stop
  | disk (why : DiskError)
  | conversion (why : Failure)
  /-- a picture cannot be decoded or written -/
  | picture
  deriving DecidableEq, Repr

/-- The text shown for a stop. -/
def Stop.message : Stop → String
  | disk why => why.message
  | conversion why => why.message
  | picture => "The picture cannot be read or written"

/-- What the demonstration needs of what it runs on. -/
structure Host (m : Type → Type) where
  /-- the bytes of a file -/
  read : String → m (Except DiskError Plane)
  /-- a file of the given bytes, instead of one that is there -/
  write : String → Plane → m (Except DiskError Unit)
  /-- shows a line -/
  print : String → m Unit
  environment : m Environment
  /-- whether that many bytes of memory can be had -/
  grants : Nat → Bool
  /-- a computation, and the text of the time that it takes -/
  timed : {α : Type} → (Unit → α) → m (α × String)

/-- A part of a run. -/
abbrev Act (m : Type → Type) := ExceptT Stop m

namespace Act

variable {m : Type → Type} [Monad m] {α ε : Type}

/-- What was found out, or the end of the run. -/
def ofExcept (stop : ε → Stop) : Except ε α → Act m α
  | .ok a => return a
  | .error e => throw (stop e)

end Act

/-- A machine as far as a run can tell. -/
structure Machine where
  environment : Environment
  grants : Nat → Bool
  /-- the text of the time that each computation takes, in the order in which they are
  timed -/
  times : Nat → String

/-- What a run changes on a machine. -/
structure World where
  disk : Disk
  printed : List String
  /-- how many computations were timed -/
  timed : Nat

namespace Machine

/-- A machine as a host. -/
def host (x : Machine) : Host (StateM World) where
  read name := fun w => (w.disk.read name, w)
  write name bytes := fun w =>
    match w.disk.write name bytes with
    | .ok disk => (.ok (), { w with disk := disk })
    | .error e => (.error e, w)
  print line := fun w => ((), { w with printed := w.printed ++ [line] })
  environment := return x.environment
  grants := x.grants
  timed work := fun w => ((work (), x.times w.timed), { w with timed := w.timed + 1 })

/-- What an act does on a machine: how it ends, and the world afterwards. -/
def run {α : Type} (act : Act (StateM World) α) (w : World) : Except Stop α × World :=
  StateT.run (ExceptT.run act) w

end Machine
end Demo
end FrameConvert
