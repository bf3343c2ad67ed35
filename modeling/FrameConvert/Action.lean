/-
# Actions on memory

A conversion looks at memory and then writes to it, and may fail at any point.  What it
has written until then stays: a failure takes nothing back.

| action | memory | fails |
| --- | --- | --- |
| `look f` | stays | as the attempt `f` does |
| `write f` | becomes what `f` makes of it | if a computation leaves its range |
| `x.onPart take put` | what `x` leaves of a part is put back | as `x` does |

An `Outcome` is what an action leaves behind: the memory afterwards, and what went
wrong, if anything did.
-/

import FrameConvert.Refusal

namespace FrameConvert

/-- A computation on memory; a failure comes with the memory as it is then. -/
abbrev Action (Memory : Type) := EStateM Failure Memory

/-- What an action leaves behind. -/
structure Outcome (Memory : Type) where
  /-- the memory afterwards -/
  after : Memory
  /-- why it was not finished -/
  failure? : Option Failure

namespace Action

variable {Memory Part α : Type}

/-- Something found out about the memory. -/
def look (f : Memory → Attempt α) : Action Memory α := fun m =>
  match f m with
  | .ok a => .ok a m
  | .error e => .error e m

/-- An attempt that has nothing to do with the memory. -/
instance : MonadLift Attempt (Action Memory) where
  monadLift x := look fun _ => x

/-- The memory replaced in one go.  What a fault leaves half done is not told. -/
def write (f : Memory → Checked Memory) : Action Memory Unit := fun m =>
  match f m with
  | .ok after => .ok () after
  | .error fault => .error (.wrong fault) m

/-- An action on a part of the memory.  The part is put back as the action leaves it, also
if it fails. -/
def onPart (take : Memory → Part) (put : Part → Memory → Memory) (x : Action Part Unit) :
    Action Memory Unit := fun m =>
  match x (take m) with
  | .ok () part => .ok () (put part m)
  | .error e part => .error e (put part m)

end Action

namespace Outcome

variable {Memory : Type}

/-- What an action leaves of some memory. -/
def of (x : Action Memory Unit) (before : Memory) : Outcome Memory :=
  match x before with
  | .ok () after => ⟨after, none⟩
  | .error e after => ⟨after, some e⟩

/-- The memory afterwards, if nothing went wrong. -/
def result (o : Outcome Memory) : Attempt Memory :=
  match o.failure? with
  | none => .ok o.after
  | some e => .error e

end Outcome
end FrameConvert
