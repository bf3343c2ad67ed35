/-
# Why a conversion is refused

A conversion looks at its formats, its geometry and its buffers before it touches
a byte.  What it finds wrong is a `Refusal`, with the numbers that its message
shows:

| refusal | found wrong |
| --- | --- |
| `unsupported`, `inPlaceUnsupported` | the pair of formats |
| `zeroSize`, `tooLarge`, `misaligned` | the geometry |
| `planeCount`, `planeSize`, `bufferSize` | the planes or the buffer |
| `allocation` | the memory asked for |

A `Failure` is a refusal or a fault, and an `Attempt` ends in a value or a failure.
-/

import FrameConvert.Format.Size

namespace FrameConvert

/-- What a conversion finds wrong with what it was given. -/
inductive Refusal
  /-- no kernel for the pair -/
  | unsupported (source target : Format)
  /-- the pair's kernel needs a destination of its own -/
  | inPlaceUnsupported (source target : Format)
  /-- the memory cannot be had -/
  | allocation
  /-- a side is no multiple of the format's chroma block -/
  | misaligned (format : Format) (width height : Nat)
  /-- a side is zero -/
  | zeroSize
  /-- four bytes per pixel do not fit a 64-bit size -/
  | tooLarge
  /-- planes are missing -/
  | planeCount (expected received : Nat)
  /-- a plane is too short -/
  | planeSize (plane expected received : Nat)
  /-- the buffer is too short -/
  | bufferSize (expected received : Nat)
  deriving DecidableEq, Repr

namespace Refusal

/-- The text shown for a refusal. -/
def message : Refusal → String
  | unsupported s t => s!"Conversion from {s} to {t} is not supported"
  | inPlaceUnsupported s t => s!"Conversion from {s} to {t} cannot be performed in place"
  | allocation => "Failed to allocate memory"
  | misaligned f w h =>
    s!"Frame {w}x{h} is invalid for {f}, width must be divisible by {f.chromaBlock.1} and height by {f.chromaBlock.2}"
  | zeroSize => "Zero sized images is not supported"
  | tooLarge => "Image size overflow pointer capabilities"
  | planeCount expected received =>
    s!"Frame must have at least {expected} planes, but it has {received}"
  | planeSize plane expected received =>
    s!"Plane {plane} have invalid size, it must be at least {expected}, but it was {received}"
  | bufferSize expected received =>
    s!"Buffer must have size at least {expected} but it is {received}"

end Refusal

/-- Why an attempt has no result. -/
inductive Failure
  | refused (why : Refusal)
  | wrong (fault : Fault)
  deriving DecidableEq, Repr

/-- The text shown for a failure. -/
def Failure.message : Failure → String
  | refused why => why.message
  | wrong _ => "The computation left its range"

/-- A computation that may be refused, or be wrong. -/
abbrev Attempt := Except Failure

/-- Refuses. -/
def refuse {α : Type} (why : Refusal) : Attempt α := .error (.refused why)

/-- A fault fails the attempt. -/
def attempt {α : Type} : Checked α → Attempt α
  | .ok a => .ok a
  | .error f => .error (.wrong f)

@[simp] theorem attempt_ok {α : Type} (a : α) : attempt (.ok a) = .ok a := rfl

end FrameConvert
