/-
# Working with one frame

A session starts with a frame and takes steps.  Each step answers, and leaves the
frame for the next one, also when it fails.
-/

import FrameConvert.Frame

namespace FrameConvert
namespace Frame

/-- A step of a session. -/
inductive Step
  | info
  | data
  | planes
  | relabel (format : Format) (width height : Nat)
  | write (plane pos : Nat) (value : UInt8)
  | writeData (pos : Nat) (bytes : List UInt8)
  | convertFrom (source : Format) (src : Plane) (engine : Engine)
  /-- into a new frame, if the memory is granted -/
  | convertTo (target : Format) (grants : Nat → Bool) (engine : Engine)
  | convertInPlace (target : Format) (engine : Engine)

/-- What a step answers. -/
inductive Answer
  /-- format, width, height and length of the memory -/
  | info (format : Format) (width height length : Nat)
  | data (bytes : Plane)
  | planes (planes : List Plane)
  | nothing
  /-- memory after a conversion -/
  | converted (outcome : Outcome Plane)
  | failed (why : Failure)

/-- The memory after a conversion of a frame. -/
def memoryOf (o : Outcome Frame) : Answer := .converted ⟨o.after.data, o.failure?⟩

/-- The planes of a frame, or why there are none. -/
def planesOf (x : Frame) : Answer :=
  match x.planes with
  | .ok ps => .planes ps
  | .error e => .failed e

/-- The frame after an action, and what is shown of it or why it failed. -/
def answered (o : Outcome Frame) (answer : Frame → Answer) : Frame × Answer :=
  (o.after, match o.failure? with
    | none => answer o.after
    | some e => .failed e)

/-- One step: the frame afterwards and the answer. -/
def step (x : Frame) : Step → Frame × Answer
  | .info => (x, .info x.format x.width x.height x.data.size)
  | .data => (x, .data x.data)
  | .planes => (x, x.planesOf)
  | .relabel f w h => (x.relabel f w h, .nothing)
  | .write plane pos value => answered (x.write plane pos value) planesOf
  | .writeData pos bytes => answered (x.writeData pos bytes) fun y => .data y.data
  | .convertFrom a src e =>
    let o := x.convertFrom e a src
    (o.after, memoryOf o)
  | .convertTo b grants e =>
    match x.convertTo grants e b with
    | .ok o => (x, memoryOf o)
    | .error why => (x, .failed why)
  | .convertInPlace b e =>
    let o := x.convertInPlace e b
    (o.after, memoryOf o)

/-- All steps in order: the frame afterwards and the answers. -/
def run (x : Frame) : List Step → Frame × List Answer
  | [] => (x, [])
  | s :: ss =>
    let (y, a) := x.step s
    let (z, as) := y.run ss
    (z, a :: as)

end Frame
end FrameConvert
