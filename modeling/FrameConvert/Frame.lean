/-
# Frames in memory

A frame is a format, a size and the memory that holds its planes one behind the
other.  The memory may be longer than the frame.  Format and size can be changed
freely, so they need not go with the memory any more; whatever looks at the planes
checks them again.  No operation changes the length of the memory.  How much memory can
be had for a new frame is for the machine to say (`grants`).
-/

import FrameConvert.Engine

namespace FrameConvert

/-- A frame and its memory. -/
structure Frame where
  format : Format
  width : Nat
  height : Nat
  data : Plane

namespace Frame

/-- A frame of zeros, if as much memory is granted. -/
def alloc (grants : Nat → Bool) (f : Format) (w h : Nat) : Attempt Frame := do
  checkGeometry f w h
  let n ← attempt (f.frameSize64 w h)
  if grants n then return ⟨f, w, h, Array.replicate n 0⟩
  else refuse .allocation

/-- A frame over memory that is there already. -/
def ofMemory (memory : Plane) (f : Format) (w h : Nat) : Attempt Frame := do
  checkGeometry f w h
  let n ← attempt (f.frameSize64 w h)
  if memory.size < n then refuse (.bufferSize n memory.size)
  else return ⟨f, w, h, memory⟩

/-- The memory cut into planes. -/
def split (x : Frame) : Attempt Split := FrameConvert.split x.data x.format x.width x.height

/-- The planes. -/
def planes (x : Frame) : Attempt (List Plane) := do return (← x.split).planes

/-- Another format and size for the same memory. -/
def relabel (x : Frame) (f : Format) (w h : Nat) : Frame :=
  { x with format := f, width := w, height := h }

/-- An action on the memory of a frame. -/
def onData : Action Plane Unit → Action Frame Unit :=
  .onPart data fun data x => { x with data := data }

/-- Sets one byte of one plane. -/
def write (x : Frame) (plane pos : Nat) (value : UInt8) : Outcome Frame :=
  .of (onData do
    let s ← .look (FrameConvert.split · x.format x.width x.height)
    s.onPlanes (.write fun planes => onPlane planes plane (·.write pos value))) x

/-- Sets bytes of the memory. -/
def writeData (x : Frame) (pos : Nat) (bytes : List UInt8) : Outcome Frame :=
  .of (onData (.write (·.writeAll pos bytes))) x

/-- Converts a frame in a buffer into this one's memory. -/
def convertFrom (x : Frame) (e : Engine) (a : Format) (src : Plane) : Outcome Frame :=
  .of (onData (e.convertingBuffer a x.format x.width x.height src)) x

/-- Converts this frame into a new one of another format. -/
def convertTo (x : Frame) (grants : Nat → Bool) (e : Engine) (b : Format) :
    Attempt (Outcome Frame) := do
  let y ← alloc grants b x.width x.height
  return .of (onData (e.convertingBuffer x.format b x.width x.height x.data)) y

/-- Converts this frame where it stands; it then has the other format. -/
def convertInPlace (x : Frame) (e : Engine) (b : Format) : Outcome Frame :=
  .of (do
    onData (e.reworkingBuffer x.format b x.width x.height)
    modify ({ · with format := b })) x

end Frame
end FrameConvert
