/-
# Kernels

A kernel is the method of a tier for an ordered pair of formats.  It checks what it
is given before it runs:

1. the geometry for the source format, then for the target format;
2. the source planes, then the destination planes.

In place it first needs a method for that, and the same planes have to pass for
both formats.  The method writes to the destination planes, or to the planes themselves
in place; the checks only look at them.
-/

import FrameConvert.Action
import FrameConvert.Geometry
import FrameConvert.Method

namespace FrameConvert

/-- The method of a tier for an ordered pair of formats. -/
structure Kernel where
  source : Format
  target : Format
  tier : Tier
  method : Method

namespace Kernel

/-- The pair as a number; pairs are ordered by the source's code, then by the
target's. -/
def keyOf (a b : Format) : Nat := a.code * 0x10000 + b.code

/-- The number of a kernel's pair. -/
def key (k : Kernel) : Nat := keyOf k.source k.target

theorem keyOf_injective {a b c d : Format} (h : keyOf a b = keyOf c d) : a = c ∧ b = d := by
  have hb : b.code < 0x10000 := by cases b <;> decide
  have hd : d.code < 0x10000 := by cases d <;> decide
  have code_injective : ∀ f g : Format, f.code = g.code → f = g := by
    intro f g h
    have := (Format.ofCode?_code f).symm.trans (h ▸ Format.ofCode?_code g)
    exact Option.some.inj this
  unfold keyOf at h
  exact ⟨code_injective _ _ (by omega), code_injective _ _ (by omega)⟩

/-- Whether a kernel is built for an accelerated tier. -/
def isAccelerated (k : Kernel) : Bool := k.tier != .portable

/-- Whether a kernel can rework a frame where it stands. -/
def worksInPlace (k : Kernel) : Bool := k.method.rework?.isSome

/-- The portable kernel of a pair. -/
def portable? (a b : Format) : Option Kernel :=
  (Method.portable? a b).map fun m => ⟨a, b, .portable, m⟩

/-- The kernel of a tier for a pair. -/
def accelerated? (t : Tier) (a b : Format) : Option Kernel :=
  (Method.accelerated? t a b).map fun m => ⟨a, b, t, m⟩

/-- Converts a frame into the planes that are acted on. -/
def converting (k : Kernel) (src : List Plane) (w h : Nat) : Action (List Plane) Unit := do
  checkGeometry k.source w h
  checkGeometry k.target w h
  checkPlanes src k.source w h
  .look (checkPlanes · k.target w h)
  .write (k.method.transfer src · w h)

/-- Converts the frame in the planes that are acted on. -/
def reworking (k : Kernel) (w h : Nat) : Action (List Plane) Unit := do
  match k.method.rework? with
  | none => refuse (.inPlaceUnsupported k.source k.target)
  | some rework =>
    checkGeometry k.source w h
    checkGeometry k.target w h
    .look (checkPlanes · k.source w h)
    .look (checkPlanes · k.target w h)
    .write (rework · w h)

/-- Converts a frame into other planes. -/
def convert (k : Kernel) (src dst : List Plane) (w h : Nat) : Outcome (List Plane) :=
  .of (k.converting src w h) dst

/-- Converts a frame where it stands. -/
def convertInPlace (k : Kernel) (planes : List Plane) (w h : Nat) : Outcome (List Plane) :=
  .of (k.reworking w h) planes

end Kernel
end FrameConvert
