/-
# The engine

An engine is built for a mask.  It registers the portable kernel of every pair that
has one, and then, for each tier of the mask in ascending order, the kernel that the
tier has of its own; so the highest tier of the mask that serves a pair wins.  Each
replacement is logged, and at the end what came of it.

The engine finds the kernel of a pair and hands the frame to it, as planes, as
planes to be reworked where they stand, or as two buffers.  A pair without a kernel
is refused before anything else.
-/

import FrameConvert.Environment
import FrameConvert.Registry
import FrameConvert.Split

namespace FrameConvert

/-- Every ordered pair of formats, in the order of the codes. -/
def Format.pairs : List (Format × Format) := all.flatMap fun a => all.map fun b => (a, b)

/-- The kernels for a mask. -/
structure Engine where
  registry : Registry
  mask : Mask

namespace Engine

/-- A registry in the making and its log. -/
structure Draft where
  registry : Registry
  log : List LogLine

/-- With the portable kernel of a pair. -/
def withPortable (r : Registry) (pair : Format × Format) : Registry :=
  match Kernel.portable? pair.1 pair.2 with
  | some k => (r.register k).registry
  | none => r

/-- The portable kernels of all pairs. -/
def portableRegistry : Registry := Format.pairs.foldl withPortable .empty

/-- With the kernel of a tier for a pair, if the pair is served at all. -/
def withAccelerated (t : Tier) (d : Draft) (pair : Format × Format) : Draft :=
  let (a, b) := pair
  if (d.registry.lookup a b).isNone then d
  else
    match Kernel.accelerated? t a b with
    | none => d
    | some k =>
      let ⟨registry, displaced⟩ := d.registry.register k
      match displaced with
      | none => ⟨registry, d.log⟩
      | some old =>
        ⟨registry, d.log ++ [⟨.trace, s!"{a} -> {b}: {t} kernel replaces {old.tier}"⟩]⟩

/-- With the kernels of a tier. -/
def withTier (d : Draft) (t : Tier) : Draft := Format.pairs.foldl (withAccelerated t) d

/-- The registry for a mask, and how it came about. -/
def draft (m : Mask) : Draft := m.tiers.foldl withTier ⟨portableRegistry, []⟩

/-- The engine for a mask. -/
def build (m : Mask) : Engine := ⟨(draft m).registry, m⟩

/-- The kernel of a pair. -/
def lookup (e : Engine) (a b : Format) : Option Kernel := e.registry.lookup a b

/-- Whether a pair can be converted. -/
def supports (e : Engine) (a b : Format) : Bool := (e.lookup a b).isSome

/-- The pairs that can be converted, in order. -/
def pairs (e : Engine) : List (Format × Format) := e.registry.pairs

/-- How many pairs are served by an accelerated kernel. -/
def acceleratedCount (e : Engine) : Nat := e.registry.kernels.countP Kernel.isAccelerated

/-- One line about an engine. -/
def describe (e : Engine) : String :=
  s!"imgconvert {e.mask}: {e.registry.length} conversions, {e.acceleratedCount} accelerated"

/-- What building the engine for a mask logs. -/
def buildLog (m : Mask) : List LogLine :=
  let e := build m
  (draft m).log ++
    [⟨.debug, s!"Conversion engine ready with {m}: {e.registry.length} pairs, {e.acceleratedCount} accelerated"⟩]

/-- The engine for what the environment leaves of the machine's tiers. -/
def ofEnvironment (env : Environment) : Engine := build env.probe.mask

/-- The kernel of a pair, or a refusal. -/
def kernel (e : Engine) (a b : Format) : Attempt Kernel :=
  match e.lookup a b with
  | some k => .ok k
  | none => refuse (.unsupported a b)

/-- Converts a frame into other planes. -/
def convert (e : Engine) (a b : Format) (w h : Nat) (src dst : List Plane) :
    Outcome (List Plane) :=
  .of (do (← e.kernel a b).converting src w h) dst

/-- Converts a frame where it stands. -/
def convertInPlace (e : Engine) (a b : Format) (w h : Nat) (planes : List Plane) :
    Outcome (List Plane) :=
  .of (do (← e.kernel a b).reworking w h) planes

/-- Converts a frame in a buffer into the buffer that is acted on. -/
def convertingBuffer (e : Engine) (a b : Format) (w h : Nat) (src : Plane) :
    Action Plane Unit := do
  let k ← e.kernel a b
  let s ← split src a w h
  let d ← .look (split · b w h)
  d.onPlanes (k.converting s.planes w h)

/-- Converts a frame between buffers that hold their planes one behind the
other. -/
def convertBuffer (e : Engine) (a b : Format) (w h : Nat) (src dst : Plane) : Outcome Plane :=
  .of (e.convertingBuffer a b w h src) dst

/-- A frame in a buffer of its own, converted from another buffer. -/
def convertedFresh (e : Engine) (a b : Format) (w h : Nat) (src : Plane) : Attempt Plane := do
  let _ ← e.kernel a b
  let _ ← split src a w h
  let n ← attempt (b.frameSize64 w h)
  (e.convertBuffer a b w h src (Array.replicate n 0)).result

/-- Converts the frame in the buffer that is acted on. -/
def reworkingBuffer (e : Engine) (a b : Format) (w h : Nat) : Action Plane Unit := do
  let s ← .look (split · a w h)
  let k ← e.kernel a b
  s.onPlanes (k.reworking w h)

end Engine
end FrameConvert
