/-
# Working with one engine

A session has an engine and a current buffer, empty at first.  The engine may be
rebuilt for another mask.  A conversion of the current buffer into a new one puts the
new one in its place, if it goes through.
-/

import FrameConvert.Engine

namespace FrameConvert
namespace Engine

/-- A pair of formats and the size of a frame. -/
structure Job where
  source : Format
  target : Format
  width : Nat
  height : Nat

/-- A step of a session. -/
inductive Step
  | rebuild (mask : Mask)
  | describe
  | capabilities
  | registry (source target : Format)
  | lookup (source target : Format)
  | supports (source target : Format)
  | pairs
  | tiers
  | convert (job : Job) (src dst : List Plane)
  | convertInPlace (job : Job) (planes : List Plane)
  | convertBuffer (job : Job) (src dst : Plane)
  /-- a new current buffer -/
  | load (data : Plane)
  /-- the current buffer into a new one -/
  | toFresh (job : Job)
  /-- the current buffer where it stands -/
  | toInPlace (job : Job)

/-- What a step answers. -/
inductive Answer
  | text (text : String)
  | mask (mask : Mask)
  | entry (length : Nat) (isEmpty : Bool) (kernel? : Option Kernel)
  | kernel (kernel? : Option Kernel)
  | flag (value : Bool)
  | pairs (pairs : List (Format × Format))
  | kernels (kernels : List Kernel)
  | planes (outcome : Outcome (List Plane))
  | buffer (outcome : Outcome Plane)
  | length (bytes : Nat)

/-- The engine and the current buffer. -/
structure Session where
  engine : Engine
  buffer : Plane

namespace Session

/-- A session that starts with an engine. -/
def start (e : Engine) : Session := ⟨e, #[]⟩

/-- An action on the current buffer. -/
def onBuffer (s : Session) (x : Action Plane Unit) : Session × Answer :=
  let o := Outcome.of x s.buffer
  ({ s with buffer := o.after }, .buffer o)

/-- One step: the session afterwards and the answer. -/
def step (s : Session) : Step → Session × Answer
  | .rebuild m =>
    let e := build m
    ({ s with engine := e }, .text e.describe)
  | .describe => (s, .text s.engine.describe)
  | .capabilities => (s, .mask s.engine.mask)
  | .registry a b =>
    let r := s.engine.registry
    (s, .entry r.length r.isEmpty (r.lookup a b))
  | .lookup a b => (s, .kernel (s.engine.lookup a b))
  | .supports a b => (s, .flag (s.engine.supports a b))
  | .pairs => (s, .pairs s.engine.pairs)
  | .tiers => (s, .kernels s.engine.registry.kernels)
  | .convert j src dst =>
    (s, .planes (s.engine.convert j.source j.target j.width j.height src dst))
  | .convertInPlace j planes =>
    (s, .planes (s.engine.convertInPlace j.source j.target j.width j.height planes))
  | .convertBuffer j src dst =>
    (s, .buffer (s.engine.convertBuffer j.source j.target j.width j.height src dst))
  | .load data => ({ s with buffer := data }, .length data.size)
  | .toFresh j => s.onBuffer do
    set (← s.engine.convertedFresh j.source j.target j.width j.height (← get))
  | .toInPlace j =>
    s.onBuffer (s.engine.reworkingBuffer j.source j.target j.width j.height)

/-- All steps in order: the session afterwards and the answers. -/
def run (s : Session) : List Step → Session × List Answer
  | [] => (s, [])
  | x :: xs =>
    let (t, a) := s.step x
    let (u, as) := t.run xs
    (u, a :: as)

end Session
end Engine
end FrameConvert
