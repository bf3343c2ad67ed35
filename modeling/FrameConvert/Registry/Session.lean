/-
# Working with one registry

A session starts with an empty registry.  Kernels come from engines built for any
masks, in any order; the registered kernel of a pair is run directly.
-/

import FrameConvert.Engine

namespace FrameConvert
namespace Registry

/-- A step of a session. -/
inductive Step
  /-- the pair's kernel of an engine, if it has one -/
  | register (source target : Format) (engine : Engine)
  | lookup (source target : Format)
  | length
  | pairs
  | kernels
  | convert (source target : Format) (width height : Nat) (src dst : List Plane)
  | convertInPlace (source target : Format) (width height : Nat) (planes : List Plane)

/-- What a step answers. -/
inductive Answer
  | registered (displaced? : Option Kernel) (length : Nat)
  | missing (length : Nat)
  | kernel (kernel? : Option Kernel)
  | length (length : Nat) (isEmpty : Bool)
  | pairs (pairs : List (Format × Format))
  | kernels (kernels : List Kernel)
  | planes (outcome? : Option (Outcome (List Plane)))

/-- One step: the registry afterwards and the answer. -/
def step (r : Registry) : Step → Registry × Answer
  | .register a b e =>
    match e.lookup a b with
    | none => (r, .missing r.length)
    | some k =>
      let ⟨s, displaced⟩ := r.register k
      (s, .registered displaced s.length)
  | .lookup a b => (r, .kernel (r.lookup a b))
  | .length => (r, .length r.length r.isEmpty)
  | .pairs => (r, .pairs r.pairs)
  | .kernels => (r, .kernels r.kernels)
  | .convert a b w h src dst => (r, .planes ((r.lookup a b).map (·.convert src dst w h)))
  | .convertInPlace a b w h planes =>
    (r, .planes ((r.lookup a b).map (·.convertInPlace planes w h)))

/-- All steps in order: the registry afterwards and the answers. -/
def run (r : Registry) : List Step → Registry × List Answer
  | [] => (r, [])
  | x :: xs =>
    let (s, a) := r.step x
    let (t, as) := s.run xs
    (t, a :: as)

end Registry
end FrameConvert
