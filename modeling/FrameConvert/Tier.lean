/-
# Acceleration tiers

A tier is an instruction set that kernels are built for.  `portable` needs none;
the others are ordered by what they can do:

`portable < sse2 < sse41 < avx2 < neon`

`ofText?` reads a tier's name in any casing between blanks, and the spellings
`none` for `portable` and `sse4.1` for `sse41`; `ofText?_name` says that it reads
every name.
-/

import FrameConvert.Text.Blank

namespace FrameConvert

/-- An instruction set that kernels are built for. -/
inductive Tier
  | portable | sse2 | sse41 | avx2 | neon
  deriving DecidableEq, Repr

namespace Tier

/-- Every tier, ascending. -/
def all : List Tier := [portable, sse2, sse41, avx2, neon]

/-- The tiers that need an instruction set, ascending. -/
def accelerated : List Tier := [sse2, sse41, avx2, neon]

/-- The place of a tier in the order. -/
def rank : Tier → Nat
  | portable => 0
  | sse2 => 1
  | sse41 => 2
  | avx2 => 3
  | neon => 4

theorem rank_injective {s t : Tier} (h : s.rank = t.rank) : s = t := by
  revert h
  cases s <;> cases t <;> decide

/-- The name of a tier. -/
def name : Tier → String
  | portable => "portable"
  | sse2 => "sse2"
  | sse41 => "sse41"
  | avx2 => "avx2"
  | neon => "neon"

instance : ToString Tier := ⟨name⟩

/-- The tier that a folded word names. -/
def ofWord? (word : String) : Option Tier :=
  if word = "portable" ∨ word = "none" then some portable
  else if word = "sse2" then some sse2
  else if word = "sse41" ∨ word = "sse4.1" then some sse41
  else if word = "avx2" then some avx2
  else if word = "neon" then some neon
  else none

/-- The tier that a text names, blanks around it and casing apart. -/
def ofText? (text : String) : Option Tier := ofWord? (Text.normal text)

/-- What is said of a text that names no tier. -/
def unknown (text : String) : String := s!"Unknown acceleration tier \x60{text}\x60"

theorem ofText?_name (t : Tier) : ofText? t.name = some t := by
  cases t <;> decide +kernel

end Tier
end FrameConvert
