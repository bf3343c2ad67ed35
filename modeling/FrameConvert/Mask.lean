/-
# Which tiers a machine has

A mask is a set of accelerated tiers.  `portable` is not a member and cannot be
removed: it is always there.  Masks start from `none` or from `detected` and only
ever lose tiers:

| operation | keeps |
| --- | --- |
| `m.upTo t` | the tiers of `m` not above `t` |
| `m.without t` | the tiers of `m` other than `t` |

The text of a mask is `portable` followed by `+` and the name of each of its
tiers, ascending.
-/

import FrameConvert.Tier

namespace FrameConvert

/-- A set of accelerated tiers. -/
structure Mask where
  sse2 : Bool
  sse41 : Bool
  avx2 : Bool
  neon : Bool
  deriving DecidableEq, Repr

namespace Mask

/-- No accelerated tier. -/
def none : Mask := ⟨false, false, false, false⟩

/-- The tiers of the machine that kernels are built for here: `sse2`, `sse41` and
`avx2`. -/
def detected : Mask := ⟨true, true, true, false⟩

/-- Whether kernels of a tier can run; portable ones always can. -/
def contains (m : Mask) : Tier → Bool
  | .portable => true
  | .sse2 => m.sse2
  | .sse41 => m.sse41
  | .avx2 => m.avx2
  | .neon => m.neon

/-- The tiers of `m` that pass a test. -/
def filter (m : Mask) (keep : Tier → Bool) : Mask :=
  ⟨m.sse2 && keep .sse2, m.sse41 && keep .sse41, m.avx2 && keep .avx2, m.neon && keep .neon⟩

/-- Without the tiers above `t`. -/
def upTo (m : Mask) (t : Tier) : Mask := m.filter fun s => decide (s.rank ≤ t.rank)

/-- Without the tier `t`; `portable` stays. -/
def without (m : Mask) (t : Tier) : Mask := m.filter fun s => decide (s ≠ t)

/-- The accelerated tiers of a mask, ascending. -/
def tiers (m : Mask) : List Tier := Tier.accelerated.filter m.contains

/-- Whether a mask has no accelerated tier. -/
def isEmpty (m : Mask) : Bool := m == none

/-- The highest tier of a mask. -/
def best (m : Mask) : Tier := m.tiers.getLastD .portable

/-- The text of a mask. -/
def text (m : Mask) : String := "+".intercalate (Tier.portable.name :: m.tiers.map Tier.name)

instance : ToString Mask := ⟨text⟩

/-- A step that narrows a mask. -/
inductive Narrowing
  | upTo (tier : Tier)
  | without (tier : Tier)
  deriving DecidableEq, Repr

/-- A mask after one step. -/
def narrow (m : Mask) : Narrowing → Mask
  | .upTo t => m.upTo t
  | .without t => m.without t

/-- A mask after all steps, in order. -/
def narrowAll (m : Mask) (steps : List Narrowing) : Mask := steps.foldl narrow m

theorem contains_filter (m : Mask) (keep : Tier → Bool) {t : Tier} (h : t ≠ .portable) :
    (m.filter keep).contains t = (m.contains t && keep t) := by
  cases t <;> first | rfl | exact absurd rfl h

theorem mem_tiers {m : Mask} {t : Tier} :
    t ∈ m.tiers ↔ t ≠ .portable ∧ m.contains t := by
  cases t <;> simp [tiers, Tier.accelerated]

end Mask
end FrameConvert
