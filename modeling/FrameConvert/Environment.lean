/-
# Overrides from the environment

Two variables narrow the detected tiers:

| variable | value | effect |
| --- | --- | --- |
| `IMGCONVERT_DISABLE_ACCEL` | `1`, `true`, `yes`, `on` | no accelerated tier |
| `IMGCONVERT_MAX_TIER` | a tier | no tier above it |

The first wins over the second.  Values are compared trimmed and folded; a blank
value counts as unset, and one that names no tier is ignored with a warning.
-/

import FrameConvert.Mask

namespace FrameConvert

/-- How much a log line matters. -/
inductive Level
  | trace | debug | info | warn
  deriving DecidableEq, Repr

namespace Level

/-- The name of a level. -/
def name : Level → String
  | trace => "trace"
  | debug => "debug"
  | info => "info"
  | warn => "warn"

end Level

/-- A line of the log. -/
structure LogLine where
  level : Level
  text : String
  deriving DecidableEq, Repr

/-- The two variables, where they are set. -/
structure Environment where
  disable : Option String
  maxTier : Option String

namespace Environment

/-- Neither variable set. -/
def empty : Environment := ⟨none, none⟩

/-- The name of the variable that turns acceleration off. -/
def disableName : String := "IMGCONVERT_DISABLE_ACCEL"

/-- The name of the variable that bounds the tiers. -/
def maxTierName : String := "IMGCONVERT_MAX_TIER"

/-- Whether a value means yes. -/
def isTruthy (value : String) : Bool :=
  ["1", "true", "yes", "on"].contains (Text.normal value)

/-- Whether acceleration is turned off. -/
def disabled (e : Environment) : Bool := e.disable.any isTruthy

/-- The bound as it is compared: trimmed, folded, and none if blank. -/
def bound? (e : Environment) : Option String :=
  (e.maxTier.map Text.normal).filter (· ≠ "")

/-- A mask and what was logged on the way to it. -/
structure Probed where
  mask : Mask
  log : List LogLine

/-- The tiers left of `m`, and why. -/
def narrow (e : Environment) (m : Mask) : Probed :=
  if e.disabled then
    ⟨Mask.none, [⟨.info, s!"{disableName} is set, using portable kernels only"⟩]⟩
  else
    match e.bound? with
    | none => ⟨m, []⟩
    | some word =>
      match Tier.ofText? word with
      | some t =>
        ⟨m.upTo t,
          [⟨.info, s!"{maxTierName}={t} narrows capabilities from {m} to {m.upTo t}"⟩]⟩
      | none => ⟨m, [⟨.warn, s!"Ignoring {maxTierName}: {Tier.unknown word}"⟩]⟩

/-- The tiers that kernels are chosen from. -/
def probe (e : Environment) : Probed := e.narrow Mask.detected

end Environment
end FrameConvert
