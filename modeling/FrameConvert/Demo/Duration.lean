/-
# The text of a duration

A duration is a number of nanoseconds.  Its text is in the largest unit that it
fills, with as many decimals as are needed and no more:

| from | unit | decimals at most |
| --- | --- | ---: |
| `10 ^ 9` | `s` | 9 |
| `10 ^ 6` | `ms` | 6 |
| `10 ^ 3` | `µs` | 3 |
| `0` | `ns` | 0 |
-/

namespace FrameConvert
namespace Demo
namespace Duration

/-- A unit, in nanoseconds; its number of zeros is the number of decimals. -/
structure TimeUnit where
  nanoseconds : Nat
  decimals : Nat
  name : String

/-- The smallest unit. -/
def nanosecond : TimeUnit := ⟨1, 0, "ns"⟩

/-- The units, the largest first. -/
def units : List TimeUnit :=
  [⟨1000000000, 9, "s"⟩, ⟨1000000, 6, "ms"⟩, ⟨1000, 3, "µs"⟩, nanosecond]

/-- The digits of `n` with zeros in front, up to `width` of them. -/
def digits (width n : Nat) : List Char :=
  let ds := (toString n).toList
  List.replicate (width - ds.length) '0' ++ ds

/-- What stands behind the whole part: a point and the decimals up to the last that is
not zero, or nothing. -/
def fraction (decimals n : Nat) : List Char :=
  if n = 0 then []
  else '.' :: ((digits decimals n).reverse.dropWhile (· == '0')).reverse

/-- A duration in a unit. -/
def inUnit (u : TimeUnit) (ns : Nat) : String :=
  String.ofList ((toString (ns / u.nanoseconds)).toList ++
    fraction u.decimals (ns % u.nanoseconds)) ++ u.name

/-- The text of a duration. -/
def text (ns : Nat) : String :=
  match units.find? fun u => u.nanoseconds ≤ ns with
  | some u => inUnit u ns
  | none => inUnit nanosecond ns

end Duration
end Demo
end FrameConvert
