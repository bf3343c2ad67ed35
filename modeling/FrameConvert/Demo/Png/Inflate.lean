/-
# Unpacking compressed bytes

A compressed stream is a run of bits, the low bit of each byte first, cut into
blocks:

| kind | block |
| ---: | --- |
| 0 | up to `2 ^ 16 - 1` bytes as they are, from the next whole byte on |
| 1 | symbols in the fixed codes |
| 2 | symbols in codes that the block describes first |

A symbol below 256 is a byte, 256 ends the block, and a higher one asks for bytes
that were written already to be written again: it gives how many, and a symbol of a
second code gives how far back they lie.

The codes are canonical: words are assigned in order of length, and among words of
one length in order of the symbols, so the lengths alone describe a code.

Every symbol takes at least one bit, so the number of bits bounds the number of
symbols, and of blocks.
-/

import FrameConvert.Demo.Png.Checksum

namespace FrameConvert
namespace Demo
namespace Png

/-- Reads from a run of bits, at a position. -/
abbrev BitReader := ReaderT Plane (StateT Nat Option)

namespace BitReader

/-- The next bit. -/
def bit : BitReader Nat := do
  let bytes ← read
  let i ← get
  if i < 8 * bytes.size then
    set (i + 1)
    return (bytes.byte (i / 8)).toNat >>> (i % 8) % 2
  else failure

/-- A number of `n` bits, the low one first. -/
def number : Nat → BitReader Nat
  | 0 => return 0
  | n + 1 => do
    let low ← bit
    return low + 2 * (← number n)

/-- To the next whole byte. -/
def align : BitReader Unit := modify fun i => (i + 7) / 8 * 8

/-- The next `n` bytes, from a whole byte on. -/
def bytes (n : Nat) : BitReader Plane := do
  let all ← read
  let o := (← get) / 8
  if o + n ≤ all.size then
    set (8 * (o + n))
    return all.extract o (o + n)
  else failure

/-- How many bits are left. -/
def left : BitReader Nat := return 8 * (← read).size - (← get)

end BitReader

/-- A canonical code: for every length from one on how many words it has, and the
symbols in the order of their words. -/
structure Code where
  counts : List Nat
  symbols : Array Nat

namespace Code

/-- The longest word. -/
def maxLength : Nat := 15

/-- The code in which symbol `i` has a word of the `i`-th length, or none for `0`.
More words than there is room for are no code. -/
def ofLengths? (lengths : List Nat) : Option Code :=
  let sizes := (List.range maxLength).map (· + 1)
  let counts := sizes.map lengths.count
  let room : Nat := (sizes.zip counts).foldl (fun s x => s + x.2 <<< (maxLength - x.1)) 0
  if room ≤ 1 <<< maxLength then
    some ⟨counts,
      (sizes.flatMap fun n => (lengths.zipIdx.filter (·.1 == n)).map (·.2)).toArray⟩
  else none

/-- Reads the symbol whose word starts with `word`: the first word of the next length
is `first`, its symbol the one at `index`. -/
def symbolFrom (symbols : Array Nat) : (counts : List Nat) → (word first index : Nat) →
    BitReader Nat
  | [], _, _, _ => failure
  | n :: ns, word, first, index => do
    let word := 2 * word + (← BitReader.bit)
    if word < first + n then
      match symbols[index + (word - first)]? with
      | some s => return s
      | none => failure
    else symbolFrom symbols ns word (2 * (first + n)) (index + n)

/-- Reads a symbol. -/
def symbol (c : Code) : BitReader Nat := symbolFrom c.symbols c.counts 0 0 0

end Code

/-- The codes of a block: for bytes and lengths, and for distances. -/
structure Codes where
  main : Code
  distance : Code

/-- The lengths of words in the fixed codes. -/
def fixedLengths : List Nat :=
  List.replicate 144 8 ++ List.replicate 112 9 ++ List.replicate 24 7 ++ List.replicate 8 8

/-- The fixed codes. -/
def fixedCodes? : Option Codes := do
  return ⟨← Code.ofLengths? fixedLengths, ← Code.ofLengths? (List.replicate 30 5)⟩

/-- How many bytes to repeat, for the `k`-th of the symbols that ask for it. -/
def repeatLength (k : Nat) : BitReader Nat :=
  if k < 8 then return k + 3
  else if k = 28 then return 258
  else if k < 28 then do
    let extra := k / 4 - 1
    return (4 + k % 4) <<< extra + 3 + (← BitReader.number extra)
  else failure

/-- How far back they lie, for the `k`-th distance. -/
def repeatDistance (k : Nat) : BitReader Nat :=
  if k < 4 then return k + 1
  else if k < 30 then do
    let extra := k / 2 - 1
    return (2 + k % 2) <<< extra + 1 + (← BitReader.number extra)
  else failure

/-- With `n` more bytes, each equal to the one `d` before it. -/
def repeatBytes (d : Nat) : (n : Nat) → Plane → Plane
  | 0, out => out
  | n + 1, out => repeatBytes d n (out.push (out.byte (out.size - d)))

/-- The symbols of a block, as bytes behind those of `out`; at most `n` of them. -/
def symbols (c : Codes) : (n : Nat) → Plane → BitReader Plane
  | 0, _ => failure
  | n + 1, out => do
    let s ← c.main.symbol
    if s < 256 then symbols c n (out.push (UInt8.ofNat s))
    else if s = 256 then return out
    else
      let length ← repeatLength (s - 257)
      let distance ← repeatDistance (← c.distance.symbol)
      if out.size < distance then failure
      else symbols c n (repeatBytes distance length out)

/-- The bytes of a block that are as they are. -/
def stored : BitReader Plane := do
  BitReader.align
  let length ← BitReader.number 16
  let complement ← BitReader.number 16
  if length + complement = 0xFFFF then BitReader.bytes length else failure

/-- The order in which a block gives the lengths of the words for lengths. -/
def lengthOrder : List Nat := [16, 17, 18, 0, 8, 7, 9, 6, 10, 5, 11, 4, 12, 3, 13, 2, 14, 1, 15]

/-- Lengths behind those of `done`, until there are `n`; a symbol above 15 repeats a
length. -/
def lengthsFrom (c : Code) (n : Nat) : (fuel : Nat) → (done : Array Nat) →
    BitReader (Array Nat)
  | 0, _ => failure
  | fuel + 1, done =>
    if done.size = n then return done
    else if n < done.size then failure
    else do
      let s ← c.symbol
      if s < 16 then lengthsFrom c n fuel (done.push s)
      else if s = 16 then
        match done.back? with
        | none => failure
        | some l => lengthsFrom c n fuel (done ++ Array.replicate (3 + (← BitReader.number 2)) l)
      else if s = 17 then
        lengthsFrom c n fuel (done ++ Array.replicate (3 + (← BitReader.number 3)) 0)
      else lengthsFrom c n fuel (done ++ Array.replicate (11 + (← BitReader.number 7)) 0)

/-- The codes that a block describes. -/
def describedCodes : BitReader Codes := do
  let main := 257 + (← BitReader.number 5)
  let distance := 1 + (← BitReader.number 5)
  let given := 4 + (← BitReader.number 4)
  let lengths ← (lengthOrder.take given).mapM fun k => return (k, ← BitReader.number 3)
  let code ← Code.ofLengths? ((List.range 19).map fun k => (lengths.lookup k).getD 0)
  let all ← lengthsFrom code (main + distance) (main + distance + 1) #[]
  return ⟨← Code.ofLengths? (all.toList.take main), ← Code.ofLengths? (all.toList.drop main)⟩

/-- The bytes of a block behind those of `out`. -/
def block (kind : Nat) (out : Plane) : BitReader Plane := do
  match kind with
  | 0 => return out ++ (← stored)
  | 1 => symbols (← fixedCodes?) ((← BitReader.left) + 1) out
  | 2 =>
    let codes ← describedCodes
    symbols codes ((← BitReader.left) + 1) out
  | _ => failure

/-- The bytes of at most `n` blocks, up to the one that says it is the last. -/
def blocks : (n : Nat) → Plane → BitReader Plane
  | 0, _ => failure
  | n + 1, out => do
    let last ← BitReader.bit
    let kind ← BitReader.number 2
    let out ← block kind out
    if last = 1 then return out else blocks n out

/-- The bytes of a stream with its two bytes of heading and its checksum. -/
def stream : BitReader Plane := do
  let method ← BitReader.number 8
  let flags ← BitReader.number 8
  if method % 16 ≠ 8 ∨ (method * 256 + flags) % 31 ≠ 0 ∨ flags / 32 % 2 = 1 then failure
  let out ← blocks ((← BitReader.left) + 1) #[]
  BitReader.align
  let sum ← BitReader.bytes 4
  if sum.foldl (fun n b => n * 256 + b.toNat) 0 = adler out then return out else failure

/-- The bytes that a compressed stream stands for. -/
def inflate? (bytes : Plane) : Option Plane := (stream.run bytes).run' 0

end Png
end Demo
end FrameConvert
