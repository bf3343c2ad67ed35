/-
# Planes of bytes

A plane is a row of bytes; a frame is a list of planes.  Every access names the
bytes it wants, and one that leaves the plane is a fault:

| operation | touches |
| --- | --- |
| `p.read i` | byte `i` |
| `p.slice o n` | bytes `o`, …, `o + n - 1` |
| `p.row y n` | row `y`, where every row has `n` bytes |
| `p.write i b`, `p.writeAll o bs` | byte `i`; bytes `o`, …, `o + bs.length - 1` |
| `p.copy src n`, `p.fill n b` | the first `n` bytes, from `src` or all equal |

`p.byte i` is the view the lemmas speak in: byte `i`, or `0` behind the end.  Two
planes of one size with the same bytes are equal (`ext_byte`), and each operation
has one lemma: it goes through when the bytes exist, and its result is this size
with these bytes.
-/

import FrameConvert.Checked

namespace FrameConvert

/-- A row of bytes. -/
abbrev Plane := Array UInt8

namespace Plane

/-- Byte `i`; `0` behind the end. -/
def byte (p : Plane) (i : Nat) : UInt8 := p.getD i 0

/-- Byte `i`. -/
def read (p : Plane) (i : Nat) : Checked UInt8 :=
  if h : i < p.size then .ok p[i] else .error .outside

/-- Bytes `o`, …, `o + n - 1`. -/
def slice (p : Plane) (o n : Nat) : Checked Plane :=
  if o + n ≤ p.size then .ok (p.extract o (o + n)) else .error .outside

/-- Row `y`, where every row has `n` bytes. -/
def row (p : Plane) (y n : Nat) : Checked Plane := do
  let o ← size (y * n)
  let _ ← size ((y + 1) * n)
  p.slice o n

/-- Byte `i` becomes `b`. -/
def write (p : Plane) (i : Nat) (b : UInt8) : Checked Plane :=
  if h : i < p.size then .ok (p.set i b h) else .error .outside

/-- Bytes `o`, `o + 1`, … become `bs`. -/
def writeAll (p : Plane) (o : Nat) : List UInt8 → Checked Plane
  | [] => .ok p
  | b :: bs =>
    match p.write o b with
    | .ok q => writeAll q (o + 1) bs
    | .error e => .error e

/-- The first `n` bytes become those of `src`. -/
def copy (p src : Plane) (n : Nat) : Checked Plane :=
  if n ≤ src.size ∧ n ≤ p.size then .ok (src.extract 0 n ++ p.extract n p.size)
  else .error .outside

/-- The first `n` bytes become `b`. -/
def fill (p : Plane) (n : Nat) (b : UInt8) : Checked Plane :=
  if n ≤ p.size then .ok (Array.replicate n b ++ p.extract n p.size) else .error .outside

theorem byte_eq_getElem {p : Plane} {i : Nat} (h : i < p.size) : p.byte i = p[i] := by
  simp [byte, h]

theorem byte_of_size_le {p : Plane} {i : Nat} (h : p.size ≤ i) : p.byte i = 0 := by
  simp [byte, h]

/-- Planes of one size with the same bytes are equal. -/
theorem ext_byte {p q : Plane} (hs : p.size = q.size) (hb : ∀ i < p.size, p.byte i = q.byte i) :
    p = q := by
  refine Array.ext hs fun i h₁ h₂ => ?_
  rw [← byte_eq_getElem h₁, ← byte_eq_getElem h₂]
  exact hb i h₁

theorem read_eq_ok {p : Plane} {i : Nat} (h : i < p.size) : p.read i = .ok (p.byte i) := by
  simp [read, byte, h]

theorem write_eq_ok {p : Plane} {i : Nat} {b : UInt8} (h : i < p.size) :
    ∃ q : Plane, p.write i b = .ok q ∧ q.size = p.size ∧
      ∀ j, q.byte j = if j = i then b else p.byte j := by
  refine ⟨p.set i b h, by simp [write, h], by simp, fun j => ?_⟩
  by_cases hj : j < p.size
  · rw [byte_eq_getElem (by simpa using hj), byte_eq_getElem hj, Array.getElem_set]
    by_cases hij : i = j
    · simp [hij]
    · simp [hij, Ne.symm hij]
  · rw [byte_of_size_le (by simpa using hj), byte_of_size_le (by simpa using hj),
      if_neg (by omega)]

theorem writeAll_eq_ok {bs : List UInt8} : ∀ {p : Plane} {o : Nat}, o + bs.length ≤ p.size →
    ∃ q : Plane, p.writeAll o bs = .ok q ∧ q.size = p.size ∧
      ∀ j, q.byte j = if o ≤ j ∧ j < o + bs.length then bs.getD (j - o) 0 else p.byte j := by
  induction bs with
  | nil => exact fun {p o} _ => ⟨p, rfl, rfl, fun j => by rw [if_neg (by simp)]⟩
  | cons b bs ih =>
    intro p o h
    simp only [List.length_cons] at h
    obtain ⟨q, hq, hqs, hqb⟩ := write_eq_ok (p := p) (i := o) (b := b) (by omega)
    obtain ⟨r, hr, hrs, hrb⟩ := ih (p := q) (o := o + 1) (by omega)
    refine ⟨r, by simp only [writeAll, hq, hr], by rw [hrs, hqs], fun j => ?_⟩
    rw [hrb, hqb]
    simp only [List.length_cons]
    by_cases hj : j = o
    · subst hj
      rw [if_neg (by omega), if_pos rfl, if_pos (by omega), Nat.sub_self]
      rfl
    · by_cases hj' : o + 1 ≤ j ∧ j < o + 1 + bs.length
      · rw [if_pos hj', if_pos (by omega), show j - o = (j - (o + 1)) + 1 by omega]
        rfl
      · rw [if_neg hj', if_neg hj, if_neg (by omega)]

theorem slice_eq_ok {p : Plane} {o n : Nat} (h : o + n ≤ p.size) :
    ∃ q : Plane, p.slice o n = .ok q ∧ q.size = n ∧ ∀ j < n, q.byte j = p.byte (o + j) := by
  refine ⟨p.extract o (o + n), by simp [slice, h], by simp; omega, fun j hj => ?_⟩
  rw [byte_eq_getElem (by simp; omega), byte_eq_getElem (by omega)]
  simp

theorem row_eq_ok {p : Plane} {y n : Nat} (h : (y + 1) * n ≤ p.size)
    (hw : (y + 1) * n < 0x10000000000000000) :
    ∃ q : Plane, p.row y n = .ok q ∧ q.size = n ∧ ∀ j < n, q.byte j = p.byte (y * n + j) := by
  have hy : (y + 1) * n = y * n + n := Nat.succ_mul y n
  obtain ⟨q, hq, hqs, hqb⟩ := slice_eq_ok (p := p) (o := y * n) (n := n) (by omega)
  refine ⟨q, ?_, hqs, hqb⟩
  rw [row, bind_eq_of_ok (size_eq_ok (by omega)), bind_eq_of_ok (size_eq_ok hw), hq]

theorem copy_eq_ok {p src : Plane} {n : Nat} (hs : n ≤ src.size) (hp : n ≤ p.size) :
    ∃ q : Plane, p.copy src n = .ok q ∧ q.size = p.size ∧
      ∀ j, q.byte j = if j < n then src.byte j else p.byte j := by
  refine ⟨_, if_pos ⟨hs, hp⟩, by simp; omega, fun j => ?_⟩
  by_cases hj : j < n
  · rw [if_pos hj, byte_eq_getElem (by simp; omega), byte_eq_getElem (by omega),
      Array.getElem_append_left (by simp; omega)]
    simp
  · by_cases hj' : j < p.size
    · rw [if_neg hj, byte_eq_getElem (by simp; omega), byte_eq_getElem hj',
        Array.getElem_append_right (by simp; omega)]
      simp only [Array.getElem_extract, Array.size_extract]
      congr 1
      omega
    · rw [if_neg hj, byte_of_size_le (by simp; omega), byte_of_size_le (by omega)]

theorem fill_eq_ok {p : Plane} {n : Nat} {b : UInt8} (hp : n ≤ p.size) :
    ∃ q : Plane, p.fill n b = .ok q ∧ q.size = p.size ∧
      ∀ j, q.byte j = if j < n then b else p.byte j := by
  refine ⟨_, if_pos hp, by simp; omega, fun j => ?_⟩
  by_cases hj : j < n
  · rw [if_pos hj, byte_eq_getElem (by simp; omega), Array.getElem_append_left (by simpa using hj)]
    simp
  · by_cases hj' : j < p.size
    · rw [if_neg hj, byte_eq_getElem (by simp; omega), byte_eq_getElem hj',
        Array.getElem_append_right (by simp; omega)]
      simp only [Array.getElem_extract, Array.size_replicate]
      congr 1
      omega
    · rw [if_neg hj, byte_of_size_le (by simp; omega), byte_of_size_le (by omega)]

end Plane

/-- The first `n` bytes of a plane reworked by `f`. -/
def onFront (n : Nat) (f : Plane → Checked Plane) (p : Plane) : Checked Plane := do
  p.copy (← f (← p.slice 0 n)) n

/-- Plane `i` of a frame. -/
def planeOf (planes : List Plane) (i : Nat) : Checked Plane :=
  match planes[i]? with
  | some p => .ok p
  | none => .error .outside

/-- Plane `i` of a frame is reworked by `f`; the others stay. -/
def onPlane (planes : List Plane) (i : Nat) (f : Plane → Checked Plane) :
    Checked (List Plane) := do
  let p ← planeOf planes i
  return planes.set i (← f p)

theorem planeOf_eq_ok {planes : List Plane} {i : Nat} {p : Plane} (h : planes[i]? = some p) :
    planeOf planes i = .ok p := by
  simp [planeOf, h]

theorem onPlane_eq_ok {planes : List Plane} {i : Nat} {f : Plane → Checked Plane} {p q : Plane}
    (h : planes[i]? = some p) (hf : f p = .ok q) :
    onPlane planes i f = .ok (planes.set i q) := by
  simp [onPlane, planeOf_eq_ok h, hf, bind, Except.bind, pure, Except.pure]

end FrameConvert
