/-
# The front of a plane overwritten

Every conversion writes the planes of its target from the left, without a gap and
never past the frame.  `p.Overwritten n F q` says how far it is: `q` is `p` with the
first `n` bytes replaced by `F`.  This is the invariant of all the loops:

| operation on `q` | leads from `Overwritten o` to | by |
| --- | --- | --- |
| `write o b`, where `b = F o` | `Overwritten (o + 1)` | `write` |
| `writeAll o bs`, `bs` being `F o`, `F (o + 1)`, … | `Overwritten (o + bs.length)` | `writeAll` |
| `n` steps, each over `k` bytes | `Overwritten (o + n k)` | `tiles` |

Bytes that are not overwritten yet are still those of `p` (`Overwritten.above`), which
is what makes rework in place right.
-/

import FrameConvert.Plane
import FrameConvert.Proofs.Yields

namespace FrameConvert
namespace Plane

/-- Two lists of bytes, one behind the other. -/
theorem writeAll_append (bs cs : List UInt8) : ∀ (p : Plane) (o : Nat),
    p.writeAll o (bs ++ cs) = p.writeAll o bs >>= fun q => q.writeAll (o + bs.length) cs := by
  induction bs with
  | nil => exact fun p o => rfl
  | cons b bs ih =>
    intro p o
    rw [List.cons_append, writeAll, writeAll, List.length_cons]
    cases p.write o b with
    | error e => rfl
    | ok q =>
      rw [show o + (bs.length + 1) = o + 1 + bs.length by omega]
      exact ih q (o + 1)

/-- `q` is `p` with its first `n` bytes replaced by `F`. -/
structure Overwritten (p : Plane) (n : Nat) (F : Nat → UInt8) (q : Plane) : Prop where
  size : q.size = p.size
  byte : ∀ j, q.byte j = if j < n then F j else p.byte j

namespace Overwritten

variable {p q r : Plane} {n o k : Nat} {F G : Nat → UInt8}

theorem zero (p : Plane) (F : Nat → UInt8) : p.Overwritten 0 F p :=
  ⟨rfl, fun j => by rw [if_neg (Nat.not_lt_zero j)]⟩

/-- A byte that is overwritten. -/
theorem below (h : p.Overwritten n F q) {j : Nat} (hj : j < n) : q.byte j = F j := by
  rw [h.byte, if_pos hj]

/-- A byte that is not overwritten. -/
theorem above (h : p.Overwritten n F q) {j : Nat} (hj : n ≤ j) : q.byte j = p.byte j := by
  rw [h.byte, if_neg (Nat.not_lt.2 hj)]

/-- Only the bytes of `F` that are written matter. -/
theorem congr (h : p.Overwritten n F q) (hF : ∀ j < n, F j = G j) : p.Overwritten n G q := by
  refine ⟨h.size, fun j => ?_⟩
  rw [h.byte]
  split
  · exact hF j ‹_›
  · rfl

theorem of_eq (h : p.Overwritten n F q) {m : Nat} (hm : n = m) : p.Overwritten m F q :=
  hm ▸ h

/-- **What is overwritten in the same way is the same.** -/
theorem unique (hq : p.Overwritten n F q) (hr : p.Overwritten n F r) : q = r := by
  refine ext_byte (hq.size.trans hr.size.symm) fun j _ => ?_
  rw [hq.byte, hr.byte]

/-- A list of bytes further to the left. -/
theorem writeAll {bs : List UInt8} (h : p.Overwritten o F q) (ho : o + bs.length ≤ p.size)
    (hb : ∀ i < bs.length, bs.getD i 0 = F (o + i)) :
    Yields (q.writeAll o bs) (p.Overwritten (o + bs.length) F) := by
  obtain ⟨r, hr, hrs, hrb⟩ := writeAll_eq_ok (h.size ▸ ho : o + bs.length ≤ q.size)
  refine yields_of_eq_ok hr ⟨hrs.trans h.size, fun j => ?_⟩
  rw [hrb]
  by_cases hj : o ≤ j ∧ j < o + bs.length
  · rw [if_pos hj, if_pos hj.2, hb (j - o) (by omega), Nat.add_sub_cancel' hj.1]
  · rw [if_neg hj, h.byte]
    by_cases hjo : j < o
    · rw [if_pos hjo, if_pos (by omega)]
    · rw [if_neg hjo, if_neg (by omega)]

/-- One byte further to the left. -/
theorem write {b : UInt8} (h : p.Overwritten o F q) (ho : o < p.size) (hb : b = F o) :
    Yields (q.write o b) (p.Overwritten (o + 1) F) := by
  obtain ⟨r, hr, hrs, hrb⟩ := write_eq_ok (b := b) (h.size ▸ ho : o < q.size)
  refine yields_of_eq_ok hr ⟨hrs.trans h.size, fun j => ?_⟩
  rw [hrb, h.byte]
  by_cases hj : j = o
  · rw [if_pos hj, if_pos (by omega), hb, hj]
  · rw [if_neg hj]
    by_cases hjo : j < o
    · rw [if_pos hjo, if_pos (by omega)]
    · rw [if_neg hjo, if_neg (by omega)]

/-- **A loop over tiles.**  `n` steps, each over the next `k` bytes, overwrite `n k`
bytes. -/
theorem tiles {f : Nat → Plane → Checked Plane} (h : p.Overwritten o F q)
    (hf : ∀ i q, i < n → p.Overwritten (o + i * k) F q →
      Yields (f i q) (p.Overwritten (o + i * k + k) F)) :
    Yields (sweep n f q) (p.Overwritten (o + n * k) F) := by
  refine yields_sweep (fun i q => p.Overwritten (o + i * k) F q) (h.of_eq (by omega))
    fun i t hi ht => (hf i t hi ht).mono fun r hr => hr.of_eq ?_
  rw [Nat.succ_mul, Nat.add_assoc]

/-- A loop over bytes. -/
theorem points {f : Nat → Plane → Checked Plane} (h : p.Overwritten o F q)
    (hf : ∀ i q, i < n → p.Overwritten (o + i) F q →
      Yields (f i q) (p.Overwritten (o + i + 1) F)) :
    Yields (sweep n f q) (p.Overwritten (o + n) F) :=
  yields_sweep (fun i q => p.Overwritten (o + i) F q) h hf

/-- **A loop over the tiles of the whole front.** -/
theorem tiles_zero {f : Nat → Plane → Checked Plane}
    (hf : ∀ i q, i < n → p.Overwritten (i * k) F q →
      Yields (f i q) (p.Overwritten (i * k + k) F)) :
    Yields (sweep n f p) (p.Overwritten (n * k) F) := by
  have := (zero p F).tiles (n := n) (k := k) (f := f) fun i q hi hq => by
    rw [Nat.zero_add] at hq ⊢
    exact hf i q hi hq
  rwa [Nat.zero_add] at this

end Overwritten

variable {p src : Plane} {n : Nat} {F : Nat → UInt8}

/-- The front of another plane is copied. -/
theorem yields_copy (hs : n ≤ src.size) (hp : n ≤ p.size) :
    Yields (p.copy src n) (p.Overwritten n src.byte) := by
  obtain ⟨q, hq, hqs, hqb⟩ := copy_eq_ok hs hp
  exact yields_of_eq_ok hq ⟨hqs, hqb⟩

theorem yields_fill {b : UInt8} (hp : n ≤ p.size) :
    Yields (p.fill n b) (p.Overwritten n fun _ => b) := by
  obtain ⟨q, hq, hqs, hqb⟩ := fill_eq_ok hp
  exact yields_of_eq_ok hq ⟨hqs, hqb⟩

theorem yields_slice {o : Nat} (h : o + n ≤ p.size) :
    Yields (p.slice o n) fun q => q.size = n ∧ ∀ j < n, q.byte j = p.byte (o + j) :=
  slice_eq_ok h

/-- The front of a plane. -/
theorem yields_front (h : n ≤ p.size) :
    Yields (p.slice 0 n) fun q => q.size = n ∧ ∀ j < n, q.byte j = p.byte j := by
  refine (yields_slice (o := 0) (by omega)).mono fun q hq => ⟨hq.1, fun j hj => ?_⟩
  rw [hq.2 j hj, Nat.zero_add]

theorem yields_row {y : Nat} (h : (y + 1) * n ≤ p.size) (hw : (y + 1) * n < 0x10000000000000000) :
    Yields (p.row y n) fun q => q.size = n ∧ ∀ j < n, q.byte j = p.byte (y * n + j) :=
  row_eq_ok h hw

/-- **Work on the front:** a computation that overwrites the whole front, taken as a
plane of its own, overwrites the front of the plane. -/
theorem yields_onFront {f : Plane → Checked Plane} (hn : n ≤ p.size)
    (hf : ∀ s : Plane, s.size = n → (∀ j < n, s.byte j = p.byte j) →
      Yields (f s) (s.Overwritten n F)) : Yields (onFront n f p) (p.Overwritten n F) := by
  refine (yields_front hn).bind fun s hfront => ?_
  obtain ⟨hs, hsb⟩ := hfront
  refine (hf s hs hsb).bind fun t ht => ?_
  refine (yields_copy (Nat.le_of_eq (ht.size.trans hs).symm) hn).mono fun q hq => ?_
  exact hq.congr fun j hj => ht.below hj

end Plane
end FrameConvert
