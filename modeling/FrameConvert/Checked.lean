/-
# Numbers that stay in range, and loops over them

A conversion computes with machine numbers: sizes and offsets are unsigned 64-bit
words, sums of samples unsigned 32-bit words, sums of colour products signed
32-bit words.  Leaving such a range, touching a byte outside its plane and
dividing by zero are *faults*.  A fault is never an answer about the input; it
says that a computation was wrong for it.

| guard | keeps | otherwise |
| --- | --- | --- |
| `size n` | `n < 2 ^ 64` | `overflow` |
| `total n` | `n < 2 ^ 32` | `overflow` |
| `signed n` | `-2 ^ 31 ≤ n < 2 ^ 31` | `overflow` |
| `quotient a b` | `b ≠ 0`, the quotient `a / b` | `zeroDivisor` |
| `chunk n` | `n ≠ 0`, the length of the chunks something is cut into | `zeroDivisor` |

A guard stands around a whole sum of products of naturals: where all factors are
positive such an expression is at least as large as each of its parts.

`sweep n f s` runs `f 0`, …, `f (n - 1)` in turn.  `sweep_induction` is the rule
for it: an invariant that each step keeps without a fault holds at the end, and
the sweep has no fault either.
-/

namespace FrameConvert

/-- Why a computation is wrong. -/
inductive Fault
  /-- a number left the range of its machine word -/
  | overflow
  /-- a byte or a plane that does not exist was asked for -/
  | outside
  /-- division by zero, or a cut into chunks of no bytes -/
  | zeroDivisor
  deriving DecidableEq, Repr

/-- A computation that may be wrong. -/
abbrev Checked := Except Fault

/-- A size or an offset: an unsigned 64-bit word. -/
def size (n : Nat) : Checked Nat :=
  if n < 0x10000000000000000 then .ok n else .error .overflow

/-- A sum of samples: an unsigned 32-bit word. -/
def total (n : Nat) : Checked Nat :=
  if n < 0x100000000 then .ok n else .error .overflow

/-- A sum of colour products: a signed 32-bit word. -/
def signed (n : Int) : Checked Int :=
  if -0x80000000 ≤ n ∧ n < 0x80000000 then .ok n else .error .overflow

/-- `a / b`, rounded down. -/
def quotient (a b : Nat) : Checked Nat :=
  if b = 0 then .error .zeroDivisor else .ok (a / b)

/-- The length of the chunks that something is cut into. -/
def chunk (n : Nat) : Checked Nat :=
  if n = 0 then .error .zeroDivisor else .ok n

theorem size_eq_ok {n : Nat} (h : n < 0x10000000000000000) : size n = .ok n := if_pos h

theorem total_eq_ok {n : Nat} (h : n < 0x100000000) : total n = .ok n := if_pos h

theorem signed_eq_ok {n : Int} (h : -0x80000000 ≤ n ∧ n < 0x80000000) : signed n = .ok n :=
  if_pos h

theorem quotient_eq_ok {a b : Nat} (h : b ≠ 0) : quotient a b = .ok (a / b) :=
  if_neg h

theorem chunk_eq_ok {n : Nat} (h : n ≠ 0) : chunk n = .ok n :=
  if_neg h

/-- A step that goes through hands its value on. -/
theorem bind_eq_of_ok {ε α β : Type} {x : Except ε α} {a : α} {f : α → Except ε β}
    (h : x = .ok a) : (x >>= f) = f a := by
  rw [h]
  rfl

section Sweep

variable {σ : Type}

/-- `f i`, `f (i + 1)`, … for `n` steps, each on what the one before left. -/
def sweepFrom (f : Nat → σ → Checked σ) : (n i : Nat) → σ → Checked σ
  | 0, _, s => .ok s
  | n + 1, i, s =>
    match f i s with
    | .ok t => sweepFrom f n (i + 1) t
    | .error e => .error e

/-- `f 0`, …, `f (n - 1)` in turn, each on what the one before left; the first
fault ends it. -/
def sweep (n : Nat) (f : Nat → σ → Checked σ) (s : σ) : Checked σ :=
  sweepFrom f n 0 s

theorem sweepFrom_induction {f : Nat → σ → Checked σ} (P : Nat → σ → Prop) (n : Nat) :
    ∀ (i : Nat) (s : σ), P i s →
      (∀ j t, i ≤ j → j < i + n → P j t → ∃ u, f j t = .ok u ∧ P (j + 1) u) →
      ∃ u, sweepFrom f n i s = .ok u ∧ P (i + n) u := by
  induction n with
  | zero => exact fun i s h _ => ⟨s, rfl, h⟩
  | succ n ih =>
    intro i s h hf
    obtain ⟨t, ht, hP⟩ := hf i s (Nat.le_refl i) (by omega) h
    obtain ⟨u, hu, hQ⟩ := ih (i + 1) t hP fun j t hij hj => hf j t (by omega) (by omega)
    refine ⟨u, ?_, ?_⟩
    · simp only [sweepFrom, ht, hu]
    · rwa [Nat.add_assoc, Nat.add_comm 1 n] at hQ

/-- **A kept invariant holds at the end.**  If `P` holds at the start and each of
the `n` steps goes through without a fault and carries `P` on, the sweep goes
through and ends in a state with `P n`. -/
theorem sweep_induction {n : Nat} {f : Nat → σ → Checked σ} {s : σ} (P : Nat → σ → Prop)
    (h : P 0 s) (hf : ∀ j t, j < n → P j t → ∃ u, f j t = .ok u ∧ P (j + 1) u) :
    ∃ u, sweep n f s = .ok u ∧ P n u := by
  obtain ⟨u, hu, hP⟩ := sweepFrom_induction P n 0 s h fun j t _ hj => hf j t (by omega)
  exact ⟨u, hu, by rwa [Nat.zero_add] at hP⟩

end Sweep

end FrameConvert
