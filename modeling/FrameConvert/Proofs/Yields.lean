/-
# Computations that go through

`Yields x P` says that `x` ends without a fault and that its value has `P`; a
statement about a computation that may be wrong is put in this form, so that going
through is part of it and never assumed.  There is one rule for each way of
putting computations together: a value (`yields_pure`), one after another
(`Yields.bind`, and `yields_bind_ok` where the first value is known), and a loop
(`yields_sweep`).
-/

import FrameConvert.Checked

namespace FrameConvert

variable {ε α β : Type}

/-- `x` goes through, and its value has `P`. -/
def Yields (x : Except ε α) (P : α → Prop) : Prop := ∃ a, x = .ok a ∧ P a

theorem yields_ok {a : α} {P : α → Prop} (h : P a) : Yields (.ok a : Except ε α) P :=
  ⟨a, rfl, h⟩

theorem yields_pure {a : α} {P : α → Prop} (h : P a) : Yields (pure a : Except ε α) P :=
  ⟨a, rfl, h⟩

theorem yields_of_eq_ok {x : Except ε α} {a : α} {P : α → Prop} (hx : x = .ok a) (h : P a) :
    Yields x P :=
  ⟨a, hx, h⟩

theorem Yields.mono {x : Except ε α} {P Q : α → Prop} (hx : Yields x P) (h : ∀ a, P a → Q a) :
    Yields x Q := by
  obtain ⟨a, ha, hP⟩ := hx
  exact ⟨a, ha, h a hP⟩

/-- **One after another:** what the first yields is enough for the second. -/
theorem Yields.bind {x : Except ε α} {f : α → Except ε β} {P : α → Prop} {Q : β → Prop}
    (hx : Yields x P) (hf : ∀ a, P a → Yields (f a) Q) : Yields (x >>= f) Q := by
  obtain ⟨a, rfl, hP⟩ := hx
  exact hf a hP

/-- What went through did so one after another. -/
theorem exists_of_bind_eq_ok {x : Except ε α} {f : α → Except ε β} {b : β}
    (h : (x >>= f) = .ok b) : ∃ a, x = .ok a ∧ f a = .ok b := by
  cases x with
  | error e => cases h
  | ok a => exact ⟨a, rfl, h⟩

/-- A first computation whose value is known. -/
theorem yields_bind_ok {x : Except ε α} {a : α} {f : α → Except ε β} {Q : β → Prop}
    (hx : x = .ok a) (hf : Yields (f a) Q) : Yields (x >>= f) Q := by
  rw [bind_eq_of_ok hx]
  exact hf

/-- **A loop:** an invariant that every step keeps is yielded at the end. -/
theorem yields_sweep {σ : Type} {n : Nat} {f : Nat → σ → Checked σ} {s : σ}
    (P : Nat → σ → Prop) (h : P 0 s)
    (hf : ∀ i t, i < n → P i t → Yields (f i t) (P (i + 1))) : Yields (sweep n f s) (P n) :=
  sweep_induction P h hf

end FrameConvert
