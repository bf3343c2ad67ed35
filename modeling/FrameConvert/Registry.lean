/-
# The registry

A registry has at most one kernel for each ordered pair of formats, and keeps them
in ascending order of the pairs.  `register` puts a kernel in the place of the one
that the pair had and hands that one back; every other pair is left alone:

| after `r.register k` | is |
| --- | --- |
| the kernel of `k`'s pair | `k` (`lookup_register`) |
| the kernel of any other pair | that of `r` (`lookup_register`) |
| the kernel handed back | that of `k`'s pair in `r` (`displaced_register`) |
-/

import FrameConvert.Kernel

namespace FrameConvert

/-- Kernels in ascending order of their pairs. -/
structure Registry where
  kernels : List Kernel
  ascending : kernels.Pairwise fun k m => k.key < m.key

/-- A registry and the kernel that the last change displaced. -/
structure Registered where
  registry : Registry
  displaced? : Option Kernel

namespace Registry

/-- No kernel. -/
def empty : Registry := ⟨[], .nil⟩

/-- The kernels with one put in its place, and the one that was there. -/
def insert (k : Kernel) : List Kernel → List Kernel × Option Kernel
  | [] => ([k], none)
  | m :: ms =>
    if k.key < m.key then (k :: m :: ms, none)
    else if k.key = m.key then (k :: ms, some m)
    else
      let (rest, displaced) := insert k ms
      (m :: rest, displaced)

/-- The kernels afterwards are the one put in and those that were there before. -/
theorem mem_insert {k x : Kernel} {ms : List Kernel} (h : x ∈ (insert k ms).1) :
    x = k ∨ x ∈ ms := by
  induction ms with
  | nil => exact .inl (by simpa [insert] using h)
  | cons m ms ih =>
    rw [insert] at h
    split at h
    · simpa using h
    · split at h
      · rcases List.mem_cons.1 h with h | h
        · exact .inl h
        · exact .inr (List.mem_cons_of_mem _ h)
      · rcases List.mem_cons.1 h with h | h
        · exact .inr (h ▸ List.mem_cons_self)
        · exact (ih h).imp_right (List.mem_cons_of_mem _)

theorem insert_ascending {k : Kernel} {ms : List Kernel}
    (h : ms.Pairwise fun k m => k.key < m.key) :
    (insert k ms).1.Pairwise fun k m => k.key < m.key := by
  induction ms with
  | nil => exact List.pairwise_singleton _ _
  | cons m ms ih =>
    obtain ⟨hm, hms⟩ := List.pairwise_cons.1 h
    rw [insert]
    split
    · rename_i hk
      refine List.pairwise_cons.2 ⟨fun x hx => ?_, h⟩
      rcases List.mem_cons.1 hx with rfl | hx
      · exact hk
      · exact Nat.lt_trans hk (hm x hx)
    · split
      · rename_i hk
        exact List.pairwise_cons.2 ⟨fun x hx => by rw [hk]; exact hm x hx, hms⟩
      · refine List.pairwise_cons.2 ⟨fun x hx => ?_, ih hms⟩
        rcases mem_insert hx with rfl | hx
        · omega
        · exact hm x hx

/-- A kernel registered for its pair. -/
def register (r : Registry) (k : Kernel) : Registered :=
  ⟨⟨(insert k r.kernels).1, insert_ascending r.ascending⟩, (insert k r.kernels).2⟩

/-- The kernel of a pair. -/
def lookup (r : Registry) (a b : Format) : Option Kernel :=
  r.kernels.find? fun k => k.key == Kernel.keyOf a b

/-- How many pairs have a kernel. -/
def length (r : Registry) : Nat := r.kernels.length

/-- Whether no pair has a kernel. -/
def isEmpty (r : Registry) : Bool := r.kernels.isEmpty

/-- The pairs that have a kernel, in order. -/
def pairs (r : Registry) : List (Format × Format) := r.kernels.map fun k => (k.source, k.target)

theorem find?_insert (k : Kernel) (ms : List Kernel) (key : Nat) :
    (insert k ms).1.find? (fun m => m.key == key) =
      if k.key = key then some k else ms.find? fun m => m.key == key := by
  induction ms with
  | nil => by_cases h : k.key = key <;> simp [insert, h]
  | cons m ms ih =>
    rw [insert]
    split
    · by_cases h : k.key = key <;> simp [h]
    · split
      · rename_i hk
        by_cases h : k.key = key
        · simp [h]
        · simp [h, show m.key ≠ key from fun e => h (hk.trans e)]
      · rename_i hk
        by_cases h : m.key = key
        · simp [h, show k.key ≠ key from fun e => hk (e.trans h.symm)]
        · simp [h, ih]

/-- **A registered kernel serves its pair, and no other pair is touched.** -/
theorem lookup_register (r : Registry) (k : Kernel) (a b : Format) :
    (r.register k).registry.lookup a b =
      if a = k.source ∧ b = k.target then some k else r.lookup a b := by
  rw [lookup, register, find?_insert, ← lookup]
  have : k.key = Kernel.keyOf a b ↔ a = k.source ∧ b = k.target := by
    refine ⟨fun h => Kernel.keyOf_injective h.symm, fun h => ?_⟩
    rw [Kernel.key, h.1, h.2]
  simp only [this]

/-- **What is handed back is the kernel that the pair had.** -/
theorem displaced_register (r : Registry) (k : Kernel) :
    (r.register k).displaced? = r.lookup k.source k.target := by
  obtain ⟨ms, h⟩ := r
  change (insert k ms).2 = ms.find? fun m => m.key == k.key
  induction ms with
  | nil => rfl
  | cons m ms ih =>
    obtain ⟨hm, hms⟩ := List.pairwise_cons.1 h
    rw [insert]
    split
    · rename_i hk
      refine (List.find?_eq_none.2 fun x hx => ?_).symm
      rw [beq_iff_eq]
      rcases List.mem_cons.1 hx with rfl | hx
      · omega
      · have := hm x hx
        omega
    · split
      · rename_i hk
        simp [hk]
      · rename_i hk
        simp [show m.key ≠ k.key from fun e => hk e.symm, ih hms]

end Registry
end FrameConvert
