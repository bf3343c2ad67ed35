/-
# A registry is what it answers

A registry keeps its kernels in the order of their pairs, so which kernel it finds for each pair is
all there is to know of it:

| of a registry `r` | is |
| --- | --- |
| its kernels | what it finds, pair by pair (`Registry.kernels_eq`) |
| its pairs | those for which it finds a kernel, in the order of the codes (`Registry.pairs_eq`) |
| its length | how many pairs these are (`Registry.length_eq`) |
| how many kernels pass a test | for how many pairs one is found that does (`Registry.countP_eq`) |

A registry has no order of its own, and nothing of how it came about: its kernels are those that it
finds, pair by pair (`Registry.kernels_eq`).
-/

import FrameConvert.Proofs.Selection

namespace FrameConvert

/-- The order of the pairs: by the source's code, and for one source by the target's. -/
def Format.PairLt (p q : Format × Format) : Prop :=
  p.1.code < q.1.code ∨ p.1.code = q.1.code ∧ p.2.code < q.2.code

instance (p q : Format × Format) : Decidable (Format.PairLt p q) :=
  inferInstanceAs (Decidable (_ ∨ _ ∧ _))

/-- Numbers of pairs are in the order of the pairs. -/
theorem Kernel.keyOf_lt_iff {p q : Format × Format} :
    keyOf p.1 p.2 < keyOf q.1 q.2 ↔ Format.PairLt p q := by
  have hcode : ∀ f : Format, f.code < 0x10000 := by
    intro f
    cases f <;> decide
  have hp := hcode p.2
  have hq := hcode q.2
  unfold keyOf Format.PairLt
  omega

/-- The catalogue is in the order of the codes. -/
theorem Format.all_ascending : all.Pairwise fun f g => f.code < g.code := by decide

/-- And so are all pairs. -/
theorem Format.pairs_ascending : Format.pairs.Pairwise PairLt := by
  refine List.pairwise_flatMap.2 ⟨fun a _ => ?_, all_ascending.imp fun {a c} hac p hp q hq => ?_⟩
  · exact List.pairwise_map.2 (all_ascending.imp fun hbd => .inr ⟨rfl, hbd⟩)
  · obtain ⟨b, -, rfl⟩ := List.mem_map.1 hp
    obtain ⟨d, -, rfl⟩ := List.mem_map.1 hq
    exact .inl hac

namespace Registry

variable {r s : Registry} {a b : Format} {k m : Kernel}

/-- A pair has one kernel. -/
theorem eq_of_key_eq (hk : k ∈ r.kernels) (hm : m ∈ r.kernels) (h : k.key = m.key) : k = m := by
  have hnodup : (r.kernels.map Kernel.key).Nodup :=
    List.pairwise_map.2 (r.ascending.imp Nat.ne_of_lt)
  exact List.inj_on_of_nodup_map hnodup hk hm h

/-- **What is found for a pair** is the kernel that there is for it. -/
theorem lookup_eq_some_iff :
    r.lookup a b = some k ↔ k ∈ r.kernels ∧ k.source = a ∧ k.target = b := by
  constructor
  · intro hk
    have hkey := List.find?_some hk
    rw [beq_iff_eq] at hkey
    exact ⟨List.mem_of_find?_eq_some hk, Kernel.keyOf_injective hkey⟩
  · rintro ⟨hk, rfl, rfl⟩
    cases hm : r.lookup k.source k.target with
    | none =>
      refine absurd (List.find?_eq_none.1 hm k hk) ?_
      rw [beq_iff_eq, not_not, Kernel.key]
    | some m =>
      have hkey := List.find?_some hm
      rw [beq_iff_eq] at hkey
      rw [eq_of_key_eq (List.mem_of_find?_eq_some hm) hk hkey]

/-- **The kernels of a registry** are those that it finds, pair by pair. -/
theorem kernels_eq (r : Registry) :
    r.kernels = Format.pairs.filterMap fun p => r.lookup p.1 p.2 := by
  have hascending : (Format.pairs.filterMap fun p => r.lookup p.1 p.2).Pairwise
      fun k m => k.key < m.key := by
    refine Format.pairs_ascending.filterMap _ fun p q hpq k hk m hm => ?_
    obtain ⟨-, hks, hkt⟩ := lookup_eq_some_iff.1 hk
    obtain ⟨-, hms, hmt⟩ := lookup_eq_some_iff.1 hm
    rw [Kernel.key, Kernel.key, hks, hkt, hms, hmt]
    exact Kernel.keyOf_lt_iff.2 hpq
  have hmem : ∀ k, k ∈ r.kernels ↔
      k ∈ Format.pairs.filterMap fun p => r.lookup p.1 p.2 := by
    intro k
    rw [List.mem_filterMap]
    constructor
    · intro hk
      exact ⟨(k.source, k.target), Format.mem_pairs _ _, lookup_eq_some_iff.2 ⟨hk, rfl, rfl⟩⟩
    · rintro ⟨p, -, hp⟩
      exact (lookup_eq_some_iff.1 hp).1
  have : Std.Irrefl fun k m : Kernel => k.key < m.key := ⟨fun k => Nat.lt_irrefl k.key⟩
  have : Std.Antisymm fun k m : Kernel => k.key < m.key :=
    ⟨fun _ _ hkm hmk => absurd hkm (Nat.lt_asymm hmk)⟩
  exact r.ascending.eq_of_mem_iff hascending hmem

/-- **The pairs of a registry** are those for which it finds a kernel. -/
theorem pairs_eq (r : Registry) :
    r.pairs = Format.pairs.filter fun p => (r.lookup p.1 p.2).isSome := by
  rw [pairs, kernels_eq, List.map_filterMap, ← List.filterMap_eq_filter]
  refine List.filterMap_congr fun p _ => ?_
  cases hk : r.lookup p.1 p.2 with
  | none => simp [Option.guard, hk]
  | some k =>
    obtain ⟨-, hs, ht⟩ := lookup_eq_some_iff.1 hk
    simp [Option.guard, hk, hs, ht]

theorem mem_pairs : (a, b) ∈ r.pairs ↔ (r.lookup a b).isSome = true := by
  rw [pairs_eq, List.mem_filter]
  exact and_iff_right (Format.mem_pairs a b)

/-- The pairs of a registry are in order, and none is there twice. -/
theorem pairs_ascending (r : Registry) : r.pairs.Pairwise Format.PairLt := by
  rw [pairs_eq]
  exact Format.pairs_ascending.filter _

theorem nodup_pairs (r : Registry) : r.pairs.Nodup := by
  refine r.pairs_ascending.imp ?_
  rintro p q hpq rfl
  unfold Format.PairLt at hpq
  omega

theorem length_eq (r : Registry) : r.length = r.pairs.length :=
  (List.length_map _).symm

/-- **How many kernels pass a test.** -/
theorem countP_eq (r : Registry) (test : Kernel → Bool) :
    r.kernels.countP test = r.pairs.countP fun p => (r.lookup p.1 p.2).any test := by
  rw [pairs, List.countP_map]
  refine List.countP_congr fun k hk => ?_
  rw [Function.comp_apply, lookup_eq_some_iff.2 ⟨hk, rfl, rfl⟩, Option.any_some]

end Registry
end FrameConvert
