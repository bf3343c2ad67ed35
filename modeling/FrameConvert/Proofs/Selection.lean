/-
# Which kernel an engine has for a pair

The engine for a mask starts from the portable kernel of every pair and lets every tier
of the mask put its own in that place, ascending.  What comes of it is read off pair by
pair (`lookup_build`): the portable kernel upgraded by each tier of the mask in turn,

`upgraded m a b k = m.tiers.foldl (fun k t => (Kernel.accelerated? t a b).getD k) k`.

So a pair has a kernel exactly if it has a portable method, whatever the mask
(`lookup_build_eq_none`), and the kernel that it has serves the pair and works in place
exactly if the portable one does (`of_lookup_build`).
-/

import FrameConvert.Proofs.Methods
import FrameConvert.Engine

namespace FrameConvert

variable {a b : Format} {k : Kernel} {m : Mask}

theorem Format.mem_pairs (a b : Format) : (a, b) ∈ Format.pairs := by
  refine List.mem_flatMap.2 ⟨a, a.mem_all, ?_⟩
  exact List.mem_map.2 ⟨b, b.mem_all, rfl⟩

namespace Kernel

/-- A kernel does what its pair is there for. -/
structure Serves (k : Kernel) (a b : Format) : Prop where
  source : k.source = a
  target : k.target = b
  method : k.method.Serves a b

theorem portable?_serves (hk : portable? a b = some k) : k.Serves a b := by
  obtain ⟨m, hm, rfl⟩ := Option.map_eq_some_iff.1 hk
  exact ⟨rfl, rfl, Method.portable?_serves hm⟩

theorem accelerated?_serves {t : Tier} (hk : accelerated? t a b = some k) : k.Serves a b := by
  obtain ⟨m, hm, rfl⟩ := Option.map_eq_some_iff.1 hk
  exact ⟨rfl, rfl, Method.accelerated?_serves hm⟩

end Kernel

namespace Engine

/-- A kernel of a pair after the tier `t` has put its own in its place. -/
def upgrade (a b : Format) (k : Kernel) (t : Tier) : Kernel := (Kernel.accelerated? t a b).getD k

/-- A kernel of a pair after all tiers of a mask. -/
def upgraded (m : Mask) (a b : Format) (k : Kernel) : Kernel := m.tiers.foldl (upgrade a b) k

theorem lookup_withPortable (r : Registry) (c d a b : Format) :
    (withPortable r (c, d)).lookup a b =
      if a = c ∧ b = d then (Kernel.portable? a b).or (r.lookup a b) else r.lookup a b := by
  rw [withPortable]
  cases hk : Kernel.portable? c d with
  | none =>
    dsimp only
    split
    · rename_i h
      rw [h.1, h.2, hk, Option.none_or]
    · rfl
  | some k =>
    obtain ⟨hs, ht, -⟩ := Kernel.portable?_serves hk
    dsimp only
    rw [Registry.lookup_register, hs, ht]
    split
    · rename_i h
      rw [h.1, h.2, hk, Option.some_or]
    · rfl

/-- The portable kernels of some pairs. -/
theorem lookup_foldl_withPortable (ps : List (Format × Format)) (a b : Format) : ∀ r : Registry,
    (ps.foldl withPortable r).lookup a b =
      if (a, b) ∈ ps then (Kernel.portable? a b).or (r.lookup a b) else r.lookup a b := by
  induction ps with
  | nil => exact fun r => (if_neg List.not_mem_nil).symm
  | cons p ps ih =>
    intro r
    obtain ⟨c, d⟩ := p
    rw [List.foldl_cons, ih, lookup_withPortable]
    by_cases hp : (a, b) ∈ ps <;> by_cases hcd : a = c ∧ b = d
    · rw [if_pos hp, if_pos hcd, if_pos (List.mem_cons_of_mem _ hp)]
      cases Kernel.portable? a b <;> rfl
    · rw [if_pos hp, if_neg hcd, if_pos (List.mem_cons_of_mem _ hp)]
    · rw [if_neg hp, if_pos hcd, if_pos (by rw [hcd.1, hcd.2]; exact List.mem_cons_self)]
    · rw [if_neg hp, if_neg hcd, if_neg]
      rintro hmem
      rcases List.mem_cons.1 hmem with h | h
      · exact hcd (Prod.mk.inj h)
      · exact hp h

/-- **The portable registry has the portable kernel of every pair.** -/
theorem lookup_portableRegistry (a b : Format) :
    portableRegistry.lookup a b = Kernel.portable? a b := by
  rw [portableRegistry, lookup_foldl_withPortable, if_pos (Format.mem_pairs a b)]
  exact Option.or_none

theorem lookup_withAccelerated (t : Tier) (d : Draft) (c e a b : Format) :
    (withAccelerated t d (c, e)).registry.lookup a b =
      if a = c ∧ b = e then (d.registry.lookup a b).map (upgrade a b · t)
      else d.registry.lookup a b := by
  rw [withAccelerated]
  dsimp only
  split
  · rename_i hnone
    split
    · rename_i h
      rw [h.1, h.2, Option.isNone_iff_eq_none.1 hnone, Option.map_none]
    · rfl
  · rename_i hsome
    cases hk : Kernel.accelerated? t c e with
    | none =>
      dsimp only
      split
      · rename_i h
        rw [h.1, h.2]
        simp only [upgrade, hk, Option.getD_none, Option.map_id']
      · rfl
    | some k =>
      obtain ⟨hs, ht, -⟩ := Kernel.accelerated?_serves hk
      have hlookup : ((d.registry.register k).registry).lookup a b =
          if a = c ∧ b = e then (d.registry.lookup a b).map (upgrade a b · t)
          else d.registry.lookup a b := by
        rw [Registry.lookup_register, hs, ht]
        split
        · rename_i h
          obtain ⟨old, hold⟩ := Option.ne_none_iff_exists'.1
            (fun hnone => hsome (Option.isNone_iff_eq_none.2 hnone))
          rw [h.1, h.2, hold, Option.map_some, upgrade, hk, Option.getD_some]
        · rfl
      dsimp only
      split <;> exact hlookup

/-- The kernels of a tier for some pairs. -/
theorem lookup_foldl_withAccelerated (t : Tier) (ps : List (Format × Format)) (a b : Format) :
    ∀ d : Draft, (ps.foldl (withAccelerated t) d).registry.lookup a b =
      if (a, b) ∈ ps then (d.registry.lookup a b).map (upgrade a b · t)
      else d.registry.lookup a b := by
  have htwice : ∀ k, upgrade a b (upgrade a b k t) t = upgrade a b k t := by
    intro k
    rw [upgrade, upgrade]
    cases Kernel.accelerated? t a b <;> rfl
  induction ps with
  | nil => exact fun d => (if_neg List.not_mem_nil).symm
  | cons p ps ih =>
    intro d
    obtain ⟨c, e⟩ := p
    rw [List.foldl_cons, ih, lookup_withAccelerated]
    by_cases hp : (a, b) ∈ ps <;> by_cases hce : a = c ∧ b = e
    · rw [if_pos hp, if_pos hce, if_pos (List.mem_cons_of_mem _ hp), Option.map_map]
      exact congrArg (Option.map · _) (funext htwice)
    · rw [if_pos hp, if_neg hce, if_pos (List.mem_cons_of_mem _ hp)]
    · rw [if_neg hp, if_pos hce, if_pos (by rw [hce.1, hce.2]; exact List.mem_cons_self)]
    · rw [if_neg hp, if_neg hce, if_neg]
      rintro hmem
      rcases List.mem_cons.1 hmem with h | h
      · exact hce (Prod.mk.inj h)
      · exact hp h

theorem lookup_foldl_withTier (ts : List Tier) (a b : Format) : ∀ d : Draft,
    (ts.foldl withTier d).registry.lookup a b =
      (d.registry.lookup a b).map fun k => ts.foldl (upgrade a b) k := by
  induction ts with
  | nil => exact fun d => Option.map_id'.symm
  | cons t ts ih =>
    intro d
    rw [List.foldl_cons, ih, withTier, lookup_foldl_withAccelerated, if_pos (Format.mem_pairs a b),
      Option.map_map]
    rfl

/-- **The kernel of a pair** is the portable one, upgraded by every tier of the mask. -/
theorem lookup_build (m : Mask) (a b : Format) :
    (build m).lookup a b = (Kernel.portable? a b).map (upgraded m a b) := by
  rw [lookup, build, draft, lookup_foldl_withTier, lookup_portableRegistry]
  rfl

/-- What an upgraded kernel is for, and whether it works in place, stays. -/
theorem upgraded_serves (ts : List Tier) : ∀ {k : Kernel}, k.Serves a b →
    (ts.foldl (upgrade a b) k).Serves a b := by
  induction ts with
  | nil => exact fun hk => hk
  | cons t ts ih =>
    intro k hk
    rw [List.foldl_cons]
    refine ih ?_
    rw [upgrade]
    cases hacc : Kernel.accelerated? t a b with
    | none => exact hk
    | some k' => exact Kernel.accelerated?_serves hacc

theorem worksInPlace_upgrade {p : Kernel} (t : Tier) (hp : Kernel.portable? a b = some p)
    (hk : k.worksInPlace = p.worksInPlace) :
    (upgrade a b k t).worksInPlace = p.worksInPlace := by
  rw [upgrade]
  cases hacc : Kernel.accelerated? t a b with
  | none => exact hk
  | some k' =>
    obtain ⟨m', hm', rfl⟩ := Option.map_eq_some_iff.1 hacc
    obtain ⟨m, hm, hwork⟩ := Method.rework?_isSome_accelerated hm'
    rw [Kernel.portable?, hm, Option.map_some] at hp
    cases hp
    exact hwork.symm

theorem worksInPlace_upgraded {p : Kernel} (hp : Kernel.portable? a b = some p)
    (ts : List Tier) : ∀ {k : Kernel}, k.worksInPlace = p.worksInPlace →
      (ts.foldl (upgrade a b) k).worksInPlace = p.worksInPlace := by
  induction ts with
  | nil => exact fun hk => hk
  | cons t ts ih => exact fun hk => ih (worksInPlace_upgrade t hp hk)

/-- A pair without a portable method has no kernel, whatever the mask. -/
theorem lookup_build_eq_none (m : Mask) :
    (build m).lookup a b = none ↔ Method.portable? a b = none := by
  rw [lookup_build, Kernel.portable?, Option.map_map, Option.map_eq_none_iff]

/-- **Which pairs are registered** does not depend on the mask. -/
theorem supports_build (m : Mask) (a b : Format) :
    (build m).supports a b = (Method.portable? a b).isSome := by
  rw [supports, lookup_build, Kernel.portable?, Option.isSome_map, Option.isSome_map]

/-- **The kernel that an engine has for a pair** serves the pair, and works in place
exactly if the portable one does. -/
theorem of_lookup_build (hk : (build m).lookup a b = some k) :
    k.Serves a b ∧ ∃ p, Kernel.portable? a b = some p ∧ k.worksInPlace = p.worksInPlace := by
  rw [lookup_build] at hk
  obtain ⟨p, hp, rfl⟩ := Option.map_eq_some_iff.1 hk
  exact ⟨upgraded_serves _ (Kernel.portable?_serves hp), p, hp, worksInPlace_upgraded hp _ rfl⟩

end Engine
end FrameConvert
