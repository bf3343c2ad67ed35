/-
# The highest tier wins

An engine is built tier by tier, ascending, and every tier puts its own kernel in the place of what
was there.  The tiers do not serve the same pairs, none of them all that a lower one does, so the
winner differs from pair to pair:

| the kernel of a pair is | where |
| --- | --- |
| that of the highest tier of the mask with one of its own | some tier of the mask has one |
| the portable one | none has |

`wins_upgraded` says so of the overwriting, by induction over the tiers: what is left in the end is
from the last tier that has a kernel at all (`foldl_upgrade_eq`), and tiers ascend.  A wider mask
therefore never has a lower tier for a pair (`Kernel.Wins.rank_le`).

Sessions rebuild the engine as often as they like.  A step leaves it alone or builds it anew
(`Session.step_engine`), so after any run it is the engine for the last mask (`Session.run_engine`),
and nothing of the masks before it is left.
-/

import FrameConvert.Proofs.Tables
import FrameConvert.Engine.Session

namespace FrameConvert

variable {a b : Format} {m m' : Mask} {k k' : Kernel}

/-- The pairs that cannot be converted: `YUV411P` and the packed formats, either way. -/
def Format.unconvertible : List (Format × Format) :=
  [(.yuv411p, .yuy2), (.yuv411p, .uyvy), (.yuv411p, .yvyu),
    (.yuy2, .yuv411p), (.uyvy, .yuv411p), (.yvyu, .yuv411p)]

/-- All other pairs have a portable method. -/
theorem Method.isSome_portable?_iff :
    (portable? a b).isSome = true ↔ (a, b) ∉ Format.unconvertible := by
  have hall : ∀ a ∈ Format.all, ∀ b ∈ Format.all,
      (portable? a b).isSome = decide ((a, b) ∉ Format.unconvertible) := by
    decide +kernel
  rw [hall a a.mem_all b b.mem_all, decide_eq_true_iff]

/-- So a pair has one unless `YUV411P` meets a packed format. -/
theorem Method.isSome_portable?_unless (hab : ∀ o, b.layout = .packed o → a ≠ .yuv411p)
    (hba : ∀ o, a.layout = .packed o → b ≠ .yuv411p) : (portable? a b).isSome = true := by
  refine isSome_portable?_iff.2 fun h => ?_
  simp only [Format.unconvertible, List.mem_cons, List.not_mem_nil, or_false, Prod.mk.injEq] at h
  rcases h with ⟨rfl, rfl⟩ | ⟨rfl, rfl⟩ | ⟨rfl, rfl⟩ | ⟨rfl, rfl⟩ | ⟨rfl, rfl⟩ | ⟨rfl, rfl⟩
  · exact hab _ rfl rfl
  · exact hab _ rfl rfl
  · exact hab _ rfl rfl
  · exact hba _ rfl rfl
  · exact hba _ rfl rfl
  · exact hba _ rfl rfl

/-- The tiers of a mask ascend. -/
theorem Mask.tiers_ascending (m : Mask) : m.tiers.Pairwise fun s t => s.rank < t.rank := by
  have hall : Tier.accelerated.Pairwise fun s t => s.rank < t.rank := by decide
  exact hall.filter _

/-- **A kernel wins a pair on a mask:** it is that of the highest tier of the mask with a kernel of
its own for the pair, or the portable one if no tier has any. -/
inductive Kernel.Wins (k : Kernel) (m : Mask) (a b : Format) : Prop
  | accelerated (mem : m.contains k.tier = true) (own : accelerated? k.tier a b = some k)
      (highest : ∀ t, m.contains t = true → (accelerated? t a b).isSome = true →
        t.rank ≤ k.tier.rank)
  | portable (own : portable? a b = some k) (tier : k.tier = .portable)
      (alone : ∀ t, m.contains t = true → accelerated? t a b = none)

namespace Kernel

theorem tier_of_accelerated? {t : Tier} (hk : accelerated? t a b = some k) : k.tier = t := by
  obtain ⟨n, -, rfl⟩ := Option.map_eq_some_iff.1 hk
  rfl

theorem tier_of_portable? (hk : portable? a b = some k) : k.tier = .portable := by
  obtain ⟨n, -, rfl⟩ := Option.map_eq_some_iff.1 hk
  rfl

/-- The portable tier has no kernels besides the portable ones. -/
theorem accelerated?_portable : accelerated? .portable a b = none := rfl

/-- **A wider mask never has a lower tier for a pair.** -/
theorem Wins.rank_le (hk : k.Wins m a b) (hk' : k'.Wins m' a b)
    (hsub : ∀ t, m.contains t = true → m'.contains t = true) : k.tier.rank ≤ k'.tier.rank := by
  cases hk with
  | portable _ tier _ =>
    rw [tier]
    exact Nat.zero_le _
  | accelerated mem own _ =>
    have hsome : (accelerated? k.tier a b).isSome = true := own ▸ rfl
    cases hk' with
    | accelerated _ _ highest => exact highest k.tier (hsub _ mem) hsome
    | portable _ _ alone =>
      rw [alone k.tier (hsub _ mem)] at hsome
      cases hsome

end Kernel

namespace Engine

/-- What is left of upgrades is the kernel of the last tier that has one. -/
theorem foldl_upgrade_eq (a b : Format) (ts : List Tier) : ∀ k : Kernel,
    ts.foldl (upgrade a b) k =
      (ts.reverse.findSome? fun t => Kernel.accelerated? t a b).getD k := by
  induction ts with
  | nil => exact fun k => rfl
  | cons t ts ih =>
    intro k
    rw [List.foldl_cons, ih, upgrade, List.reverse_cons, List.findSome?_append]
    cases ts.reverse.findSome? fun t => Kernel.accelerated? t a b with
    | some k' => rfl
    | none => cases ht : Kernel.accelerated? t a b <;> simp [ht]

/-- **The kernel of the highest tier wins.** -/
theorem wins_upgraded {p : Kernel} (hp : Kernel.portable? a b = some p) (m : Mask) :
    (upgraded m a b p).Wins m a b := by
  rw [upgraded, foldl_upgrade_eq]
  cases hf : m.tiers.reverse.findSome? fun t => Kernel.accelerated? t a b with
  | none =>
    rw [Option.getD_none]
    refine .portable hp (Kernel.tier_of_portable? hp) fun t ht => ?_
    by_cases h0 : t = .portable
    · rw [h0, Kernel.accelerated?_portable]
    · exact List.findSome?_eq_none_iff.1 hf t (List.mem_reverse.2 (Mask.mem_tiers.2 ⟨h0, ht⟩))
  | some k =>
    rw [Option.getD_some]
    obtain ⟨above, t, below, hts, hk, habove⟩ := List.findSome?_eq_some_iff.1 hf
    have hdescending := List.pairwise_reverse.2 m.tiers_ascending
    rw [hts, List.pairwise_append, List.pairwise_cons] at hdescending
    obtain ⟨-, ⟨hbelow, -⟩, -⟩ := hdescending
    have htier := Kernel.tier_of_accelerated? hk
    have hmem : t ∈ m.tiers := by
      rw [← List.mem_reverse, hts]
      exact List.mem_append_right _ List.mem_cons_self
    refine .accelerated (htier ▸ (Mask.mem_tiers.1 hmem).2) (htier ▸ hk) fun s hs hsome => ?_
    -- a tier with a kernel is no tier above the one that was found
    have hs0 : s ≠ .portable := by
      rintro rfl
      rw [Kernel.accelerated?_portable] at hsome
      cases hsome
    have hin : s ∈ above ++ t :: below := by
      rw [← hts, List.mem_reverse]
      exact Mask.mem_tiers.2 ⟨hs0, hs⟩
    rw [htier]
    rcases List.mem_append.1 hin with hin | hin
    · rw [habove s hin] at hsome
      cases hsome
    · rcases List.mem_cons.1 hin with rfl | hin
      · exact Nat.le_refl _
      · exact Nat.le_of_lt (hbelow s hin)

/-- The kernel that an engine has for a pair. -/
theorem wins_of_lookup_build (hk : (build m).lookup a b = some k) : k.Wins m a b := by
  rw [lookup_build] at hk
  obtain ⟨p, hp, rfl⟩ := Option.map_eq_some_iff.1 hk
  exact wins_upgraded hp m

/-- The tier of the kernel that an engine has for a pair. -/
def tierAt? (e : Engine) (a b : Format) : Option Tier := (e.lookup a b).map Kernel.tier

/-- **The table of an engine goes with a mask:** it has every pair that can be converted, in order,
each with the kernel that wins it on the mask, and the engine's line counts what is there. -/
structure Selects (e : Engine) (m : Mask) : Prop where
  pairs : e.pairs = Format.pairs.filter (· ∉ Format.unconvertible)
  ascending : e.pairs.Pairwise Format.PairLt
  registered : ∀ a b, (e.lookup a b).isSome = true ↔ (a, b) ∈ e.pairs
  key : ∀ a b k, e.lookup a b = some k → k.source = a ∧ k.target = b
  wins : ∀ a b k, e.lookup a b = some k → k.Wins m a b
  accelerated : e.acceleratedCount =
    e.pairs.countP fun p => e.tierAt? p.1 p.2 != some .portable
  describe : e.describe =
    s!"imgconvert {m}: {e.pairs.length} conversions, {e.acceleratedCount} accelerated"

/-- **The engine for a mask has the table for it.** -/
theorem build_selects (m : Mask) : (build m).Selects m where
  pairs := by
    rw [pairs, Registry.pairs_eq]
    refine List.filter_congr fun p _ => ?_
    have hp : ((build m).registry.lookup p.1 p.2).isSome = (build m).supports p.1 p.2 := rfl
    rw [hp, supports_build, Bool.eq_iff_iff, Method.isSome_portable?_iff, decide_eq_true_iff]
  ascending := Registry.pairs_ascending _
  registered _ _ := Registry.mem_pairs.symm
  key _ _ _ hk := (Registry.lookup_eq_some_iff.1 hk).2
  wins _ _ _ hk := wins_of_lookup_build hk
  accelerated := by
    rw [acceleratedCount, Registry.countP_eq]
    refine List.countP_congr fun p hp => ?_
    obtain ⟨k, hk⟩ := Option.isSome_iff_exists.1 (Registry.mem_pairs.1 hp)
    have hk' : (build m).lookup p.1 p.2 = some k := hk
    rw [hk, Option.any_some, tierAt?, hk', Option.map_some, Kernel.isAccelerated]
    simp
  describe := by
    rw [pairs, ← Registry.length_eq]
    rfl

/-- The mask that a step builds the engine anew for. -/
def Step.mask? : Step → Option Mask
  | .rebuild m => some m
  | _ => none

/-- The mask of the last engine that was built, from one for `m` on. -/
def lastMask (m : Mask) (steps : List Step) : Mask := (steps.filterMap Step.mask?).getLastD m

namespace Session

variable {s : Session} {steps : List Step}

/-- **One step** builds the engine anew, or leaves it alone. -/
theorem step_engine (s : Session) (x : Step) :
    (s.step x).1.engine = (x.mask?.map build).getD s.engine := by
  cases x <;> rfl

theorem run_cons (s : Session) (x : Step) (steps : List Step) :
    (s.run (x :: steps)).1 = ((s.step x).1.run steps).1 := rfl

/-- **After any run** the engine is the one for the last mask. -/
theorem run_engine (hs : s.engine = build m) :
    (s.run steps).1.engine = build (lastMask m steps) := by
  induction steps generalizing s m with
  | nil => exact hs
  | cons x steps ih =>
    have hx := s.step_engine x
    rw [run_cons]
    cases hmask : x.mask? with
    | none =>
      rw [hmask] at hx
      rw [ih (hx.trans hs), lastMask, lastMask, List.filterMap_cons_none hmask]
    | some m' =>
      rw [hmask] at hx
      rw [ih hx, lastMask, lastMask, List.filterMap_cons_some hmask, List.getLastD_cons]

end Session

/-- **Which kernel serves a pair depends on the last mask alone.**  However often a session rebuilds
its engine, and whatever else it does in between, the engine is that for the last mask, and its
table goes with that: all pairs but six, in order, each with the kernel of the highest tier that has
one for it.  Against the engine for any other mask, a pair works in place in both or in neither;
and where the other mask has all tiers of the last one, no pair has a lower tier there. -/
theorem last_mask_selects (m : Mask) (steps : List Step) :
    ((Session.start (build m)).run steps).1.engine = build (lastMask m steps) ∧
      ((Session.start (build m)).run steps).1.engine.Selects (lastMask m steps) ∧
      ∀ m' a b k k', ((Session.start (build m)).run steps).1.engine.lookup a b = some k →
        (build m').lookup a b = some k' →
        k.worksInPlace = k'.worksInPlace ∧
          ((∀ t, (lastMask m steps).contains t = true → m'.contains t = true) →
            k.tier.rank ≤ k'.tier.rank) := by
  have hengine : ((Session.start (build m)).run steps).1.engine = build (lastMask m steps) :=
    Session.run_engine rfl
  rw [hengine]
  refine ⟨rfl, build_selects _, fun m' a b k k' hk hk' => ⟨?_, fun hsub => ?_⟩⟩
  · obtain ⟨-, p, hp, hi⟩ := of_lookup_build hk
    obtain ⟨-, p', hp', hi'⟩ := of_lookup_build hk'
    obtain rfl : p = p' := Option.some.inj (hp.symm.trans hp')
    exact hi.trans hi'.symm
  · exact (wins_of_lookup_build hk).rank_le (wins_of_lookup_build hk') hsub

/-- From an engine for no tier to one up to `sse41`, with a conversion in between, and then to one
for `sse2` alone: that serves `YUY2` to `UYVY`, and leaves `RGB24` to `BGR24` portable.  An engine
for all tiers has no lower one for either. -/
theorem tiers_after_two_rebuilds :
    ∃ e k k' k'', ((Session.start (build .none)).run
        [.rebuild (Mask.detected.upTo .sse41), .convert ⟨.gray8, .gray8, 1, 1⟩ [#[1]] [#[2]],
          .rebuild (Mask.detected.upTo .sse2)]).1.engine = e ∧
      e.lookup .yuy2 .uyvy = some k ∧ k.tier = .sse2 ∧
      e.lookup .rgb24 .bgr24 = some k' ∧ k'.tier = .portable ∧
      (build .detected).lookup .rgb24 .bgr24 = some k'' ∧
      k'.worksInPlace = k''.worksInPlace ∧ k'.tier.rank ≤ k''.tier.rank := by
  obtain ⟨-, hselects, hcompare⟩ := last_mask_selects .none
    [.rebuild (Mask.detected.upTo .sse41), .convert ⟨.gray8, .gray8, 1, 1⟩ [#[1]] [#[2]],
      .rebuild (Mask.detected.upTo .sse2)]
  generalize ((Session.start (build .none)).run _).1.engine = e at hselects hcompare ⊢
  have hfound : ∀ a b, (a, b) ∉ Format.unconvertible → ∃ k, e.lookup a b = some k := by
    intro a b hab
    refine Option.isSome_iff_exists.1 ((hselects.registered a b).2 ?_)
    rw [hselects.pairs, List.mem_filter]
    exact ⟨Format.mem_pairs a b, decide_eq_true hab⟩
  obtain ⟨k, hk⟩ := hfound .yuy2 .uyvy (by decide)
  obtain ⟨k', hk'⟩ := hfound .rgb24 .bgr24 (by decide)
  obtain ⟨k'', hk''⟩ := Option.isSome_iff_exists.1 (supports_build .detected .rgb24 .bgr24)
  obtain ⟨hinPlace, hrank⟩ := hcompare .detected .rgb24 .bgr24 k' k'' hk' hk''
  refine ⟨_, k, k', k'', rfl, hk, ?_, hk', ?_, hk'', hinPlace, hrank fun t => ?_⟩
  · cases hselects.wins _ _ _ hk with
    | portable _ _ alone => cases alone .sse2 rfl
    | accelerated mem _ highest =>
      have hsse2 := highest .sse2 rfl rfl
      revert mem hsse2
      cases k.tier <;> decide
  · cases hselects.wins _ _ _ hk' with
    | portable _ tier _ => exact tier
    | accelerated mem own _ =>
      have hsome : (Kernel.accelerated? k'.tier .rgb24 .bgr24).isSome = true := by rw [own]; rfl
      revert mem hsome
      cases k'.tier <;> decide
  · cases t <;> decide

end Engine
end FrameConvert
