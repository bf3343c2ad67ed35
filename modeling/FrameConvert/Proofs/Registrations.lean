/-
# The last registration of a pair is the one that counts

A session registers kernels of engines for any masks, in any order and as often as it likes.  Each
registration overwrites one pair and no other, so of all that was registered

| the registry has | of the registrations |
| --- | --- |
| for a pair | the last one for it, or nothing if there was none |
| as its pairs | those of all, each once and in order |
| as its length | how many different pairs they are for |

`run_lookup` says the first, by induction over the steps (`step_lookup`), and the others follow from
it, since a registry is what it answers.  Which masks the kernels were built for does not show: all
kernels of a pair convert alike (`Kernel.convert_of_build`).
-/

import FrameConvert.Proofs.Independence
import FrameConvert.Proofs.Tables
import FrameConvert.Registry.Session

namespace FrameConvert

variable {a b : Format} {k : Kernel} {m : Mask} {w h : Nat}

namespace Kernel

/-- The ordered pair that a kernel is for. -/
def pair (k : Kernel) : Format × Format := (k.source, k.target)

theorem pair_eq_iff : k.pair = (a, b) ↔ k.source = a ∧ k.target = b := Prod.mk_inj

theorem pair_of_build (hk : (Engine.build m).lookup a b = some k) : k.pair = (a, b) := by
  obtain ⟨hserves, -⟩ := Engine.of_lookup_build hk
  exact pair_eq_iff.2 ⟨hserves.source, hserves.target⟩

/-- Whatever does the same with every kernel of a pair does with this one what it does with the
portable one. -/
theorem bind_of_build {α : Type} {f : Kernel → Attempt α}
    (hf : ∀ k k' : Kernel, k.Serves a b → k'.Serves a b → k.worksInPlace = k'.worksInPlace →
      f k = f k') (hk : (Engine.build m).lookup a b = some k) :
    f k = ((Engine.build .none).kernel a b >>= f) := by
  have hkernel : (Engine.build m).kernel a b = .ok k := by rw [Engine.kernel, hk]
  rw [← Engine.bind_kernel_congr hf m .none, bind_eq_of_ok hkernel]

/-- **A kernel of any engine converts** as the portable engine does. -/
theorem convert_of_build (hk : (Engine.build m).lookup a b = some k) (hw : w < 2 ^ 32)
    (hh : h < 2 ^ 32) (src dst : List Plane) :
    k.convert src dst w h = (Engine.build .none).convert a b w h src dst := by
  rw [convert_eq, Engine.convert_eq]
  refine congrArg _ (bind_of_build (f := fun k => k.converted src dst w h) ?_ hk)
  exact fun k k' hs hs' _ => converted_eq hs hs' hw hh src dst

/-- And so it does in place. -/
theorem convertInPlace_of_build (hk : (Engine.build m).lookup a b = some k) (hw : w < 2 ^ 32)
    (hh : h < 2 ^ 32) (planes : List Plane) :
    k.convertInPlace planes w h = (Engine.build .none).convertInPlace a b w h planes := by
  rw [convertInPlace_eq, Engine.convertInPlace_eq]
  refine congrArg _ (bind_of_build (f := fun k => k.reworked planes w h) ?_ hk)
  exact fun k k' hs hs' hi => reworked_eq hs hs' hi hw hh planes

end Kernel

namespace Registry

/-- The kernel that a step registers. -/
def Step.registered? : Step → Option Kernel
  | .register a b e => e.lookup a b
  | _ => none

/-- What some steps register, in order. -/
def registrations (steps : List Step) : List Kernel := steps.filterMap Step.registered?

/-- The last of some kernels for a pair. -/
def lastFor (ks : List Kernel) (a b : Format) : Option Kernel :=
  (ks.filter fun k => k.pair = (a, b)).getLast?

/-- If a step registers a kernel, then that of an engine for some mask. -/
def Step.Built : Step → Prop
  | .register _ _ e => ∃ m, e = Engine.build m
  | _ => True

variable {r : Registry} {ks : List Kernel} {x : Step} {steps : List Step}

theorem lastFor_singleton (k : Kernel) (a b : Format) :
    lastFor [k] a b = if k.pair = (a, b) then some k else none := by
  by_cases hk : k.pair = (a, b) <;> simp [lastFor, hk]

/-- Later kernels count before earlier ones. -/
theorem lastFor_append (ks ms : List Kernel) (a b : Format) :
    lastFor (ks ++ ms) a b = (lastFor ms a b).or (lastFor ks a b) := by
  rw [lastFor, List.filter_append, List.getLast?_append, lastFor, lastFor]

theorem registrations_cons (x : Step) (steps : List Step) :
    registrations (x :: steps) = x.registered?.toList ++ registrations steps := by
  rw [registrations, List.filterMap_cons]
  cases x.registered? <;> rfl

/-- The last kernel for a pair is one of them, and for that pair. -/
theorem mem_of_lastFor (hk : lastFor ks a b = some k) : k ∈ ks ∧ k.pair = (a, b) := by
  have hmem := List.mem_of_getLast? hk
  rw [List.mem_filter, decide_eq_true_iff] at hmem
  exact hmem

theorem lastFor_eq_none_iff : lastFor ks a b = none ↔ (a, b) ∉ ks.map Kernel.pair := by
  rw [lastFor, List.getLast?_eq_none_iff, List.filter_eq_nil_iff, List.mem_map, not_exists]
  refine forall_congr' fun k => ?_
  rw [decide_eq_true_iff, not_and]

theorem lookup_register_pair (r : Registry) (k : Kernel) (a b : Format) :
    (r.register k).registry.lookup a b = (lastFor [k] a b).or (r.lookup a b) := by
  rw [lookup_register, lastFor_singleton]
  by_cases hpair : k.pair = (a, b)
  · obtain ⟨hs, ht⟩ := Kernel.pair_eq_iff.1 hpair
    rw [if_pos ⟨hs.symm, ht.symm⟩, if_pos hpair, Option.some_or]
  · rw [if_neg fun h => hpair (Kernel.pair_eq_iff.2 ⟨h.1.symm, h.2.symm⟩), if_neg hpair,
      Option.none_or]

/-- **One step** overwrites the pair of what it registers. -/
theorem step_lookup (r : Registry) (x : Step) (a b : Format) :
    (r.step x).1.lookup a b = (lastFor x.registered?.toList a b).or (r.lookup a b) := by
  cases x with
  | register c d e =>
    rw [step, Step.registered?]
    cases e.lookup c d with
    | none => rfl
    | some k => exact lookup_register_pair r k a b
  | _ => rfl

theorem run_cons (r : Registry) (x : Step) (steps : List Step) :
    (r.run (x :: steps)).1 = ((r.step x).1.run steps).1 := rfl

/-- **After any run** a pair has the last kernel that was registered for it, or what it had. -/
theorem run_lookup (steps : List Step) (a b : Format) : ∀ r : Registry,
    (r.run steps).1.lookup a b = (lastFor (registrations steps) a b).or (r.lookup a b) := by
  induction steps with
  | nil => exact fun r => Option.none_or.symm
  | cons x steps ih =>
    intro r
    rw [run_cons, ih, step_lookup, ← Option.or_assoc, registrations_cons, lastFor_append]

/-- What sound steps register are kernels of engines for masks. -/
theorem exists_build_of_mem (hbuilt : ∀ x ∈ steps, x.Built) (hk : k ∈ registrations steps) :
    ∃ m, (Engine.build m).lookup k.source k.target = some k := by
  obtain ⟨x, hx, hreg⟩ := List.mem_filterMap.1 hk
  cases x with
  | register a b e =>
    obtain ⟨m, rfl⟩ := hbuilt _ hx
    obtain ⟨hs, ht⟩ := Kernel.pair_eq_iff.1 (Kernel.pair_of_build hreg)
    rw [hs, ht]
    exact ⟨m, hreg⟩
  | _ => cases hreg

/-- **A registry records what was registered:** for each pair the last kernel, and the pairs once
each and in order. -/
structure Records (r : Registry) (ks : List Kernel) : Prop where
  last : ∀ a b, r.lookup a b = lastFor ks a b
  never : ∀ a b, r.lookup a b = none ↔ (a, b) ∉ ks.map Kernel.pair
  length : r.length = (ks.map Kernel.pair).dedup.length
  ascending : r.pairs.Pairwise Format.PairLt
  pairs : ∀ p, p ∈ r.pairs ↔ p ∈ ks.map Kernel.pair

/-- The answers for each pair are enough for that. -/
theorem records_of_lookup (hr : ∀ a b, r.lookup a b = lastFor ks a b) : r.Records ks := by
  have hnever : ∀ a b, r.lookup a b = none ↔ (a, b) ∉ ks.map Kernel.pair := by
    intro a b
    rw [hr, lastFor_eq_none_iff]
  have hpairs : ∀ p, p ∈ r.pairs ↔ p ∈ ks.map Kernel.pair := by
    rintro ⟨a, b⟩
    rw [mem_pairs, ← not_iff_not, ← hnever, Option.not_isSome_iff_eq_none]
  refine ⟨hr, hnever, ?_, r.pairs_ascending, hpairs⟩
  rw [length_eq]
  refine ((List.perm_ext_iff_of_nodup r.nodup_pairs (List.nodup_dedup _)).2 fun p => ?_).length_eq
  rw [hpairs, List.mem_dedup]

/-- **One registration** hands back the last kernel that there was for the pair, and touches no
other pair. -/
theorem step_register (hr : r.Records ks) {e : Engine} (hk : e.lookup a b = some k)
    (hpair : k.pair = (a, b)) :
    ∃ s, r.step (.register a b e) = (s, .registered (lastFor ks a b) s.length) ∧
      s.lookup a b = some k ∧ ∀ c d, (c, d) ≠ (a, b) → s.lookup c d = r.lookup c d := by
  obtain ⟨hs, ht⟩ := Kernel.pair_eq_iff.1 hpair
  refine ⟨(r.register k).registry, ?_, ?_, fun c d hcd => ?_⟩
  · rw [step, hk]
    dsimp only
    rw [displaced_register, hr.last, hs, ht]
  · rw [lookup_register_pair, lastFor_singleton, if_pos hpair, Option.some_or]
  · rw [lookup_register_pair, lastFor_singleton, hpair, if_neg hcd.symm, Option.none_or]

/-- **Runs of registrations.**  From the empty registry, whatever is registered, looked up and
converted in between: the registry records what was registered; one more registration hands back the
last kernel of its pair, or nothing if there was none, and leaves every other pair alone; and
whichever kernel is found for a pair converts as the portable engine does, in place as well: the
result or the failure is the same, and so is every byte of the memory afterwards. -/
theorem last_registration_serves (steps : List Step) (hbuilt : ∀ x ∈ steps, x.Built) :
    (empty.run steps).1.Records (registrations steps) ∧
      (∀ m a b k, (Engine.build m).lookup a b = some k →
        ∃ s, (empty.run steps).1.step (.register a b (Engine.build m)) =
            (s, .registered (lastFor (registrations steps) a b) s.length) ∧
          s.lookup a b = some k ∧
          ∀ c d, (c, d) ≠ (a, b) → s.lookup c d = (empty.run steps).1.lookup c d) ∧
      ∀ a b k, (empty.run steps).1.lookup a b = some k → ∀ w h : UInt32,
        (∀ src dst : List Plane, k.convert src dst w.toNat h.toNat =
            (Engine.build .none).convert a b w.toNat h.toNat src dst) ∧
          ∀ planes : List Plane, k.convertInPlace planes w.toNat h.toNat =
            (Engine.build .none).convertInPlace a b w.toNat h.toNat planes := by
  have hrecords : (empty.run steps).1.Records (registrations steps) := by
    refine records_of_lookup fun a b => ?_
    rw [run_lookup]
    exact Option.or_none
  refine ⟨hrecords, fun m a b k hk => ?_, fun a b k hk w h => ?_⟩
  · exact step_register hrecords hk (Kernel.pair_of_build hk)
  · rw [hrecords.last] at hk
    obtain ⟨hmem, hpair⟩ := mem_of_lastFor hk
    obtain ⟨m, hm⟩ := exists_build_of_mem hbuilt hmem
    obtain ⟨hs, ht⟩ := Kernel.pair_eq_iff.1 hpair
    rw [hs, ht] at hm
    exact ⟨Kernel.convert_of_build hm w.toNat_lt h.toNat_lt,
      Kernel.convertInPlace_of_build hm w.toNat_lt h.toNat_lt⟩

/-- `YUY2` to `UYVY` registered from an engine without tiers, the way back from one for all, and
then the first pair again: there are two pairs, and the kernel found for the first is the second one
registered for it, which converts a frame as the portable engine does.  If the way back were
registered once more, the kernel in between would be handed back. -/
theorem registered_there_and_back :
    ∃ r k k', r = (empty.run [.register .yuy2 .uyvy (Engine.build .none),
        .register .uyvy .yuy2 (Engine.build .detected), .pairs,
        .register .yuy2 .uyvy (Engine.build .detected)]).1 ∧
      r.length = 2 ∧ r.lookup .yuy2 .uyvy = some k ∧
      (Engine.build .detected).lookup .yuy2 .uyvy = some k ∧
      (∃ s, r.step (.register .uyvy .yuy2 (Engine.build .detected)) =
        (s, .registered (some k') s.length)) ∧
      k.convert [#[1, 2, 3, 4]] [#[0, 0, 0, 0]] 2 1 =
        (Engine.build .none).convert .yuy2 .uyvy 2 1 [#[1, 2, 3, 4]] [#[0, 0, 0, 0]] := by
  obtain ⟨k₁, h₁⟩ := Option.isSome_iff_exists.1 (Engine.supports_build .none .yuy2 .uyvy)
  obtain ⟨k₂, h₂⟩ := Option.isSome_iff_exists.1 (Engine.supports_build .detected .uyvy .yuy2)
  obtain ⟨k₃, h₃⟩ := Option.isSome_iff_exists.1 (Engine.supports_build .detected .yuy2 .uyvy)
  obtain ⟨hrecords, hnext, hconvert⟩ := last_registration_serves
    [.register .yuy2 .uyvy (Engine.build .none), .register .uyvy .yuy2 (Engine.build .detected),
      .pairs, .register .yuy2 .uyvy (Engine.build .detected)]
    (by simp only [List.forall_mem_cons, List.not_mem_nil]; exact
      ⟨⟨_, rfl⟩, ⟨_, rfl⟩, trivial, ⟨_, rfl⟩, fun _ h => h.elim⟩)
  have hregistered : registrations [.register .yuy2 .uyvy (Engine.build .none),
      .register .uyvy .yuy2 (Engine.build .detected), .pairs,
      .register .yuy2 .uyvy (Engine.build .detected)] = [k₁, k₂, k₃] := by
    simp only [registrations_cons, Step.registered?, h₁, h₂, h₃]
    rfl
  rw [hregistered] at hrecords hnext
  have p₁ := Kernel.pair_of_build h₁
  have p₂ := Kernel.pair_of_build h₂
  have p₃ := Kernel.pair_of_build h₃
  have hlookup := hrecords.last .yuy2 .uyvy
  rw [show lastFor [k₁, k₂, k₃] .yuy2 .uyvy = some k₃ by simp [lastFor, p₁, p₂, p₃]] at hlookup
  obtain ⟨s, hs, -⟩ := hnext .detected .uyvy .yuy2 k₂ h₂
  rw [show lastFor [k₁, k₂, k₃] .uyvy .yuy2 = some k₂ by simp [lastFor, p₁, p₂, p₃]] at hs
  refine ⟨_, k₃, k₂, rfl, ?_, hlookup, h₃, ⟨s, hs⟩, (hconvert _ _ _ hlookup 2 1).1 _ _⟩
  rw [hrecords.length, List.map_cons, List.map_cons, List.map_cons, p₁, p₂, p₃]
  decide

end Registry
end FrameConvert
