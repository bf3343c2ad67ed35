/-
# The first objection that applies

Whatever checks what it was given has a list of objections to it, in the order in which they are
raised; the `verdict` is the first one that applies.  `guarded os x` is refused for the verdict, and
`x` if there is none.  All checks have this form, whatever they are in front of:

| check | objections, in this order |
| --- | --- |
| `checkGeometry` | a side is zero, too many pixels, a block does not divide a side |
| `checkPlanes` | too few planes; then of each plane that it is too short |
| `checkBuffer`, `split` | those to the geometry; the buffer is too short |
| `Engine.kernel` | the pair has no kernel |

Checks one after another have the objections of both (`guarded_append`), and a check only matters
to what follows where it has passed (`guarded_congr`).
-/

import FrameConvert.Proofs.Kernels
import FrameConvert.Proofs.Split

namespace FrameConvert

/-- Something that may be wrong with what is given, and what is said then. -/
structure Objection where
  applies : Bool
  why : Refusal

/-- The first objection that applies. -/
def verdict (os : List Objection) : Option Refusal := (os.find? (·.applies)).map (·.why)

/-- Refused for the first objection that applies; `x` if none does. -/
def guarded {α : Type} (os : List Objection) (x : Attempt α) : Attempt α :=
  match verdict os with
  | some why => refuse why
  | none => x

/-- What is wrong with the sides of a frame. -/
def geometryObjections (f : Format) (w h : Nat) : List Objection :=
  [⟨w = 0 ∨ h = 0, .zeroSize⟩,
    ⟨0x10000000000000000 ≤ w * h * 4, .tooLarge⟩,
    ⟨¬(f.chromaBlock.1 ∣ w ∧ f.chromaBlock.2 ∣ h), .misaligned f w h⟩]

/-- Plane `i` is too short. -/
def planeObjection (f : Format) (w h i : Nat) (p : Plane) : Objection :=
  ⟨p.size < f.planeSize w h i, .planeSize i (f.planeSize w h i) p.size⟩

/-- What is wrong with the planes of a frame. -/
def planeObjections (planes : List Plane) (f : Format) (w h : Nat) : List Objection :=
  ⟨planes.length < f.planeCount, .planeCount f.planeCount planes.length⟩ ::
    (List.range f.planeCount).map fun i => planeObjection f w h i (planeAt planes i)

/-- What is wrong with a buffer of `n` bytes for a frame. -/
def bufferObjections (n : Nat) (f : Format) (w h : Nat) : List Objection :=
  geometryObjections f w h ++ [⟨n < f.frameSize w h, .bufferSize (f.frameSize w h) n⟩]

section Verdict

variable {α β : Type} {os os' : List Objection} {x y : Attempt α} {why : Refusal}

theorem verdict_cons (o : Objection) (os : List Objection) :
    verdict (o :: os) = if o.applies then some o.why else verdict os := by
  rw [verdict, List.find?_cons]
  cases o.applies <;> rfl

theorem verdict_append (os os' : List Objection) :
    verdict (os ++ os') = (verdict os).or (verdict os') := by
  rw [verdict, List.find?_append, Option.map_or]
  rfl

theorem verdict_eq_none_iff : verdict os = none ↔ ∀ o ∈ os, o.applies = false := by
  rw [verdict, Option.map_eq_none_iff, List.find?_eq_none]
  simp only [Bool.not_eq_true]

theorem verdict_append_eq_none_iff :
    verdict (os ++ os') = none ↔ verdict os = none ∧ verdict os' = none := by
  rw [verdict_append, Option.or_eq_none_iff]

/-- Why something is refused is what one of the objections says. -/
theorem why_of_verdict (hv : verdict os = some why) : ∃ o ∈ os, o.why = why := by
  obtain ⟨o, ho, hwhy⟩ := Option.map_eq_some_iff.1 hv
  exact ⟨o, List.mem_of_find?_eq_some ho, hwhy⟩

theorem guarded_of_some (hv : verdict os = some why) : guarded os x = refuse why := by
  rw [guarded, hv]

theorem guarded_of_none (hv : verdict os = none) : guarded os x = x := by
  rw [guarded, hv]

@[simp] theorem guarded_nil (x : Attempt α) : guarded [] x = x := rfl

theorem guarded_cons (o : Objection) (os : List Objection) (x : Attempt α) :
    guarded (o :: os) x = if o.applies then refuse o.why else guarded os x := by
  by_cases ho : o.applies = true
  · rw [if_pos ho, guarded, verdict_cons, if_pos ho]
  · rw [if_neg ho, guarded, verdict_cons, if_neg ho, guarded]

/-- What has come from behind a guard had nothing against it. -/
theorem of_guarded_eq_ok {a : α} (hx : guarded os x = .ok a) : verdict os = none ∧ x = .ok a := by
  cases hv : verdict os with
  | none => exact ⟨rfl, (guarded_of_none hv).symm.trans hx⟩
  | some why =>
    rw [guarded_of_some hv] at hx
    cases hx

/-- **One check after another.** -/
theorem guarded_append (os os' : List Objection) (x : Attempt α) :
    guarded (os ++ os') x = guarded os (guarded os' x) := by
  rw [guarded, verdict_append]
  cases hv : verdict os with
  | none => rw [Option.none_or, guarded_of_none hv, guarded]
  | some why => rw [Option.some_or, guarded_of_some hv]

/-- What is behind a check matters only if the check passes. -/
theorem guarded_congr (hxy : verdict os = none → x = y) : guarded os x = guarded os y := by
  cases hv : verdict os with
  | none => rw [guarded_of_none hv, guarded_of_none hv, hxy hv]
  | some why => rw [guarded_of_some hv, guarded_of_some hv]

theorem guarded_bind (os : List Objection) (x : Attempt α) (g : α → Attempt β) :
    (guarded os x >>= g) = guarded os (x >>= g) := by
  cases hv : verdict os with
  | none => rw [guarded_of_none hv, guarded_of_none hv]
  | some why =>
    rw [guarded_of_some hv, guarded_of_some hv]
    rfl

/-- A check in front of something. -/
theorem guarded_then (os : List Objection) (u : Unit) (x : Attempt β) :
    (guarded os (.ok u) >>= fun _ => x) = guarded os x :=
  guarded_bind os (.ok u) fun _ => x

end Verdict

section Checks

variable {f : Format} {w h n : Nat} {planes : List Plane} {buffer : Plane}

/-- Nothing is wrong with the sides of a fit frame. -/
theorem verdict_geometryObjections : verdict (geometryObjections f w h) = none ↔ Fit f w h := by
  rw [verdict_eq_none_iff, geometryObjections, List.forall_mem_cons, List.forall_mem_cons,
    List.forall_mem_singleton]
  simp only [decide_eq_false_iff_not, Fit, not_not]
  omega

/-- Nothing is wrong with a buffer that holds a fit frame. -/
theorem verdict_bufferObjections :
    verdict (bufferObjections n f w h) = none ↔ Fit f w h ∧ f.frameSize w h ≤ n := by
  rw [bufferObjections, verdict_append_eq_none_iff, verdict_geometryObjections,
    verdict_eq_none_iff, List.forall_mem_singleton, decide_eq_false_iff_not, Nat.not_lt]

/-- Nothing is wrong with planes that hold a frame. -/
theorem verdict_planeObjections :
    verdict (planeObjections planes f w h) = none ↔ Holds f w h planes := by
  rw [verdict_eq_none_iff, planeObjections, List.forall_mem_cons, List.forall_mem_map]
  simp only [planeObjection, decide_eq_false_iff_not, Nat.not_lt, List.mem_range]
  exact ⟨fun hp => ⟨hp.1, hp.2⟩, fun hp => ⟨hp.count, hp.size⟩⟩

/-- Of two chroma planes that are too short it is the first that is objected to. -/
example : verdict (planeObjections [#[1, 2, 3, 4], #[], #[]] .yuv420p 2 2) =
    some (.planeSize 1 1 0) := by
  decide

theorem checkGeometry_eq (f : Format) (w h : Nat) :
    checkGeometry f w h = guarded (geometryObjections f w h) (.ok ()) := by
  simp only [geometryObjections, guarded_cons, guarded_nil, decide_eq_true_iff, checkGeometry,
    Nat.dvd_iff_mod_eq_zero, not_and_or]
  rfl

theorem checkPlanesFrom_eq (hw : w * h * 4 < 0x10000000000000000) : ∀ (ps : List Plane) (i : Nat),
    checkPlanesFrom f w h ps i = guarded
      ((List.range ps.length).map fun j => planeObjection f w h (i + j) (planeAt ps j)) (.ok ())
  | [], _ => rfl
  | p :: ps, i => by
    have hrest : (fun j => planeObjection f w h (i + j) (planeAt (p :: ps) j)) ∘ Nat.succ =
        fun j => planeObjection f w h (i + 1 + j) (planeAt ps j) := by
      funext j
      rw [Function.comp_apply, Nat.succ_eq_add_one, Nat.add_comm j 1, ← Nat.add_assoc,
        Nat.add_comm 1 j]
      rfl
    rw [List.length_cons, List.range_succ_eq_map, List.map_cons, List.map_map, hrest,
      guarded_cons, ← checkPlanesFrom_eq hw ps (i + 1), checkPlanesFrom,
      Format.planeSize64_eq_ok hw, attempt_ok, bind_eq_of_ok rfl]
    simp only [planeObjection, decide_eq_true_iff]
    rfl

/-- **The plane check** names the first plane that is too short. -/
theorem checkPlanes_eq (hf : Fit f w h) (planes : List Plane) :
    checkPlanes planes f w h = guarded (planeObjections planes f w h) (.ok ()) := by
  rw [checkPlanes, planeObjections, guarded_cons]
  simp only [decide_eq_true_iff]
  split
  · rfl
  · have htake : (planes.take f.planeCount).length = f.planeCount :=
      List.length_take_of_le (by omega)
    rw [checkPlanesFrom_eq hf.2.2.1, htake]
    refine congrArg (guarded · _) (List.map_congr_left fun i hi => ?_)
    rw [Nat.zero_add, planeAt, planeAt, List.getD_eq_getElem?_getD, List.getD_eq_getElem?_getD,
      List.getElem?_take, if_pos (List.mem_range.1 hi)]

theorem checkBuffer_eq (n : Nat) (f : Format) (w h : Nat) :
    checkBuffer n f w h = guarded (bufferObjections n f w h) (.ok ()) := by
  rw [checkBuffer, checkGeometry_eq, guarded_then, bufferObjections, guarded_append]
  refine guarded_congr fun hv => ?_
  have hf := verdict_geometryObjections.1 hv
  rw [Format.frameSize64_eq_ok hf.2.2.1, attempt_ok, bind_eq_of_ok rfl, guarded_cons]
  simp only [decide_eq_true_iff, guarded_nil]
  rfl

/-- **A buffer is split unless something is wrong with it.** -/
theorem split_eq (buffer : Plane) (f : Format) (w h : Nat) :
    split buffer f w h = guarded (bufferObjections buffer.size f w h)
      (.ok ⟨f.planesIn w h buffer, buffer.extract (f.frameSize w h) buffer.size⟩) := by
  cases hv : verdict (bufferObjections buffer.size f w h) with
  | none =>
    obtain ⟨hf, hn⟩ := verdict_bufferObjections.1 hv
    rw [guarded_of_none hv]
    exact split_eq_ok_iff.2 ⟨hf, hn, rfl⟩
  | some why =>
    rw [split, checkBuffer_eq, guarded_of_some hv, guarded_of_some hv]
    rfl

end Checks

namespace Kernel

variable {w h : Nat}

/-- What is wrong with a conversion of planes: its geometry, then the planes. -/
def objections (a b : Format) (w h : Nat) (src dst : List Plane) : List Objection :=
  geometryObjections a w h ++ geometryObjections b w h ++ planeObjections src a w h ++
    planeObjections dst b w h

/-- Nothing is wrong with planes that hold fit frames. -/
theorem verdict_objections {a b : Format} {src dst : List Plane} :
    verdict (objections a b w h src dst) = none ↔
      Fit a w h ∧ Fit b w h ∧ Holds a w h src ∧ Holds b w h dst := by
  simp only [objections, verdict_append_eq_none_iff, verdict_geometryObjections,
    verdict_planeObjections, and_assoc]

/-- The four checks in front of something. -/
theorem checked_eq {α : Type} (k : Kernel) (src dst : List Plane) (w h : Nat) (x : Attempt α) :
    (do
      checkGeometry k.source w h
      checkGeometry k.target w h
      checkPlanes src k.source w h
      checkPlanes dst k.target w h
      x) = guarded (objections k.source k.target w h src dst) x := by
  rw [objections, guarded_append, guarded_append, guarded_append, checkGeometry_eq, guarded_then]
  refine guarded_congr fun ha => ?_
  rw [checkGeometry_eq, guarded_then]
  refine guarded_congr fun hb => ?_
  rw [checkPlanes_eq (verdict_geometryObjections.1 ha), guarded_then]
  refine guarded_congr fun _ => ?_
  rw [checkPlanes_eq (verdict_geometryObjections.1 hb), guarded_then]

/-- **A conversion is refused for the first objection,** whatever the method. -/
theorem converted_eq_guarded (k : Kernel) (src dst : List Plane) (w h : Nat) :
    k.converted src dst w h = guarded (objections k.source k.target w h src dst)
      (attempt (k.method.transfer src dst w h)) :=
  k.checked_eq src dst w h _

/-- **So is a conversion in place,** behind one for the method that there is none of. -/
theorem reworked_eq_guarded (k : Kernel) (planes : List Plane) (w h : Nat) :
    k.reworked planes w h = guarded
      (⟨!k.worksInPlace, .inPlaceUnsupported k.source k.target⟩ ::
        objections k.source k.target w h planes planes)
      (attempt ((k.method.rework?.getD keep) planes w h)) := by
  rw [reworked, guarded_cons, worksInPlace]
  cases k.method.rework? with
  | none => rfl
  | some rework => exact k.checked_eq planes planes w h _

end Kernel

namespace Engine

variable {a b : Format} {k : Kernel}

/-- What is wrong with a pair of formats. -/
def pairObjections (e : Engine) (a b : Format) : List Objection :=
  [⟨!e.supports a b, .unsupported a b⟩]

/-- Nothing is wrong with a registered pair. -/
theorem verdict_pairObjections {e : Engine} :
    verdict (e.pairObjections a b) = none ↔ ∃ k, e.lookup a b = some k := by
  rw [verdict_eq_none_iff, pairObjections, List.forall_mem_singleton, Bool.not_eq_false', supports,
    Option.isSome_iff_exists]

/-- The kernel that any engine has for a pair is for that pair. -/
theorem pair_of_lookup {e : Engine} (hk : e.lookup a b = some k) : k.source = a ∧ k.target = b := by
  have hkey := List.find?_some hk
  exact Kernel.keyOf_injective (beq_iff_eq.1 hkey)

/-- **Nothing is done for a pair without a kernel.** -/
theorem kernel_bind_eq {α : Type} (e : Engine) (a b : Format) (g : Kernel → Attempt α) :
    (e.kernel a b >>= g) = guarded (e.pairObjections a b) (e.kernel a b >>= g) := by
  rw [pairObjections, guarded_cons, guarded_nil, supports, kernel]
  cases e.lookup a b <;> rfl

end Engine

end FrameConvert
