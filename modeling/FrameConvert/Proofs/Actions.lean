/-
# Conversions change memory altogether or not at all

An action keeps what it has written when it fails.  It is atomic all the same if nothing
fails once it has written, and that is a matter of the order of its steps:

| steps | atomic, because |
| --- | --- |
| `write f` | it is one write |
| `look f`, then an atomic action | nothing is written before |
| `x.onPart take put`, `x` atomic | what was taken is put back as it was |
| an atomic action, then `modify` | nothing can fail behind it |

`x.Atomic m r` says what such an action leaves of memory `m`: what the attempt `r` gives, or
`m` if it fails.  So a conversion is described by an attempt (`converted`, `reworked`,
`convertedBuffer`, `reworkedBuffer`) that is told by its checks in their order, and
`convert_eq` and its like say that the conversion is this attempt, all or nothing.
-/

import FrameConvert.Frame

namespace FrameConvert

/-- What is left of memory that is changed altogether or not at all. -/
def Outcome.allOrNothing {Memory : Type} (before : Memory) : Attempt Memory → Outcome Memory
  | .ok after => ⟨after, none⟩
  | .error e => ⟨before, some e⟩

namespace Outcome

variable {Memory : Type} {before after : Memory} {r : Attempt Memory} {e : Failure}

/-- An attempt without a failure has gone through. -/
theorem eq_ok_of_allOrNothing (hr : allOrNothing before r = ⟨after, none⟩) : r = .ok after := by
  cases r with
  | ok a =>
    cases hr
    rfl
  | error e => cases hr

/-- A failure leaves what was there. -/
theorem eq_error_of_allOrNothing (hr : allOrNothing before r = ⟨after, some e⟩) :
    after = before ∧ r = .error e := by
  cases r with
  | ok a => cases hr
  | error e' =>
    cases hr
    exact ⟨rfl, rfl⟩

end Outcome

namespace Action

variable {Memory Part α : Type} {m : Memory} {r : Attempt Memory} {x : Action Memory Unit}

/-- **An action is atomic on `m`:** it leaves there what the attempt gives, or `m` itself with the
attempt's failure. -/
def Atomic (x : Action Memory Unit) (m : Memory) (r : Attempt Memory) : Prop :=
  Outcome.of x m = .allOrNothing m r

/-- What an atomic action does, as a run. -/
theorem Atomic.run (hx : x.Atomic m r) :
    (∃ after, x m = .ok () after ∧ r = .ok after) ∨ ∃ e, x m = .error e m ∧ r = .error e := by
  rw [Atomic, Outcome.of] at hx
  cases hm : x m with
  | ok u after =>
    rw [hm] at hx
    exact .inl ⟨after, rfl, Outcome.eq_ok_of_allOrNothing hx.symm⟩
  | error e after =>
    rw [hm] at hx
    obtain ⟨rfl, hr⟩ := Outcome.eq_error_of_allOrNothing hx.symm
    exact .inr ⟨e, rfl, hr⟩

theorem atomic_write (f : Memory → Checked Memory) (m : Memory) :
    (write f).Atomic m (attempt (f m)) := by
  rw [Atomic, Outcome.of, write]
  cases f m <;> rfl

/-- **Looking writes nothing,** so an action stays atomic behind it. -/
theorem Atomic.look_bind {f : Memory → Attempt α} {x : α → Action Memory Unit}
    {r : α → Attempt Memory} (hx : ∀ a, f m = .ok a → (x a).Atomic m (r a)) :
    (look f >>= x).Atomic m (f m >>= r) := by
  cases hf : f m with
  | ok a =>
    have hrun : (look f >>= x) m = x a m := by
      simp only [bind, EStateM.bind, look, hf]
    rw [Atomic, Outcome.of, hrun]
    exact hx a hf
  | error e =>
    have hrun : (look f >>= x) m = .error e m := by
      simp only [bind, EStateM.bind, look, hf]
    rw [Atomic, Outcome.of, hrun]
    rfl

/-- And behind what does not even look. -/
theorem Atomic.lift_bind {c : Attempt α} {x : α → Action Memory Unit} {r : α → Attempt Memory}
    (hx : ∀ a, c = .ok a → (x a).Atomic m (r a)) :
    ((liftM c : Action Memory α) >>= x).Atomic m (c >>= r) :=
  look_bind hx

/-- Behind a write nothing of the kind holds: what was written stays. -/
example : Outcome.of (do .write fun _ => .ok 1; refuse .zeroSize : Action Nat Unit) 0 =
    ⟨1, some (.refused .zeroSize)⟩ := rfl

theorem atomic_refuse (why : Refusal) :
    (liftM (refuse why : Attempt Unit) : Action Memory Unit).Atomic m (refuse why) := rfl

/-- **A part is put back as it was** where an atomic action on it fails. -/
theorem Atomic.onPart {take : Memory → Part} {put : Part → Memory → Memory}
    {x : Action Part Unit} {r : Attempt Part} (hx : x.Atomic (take m) r)
    (hput : put (take m) m = m) :
    (x.onPart take put).Atomic m (do return put (← r) m) := by
  rw [Atomic, Outcome.of, Action.onPart]
  rcases hx.run with ⟨part, hrun, rfl⟩ | ⟨e, hrun, rfl⟩
  · rw [hrun]
    rfl
  · rw [hrun]
    exact congrArg (Outcome.mk · (some e)) hput

/-- Nothing can fail behind an atomic action if only a change follows. -/
theorem Atomic.then_modify (hx : x.Atomic m r) (g : Memory → Memory) :
    Atomic (do x; modify g) m (do return g (← r)) := by
  rcases hx.run with ⟨after, hrun, rfl⟩ | ⟨e, hrun, rfl⟩
  · rw [Atomic, Outcome.of]
    simp only [bind, EStateM.bind, hrun]
    rfl
  · rw [Atomic, Outcome.of]
    simp only [bind, EStateM.bind, hrun]
    rfl

end Action

open FrameConvert.Action

/-- **An action on the planes of a buffer** is atomic on the buffer if it is on the planes. -/
theorem Split.atomic_onPlanes {buffer : Plane} {f : Format} {w h : Nat} {s : Split}
    {x : Action (List Plane) Unit} {r : Attempt (List Plane)}
    (hs : split buffer f w h = .ok s) (hx : x.Atomic s.planes r) :
    (s.onPlanes x).Atomic buffer (do return unsplit (← r) s.rest) :=
  hx.onPart (m := buffer) (unsplit_split hs)

namespace Kernel

variable {w h : Nat}

/-- The destination planes after a conversion. -/
def converted (k : Kernel) (src dst : List Plane) (w h : Nat) : Attempt (List Plane) := do
  checkGeometry k.source w h
  checkGeometry k.target w h
  checkPlanes src k.source w h
  checkPlanes dst k.target w h
  attempt (k.method.transfer src dst w h)

/-- The planes after a conversion in place. -/
def reworked (k : Kernel) (planes : List Plane) (w h : Nat) : Attempt (List Plane) :=
  match k.method.rework? with
  | none => refuse (.inPlaceUnsupported k.source k.target)
  | some rework => do
    checkGeometry k.source w h
    checkGeometry k.target w h
    checkPlanes planes k.source w h
    checkPlanes planes k.target w h
    attempt (rework planes w h)

/-- **A kernel writes behind its last check.** -/
theorem atomic_converting (k : Kernel) (src dst : List Plane) (w h : Nat) :
    (k.converting src w h).Atomic dst (k.converted src dst w h) :=
  .lift_bind fun _ _ => .lift_bind fun _ _ => .lift_bind fun _ _ => .look_bind fun _ _ =>
    atomic_write (k.method.transfer src · w h) dst

/-- And so it does in place. -/
theorem atomic_reworking (k : Kernel) (planes : List Plane) (w h : Nat) :
    (k.reworking w h).Atomic planes (k.reworked planes w h) := by
  rw [reworking, reworked]
  cases k.method.rework? with
  | none => exact atomic_refuse _
  | some rework =>
    exact .lift_bind fun _ _ => .lift_bind fun _ _ => .look_bind fun _ _ => .look_bind fun _ _ =>
      atomic_write (rework · w h) planes

theorem convert_eq (k : Kernel) (src dst : List Plane) (w h : Nat) :
    k.convert src dst w h = .allOrNothing dst (k.converted src dst w h) :=
  k.atomic_converting src dst w h

theorem convertInPlace_eq (k : Kernel) (planes : List Plane) (w h : Nat) :
    k.convertInPlace planes w h = .allOrNothing planes (k.reworked planes w h) :=
  k.atomic_reworking planes w h

end Kernel

namespace Engine

variable (e : Engine) (a b : Format) (w h : Nat)

/-- The destination buffer after a conversion between buffers. -/
def convertedBuffer (src dst : Plane) : Attempt Plane := do
  let k ← e.kernel a b
  let s ← split src a w h
  let d ← split dst b w h
  return unsplit (← k.converted s.planes d.planes w h) d.rest

/-- The buffer after a conversion of the frame in it where it stands. -/
def reworkedBuffer (buffer : Plane) : Attempt Plane := do
  let s ← split buffer a w h
  let k ← e.kernel a b
  return unsplit (← k.reworked s.planes w h) s.rest

theorem convert_eq (src dst : List Plane) :
    e.convert a b w h src dst =
      .allOrNothing dst (do (← e.kernel a b).converted src dst w h) :=
  Atomic.lift_bind fun k _ => k.atomic_converting src dst w h

theorem convertInPlace_eq (planes : List Plane) :
    e.convertInPlace a b w h planes =
      .allOrNothing planes (do (← e.kernel a b).reworked planes w h) :=
  Atomic.lift_bind fun k _ => k.atomic_reworking planes w h

/-- **The kernel is the last to be asked,** for the splits only look. -/
theorem atomic_convertingBuffer (src dst : Plane) :
    (e.convertingBuffer a b w h src).Atomic dst (e.convertedBuffer a b w h src dst) :=
  .lift_bind fun k _ => .lift_bind fun _ _ => .look_bind fun _ hd =>
    Split.atomic_onPlanes hd (k.atomic_converting _ _ w h)

theorem atomic_reworkingBuffer (buffer : Plane) :
    (e.reworkingBuffer a b w h).Atomic buffer (e.reworkedBuffer a b w h buffer) :=
  .look_bind fun _ hs => .lift_bind fun k _ =>
    Split.atomic_onPlanes hs (k.atomic_reworking _ w h)

theorem convertBuffer_eq (src dst : Plane) :
    e.convertBuffer a b w h src dst = .allOrNothing dst (e.convertedBuffer a b w h src dst) :=
  e.atomic_convertingBuffer a b w h src dst

end Engine

namespace Frame

variable (x : Frame)

/-- An action on the memory of a frame is atomic on the frame. -/
theorem atomic_onData {y : Action Plane Unit} {r : Attempt Plane} (hy : y.Atomic x.data r) :
    (onData y).Atomic x (do return { x with data := ← r }) :=
  hy.onPart rfl

/-- The memory after a byte was set. -/
def written (plane pos : Nat) (value : UInt8) : Attempt Plane := do
  let s ← x.split
  return unsplit (← attempt (onPlane s.planes plane (·.write pos value))) s.rest

theorem write_eq (plane pos : Nat) (value : UInt8) :
    x.write plane pos value =
      .allOrNothing x do return { x with data := ← x.written plane pos value } :=
  x.atomic_onData (.look_bind fun s hs =>
    Split.atomic_onPlanes hs (atomic_write (onPlane · plane (·.write pos value)) s.planes))

theorem writeData_eq (pos : Nat) (bytes : List UInt8) :
    x.writeData pos bytes =
      .allOrNothing x do return { x with data := ← attempt (x.data.writeAll pos bytes) } :=
  x.atomic_onData (atomic_write (·.writeAll pos bytes) x.data)

theorem convertFrom_eq (e : Engine) (a : Format) (src : Plane) :
    x.convertFrom e a src = .allOrNothing x do
      return { x with data := ← e.convertedBuffer a x.format x.width x.height src x.data } :=
  x.atomic_onData (e.atomic_convertingBuffer a x.format x.width x.height src x.data)

theorem convertTo_eq (grants : Nat → Bool) (e : Engine) (b : Format) :
    x.convertTo grants e b = do
      let y ← alloc grants b x.width x.height
      return .allOrNothing y do
        return { y with data := ← e.convertedBuffer x.format b x.width x.height x.data y.data } :=
  congrArg (alloc grants b x.width x.height >>= ·) (funext fun y => congrArg _
    (y.atomic_onData (e.atomic_convertingBuffer x.format b x.width x.height x.data y.data)))

theorem convertInPlace_eq (e : Engine) (b : Format) :
    x.convertInPlace e b = .allOrNothing x do
      let y ← (do return { x with data := ← e.reworkedBuffer x.format b x.width x.height x.data })
      return { y with format := b } :=
  (x.atomic_onData (e.atomic_reworkingBuffer x.format b x.width x.height x.data)).then_modify
    ({ · with format := b })

end Frame
end FrameConvert
