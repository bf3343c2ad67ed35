/-
# Acts on a machine

On a machine that is known, an act ends in a value or a stop and leaves a world
(`Machine.run`).  An act after another starts from the world that the first leaves, and
only if that does not stop (`run_bind_of_ok`, `run_bind_of_error`); what a single act does
is read off the machine.
-/

import FrameConvert.Demo.Host

namespace FrameConvert
namespace Demo
namespace Machine

variable {x : Machine} {w w' : World} {α β ε : Type} {act : Act (StateM World) α} {a : α}
  {stop : Stop} {d d' : Disk} {lines : List String} {n : Nat}

theorem run_bind_of_ok (hact : run act w = (.ok a, w')) (next : α → Act (StateM World) β) :
    run (act >>= next) w = run (next a) w' := by
  simp only [run, ExceptT.run, StateT.run] at hact ⊢
  simp only [bind, ExceptT.bind, ExceptT.mk, StateT.bind, hact, ExceptT.bindCont]

theorem run_bind_of_error (hact : run act w = (.error stop, w'))
    (next : α → Act (StateM World) β) : run (act >>= next) w = (.error stop, w') := by
  simp only [run, ExceptT.run, StateT.run] at hact ⊢
  simp only [bind, ExceptT.bind, ExceptT.mk, StateT.bind, hact, ExceptT.bindCont]
  rfl

theorem run_ofExcept_ok (f : ε → Stop) (a : α) (w : World) :
    run (Act.ofExcept f (.ok a)) w = (.ok a, w) := rfl

theorem run_ofExcept_error (f : ε → Stop) (e : ε) (w : World) :
    run (Act.ofExcept f (.error e) : Act (StateM World) α) w = (.error (f e), w) := rfl

/-- What the host does is done, and does not stop. -/
theorem run_liftM (act : StateM World α) (w : World) :
    run (liftM act) w = (.ok (act w).1, (act w).2) := rfl

theorem run_environment (x : Machine) (w : World) :
    run (liftM x.host.environment) w = (.ok x.environment, w) := rfl

theorem run_read (x : Machine) (name : String) (w : World) :
    run (liftM (x.host.read name)) w = (.ok (w.disk.read name), w) := rfl

theorem run_print (x : Machine) (line : String) :
    run (liftM (x.host.print line)) ⟨d, lines, n⟩ = (.ok (), ⟨d, lines ++ [line], n⟩) := rfl

theorem run_timed (x : Machine) (work : Unit → α) :
    run (liftM (x.host.timed work)) ⟨d, lines, n⟩ =
      (.ok (work (), x.times n), ⟨d, lines, n + 1⟩) := rfl

theorem run_write (x : Machine) {name : String} {bytes : Plane}
    (hwrite : d.write name bytes = .ok d') :
    run (liftM (x.host.write name bytes)) ⟨d, lines, n⟩ = (.ok (.ok ()), ⟨d', lines, n⟩) := by
  have hhost : x.host.write name bytes ⟨d, lines, n⟩ = (.ok (), ⟨d', lines, n⟩) := by
    dsimp only [host]
    rw [hwrite]
  rw [run_liftM, hhost]

end Machine
end Demo
end FrameConvert
