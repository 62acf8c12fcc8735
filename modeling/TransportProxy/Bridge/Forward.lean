import TransportProxy.Bridge.Receive

/-! # What a task can always do

A read of a path with something in it takes it, and a call of `poll_write` in progress goes on: what
it unwraps is there, and with room in the queue its chunk is queued.
-/
namespace TransportProxy.Slipstream
open Foundations
set_option autoImplicit false

namespace Bridge

/-! ## Reading -/

theorem AppStep.reads_only {b b' : Bridge} {n : ℕ} {out : List BridgeObs}
    (h : AppStep b (.pollRead n) b' out) : Slipstream.queued out = [] ∧ b'.owner = b.owner := by
  cases h with
  | read | readPending => exact ⟨rfl, rfl⟩
  | wrote hw | writeClosed hw | writeFull hw => exact absurd hw not_offers_pollRead

/-- Where `poll_write` goes on to wait for a token, `pending_send` holds a chunk. -/
def Poised (b : Bridge) : Prop := b.writer = .full → b.sendHalf.pendingSend ≠ none

theorem Poised.new : Poised Bridge.new := nofun

theorem Poised.step {b b' : Bridge} {op : BridgeOp} {out : List BridgeObs} (hi : Poised b)
    (h : machine.step b op = some (b', out)) : Poised b' := by
  cases op with
  | app op =>
    cases app_cases h with
    | writeFull => exact fun _ => Option.some_ne_none _
    | wrote | writeClosed | wakeToken | wakeClosed | wakeWait => exact nofun
    | _ => exact hi
  | loop op =>
    have hw := (loop_cases (Option.some.inj h)).writer
    rw [Poised, hw.1, hw.2]
    exact hi

variable {b : Bridge}

end Bridge
end TransportProxy.Slipstream
