import TransportProxy.Bridge.Ledger

/-! # Who still holds which end

The async side drops its three ends in a fixed order and only between two calls of `poll_write`, so
`owner` tells which of them are alive. In particular nothing enters the send queue any more once the
receiving half is gone.
-/
namespace TransportProxy.Slipstream
open Foundations
set_option autoImplicit false

namespace Bridge

structure Owned (b : Bridge) : Prop where
  recv : b.recvQ.receiver = true ↔ b.owner = .held
  send : b.sendQ.sender = true ↔ b.owner = .held ∨ b.owner = .recvDropped
  wake : b.wakeQ.receiver = true ↔ b.owner ≠ .gone
  writer : b.writer.returned = false → b.owner = .held

theorem Owned.new : Owned Bridge.new := by
  constructor <;> simp [Bridge.new, Writer.returned]

theorem Owned.isClosed_iff {b : Bridge} (h : b.Owned) :
    b.recvQ.isClosed = true ↔ b.owner ≠ .held := by
  rw [ne_eq, ← h.recv, Channel.isClosed]
  simp

theorem Owned.sender_false {b : Bridge} (h : b.Owned) (hs : b.sendQ.sender = false) :
    b.owner ≠ .held := by
  intro ho
  rw [h.send.mpr (.inl ho)] at hs
  cases hs

theorem Owned.congr {b b' : Bridge} (h : b.Owned) (ho : b'.owner = b.owner)
    (hr : b'.recvQ.receiver = b.recvQ.receiver) (hs : b'.sendQ.sender = b.sendQ.sender)
    (hw : b'.wakeQ.receiver = b.wakeQ.receiver)
    (hp : b'.writer.returned = false → b.owner = .held) : b'.Owned where
  recv := by rw [ho, hr, h.recv]
  send := by rw [ho, hs, h.send]
  wake := by rw [ho, hw, h.wake]
  writer := by rw [ho]; exact hp

/-- Only a task that holds the stream offers a chunk. -/
theorem Owned.offers {b : Bridge} (h : b.Owned) {op : AppOp} {toSend : Bytes × ℕ}
    (hw : b.Offers op toSend) : b.owner = .held := by
  obtain ⟨-, -, ho, -, -⟩ | ⟨-, hw⟩ := hw
  · exact ho
  · exact h.writer (by rw [hw]; rfl)

end Bridge

theorem SlipstreamRecvHalf.pollRead_ends (half : SlipstreamRecvHalf)
    (q : Channel Bytes recvCapacity) (remaining : ℕ) :
    (half.pollRead q remaining).2.2.receiver = q.receiver ∧
      (half.pollRead q remaining).2.2.sender = q.sender := by
  unfold pollRead
  by_cases hp : half.pendingOff < half.pending.length
  · simp [hp]
  · rw [if_neg hp]
    obtain ⟨v, rest, -, hq⟩ | ⟨-, -, hq⟩ | ⟨-, -, hq⟩ := q.pollRecv_cases
    · rw [hq]
      cases hv : v.isEmpty <;> simp [hv]
    · rw [hq]
      simp
    · rw [hq]
      simp

namespace Bridge

theorem AppStep.owned {b b' : Bridge} {op : AppOp} {out : List BridgeObs}
    (h : AppStep b op b' out) (ho : b.Owned) : b'.Owned := by
  cases h with
  | @read remaining data half q hh hr | @readPending remaining half q hh hr =>
    have he := b.recvHalf.pollRead_ends b.recvQ remaining
    rw [hr] at he
    exact ho.congr rfl he.1 rfl rfl ho.writer
  | wrote | writeClosed | wakeClosed | wakeWait => exact ho.congr rfl rfl rfl rfl nofun
  | writeFull hw => exact ho.congr rfl rfl rfl rfl fun _ => ho.offers hw
  | wakeToken hw => exact ho.congr rfl rfl rfl rfl fun _ => ho.writer (by rw [hw]; rfl)
  | flush | shutdownLost => exact ho
  | shutdown => exact ho.congr rfl rfl rfl rfl ho.writer
  | dropRecv hw hh =>
    refine ⟨by simp, ?_, ?_, by simp [hw]⟩
    · simpa [hh] using ho.send
    · simpa [hh] using ho.wake
  | dropSend hw hh =>
    refine ⟨?_, by simp, ?_, by simp [hw]⟩
    · simpa [hh] using ho.recv
    · simpa [hh] using ho.wake
  | dropWake hw hh =>
    refine ⟨?_, ?_, by simp, by simp [hw]⟩
    · simpa [hh] using ho.recv
    · simpa [hh] using ho.send

/-! ## The ends of the packet loop -/

theorem AppStep.loopEnds {b b' : Bridge} {op : AppOp} {out : List BridgeObs}
    (h : AppStep b op b' out) : b'.recvQ.sender = b.recvQ.sender ∧
      b'.sendQ.receiver = b.sendQ.receiver ∧ b'.wakeQ.sender = b.wakeQ.sender := by
  cases h with
  | @read remaining data half q hh hr | @readPending remaining half q hh hr =>
    have he := b.recvHalf.pollRead_ends b.recvQ remaining
    rw [hr] at he
    exact ⟨he.2, rfl, rfl⟩
  | _ => exact ⟨rfl, rfl, rfl⟩

end Bridge

def LoopOp.drops : LoopOp → Bool
  | .dropRecvTx | .dropSendRx | .dropWakeTx => true
  | _ => false

namespace Bridge

theorem LoopStep.loopEnds {b b' : Bridge} {op : LoopOp} {out : List BridgeObs}
    (h : LoopStep b op b' out) (hop : op.drops = false) : b'.recvQ.sender = b.recvQ.sender ∧
      b'.sendQ.receiver = b.sendQ.receiver ∧ b'.wakeQ.sender = b.wakeQ.sender := by
  cases h with
  | dropRecvTx | dropSendRx | dropWakeTx | dropWakeTxWoken => cases hop
  | _ => exact ⟨rfl, rfl, rfl⟩

theorem LoopStep.owned {b b' : Bridge} {op : LoopOp} {out : List BridgeObs}
    (h : LoopStep b op b' out) (ho : b.Owned) : b'.Owned := by
  cases h <;> exact ho.congr rfl rfl rfl rfl ho.writer

theorem LoopStep.owner {b b' : Bridge} {op : LoopOp} {out : List BridgeObs}
    (h : LoopStep b op b' out) : b'.owner = b.owner := by
  cases h <;> rfl

theorem LoopStep.writer {b b' : Bridge} {op : LoopOp} {out : List BridgeObs}
    (h : LoopStep b op b' out) : b'.sendHalf = b.sendHalf ∧ b'.writer = b.writer := by
  cases h <;> exact ⟨rfl, rfl⟩

theorem step_owned {b b' : Bridge} {op : BridgeOp} {out : List BridgeObs} (ho : b.Owned)
    (h : machine.step b op = some (b', out)) : b'.Owned := by
  cases op with
  | app op => exact (app_cases h).owned ho
  | loop op => exact (loop_cases (Option.some.inj h)).owned ho

theorem owned_run {b b' : Bridge} {ops : List BridgeOp} {tr : List BridgeObs} (ho : b.Owned)
    (h : machine.run b ops = some (b', tr)) : b'.Owned :=
  Machine.run_invariant Owned (fun _ _ _ _ ho _ hs => step_owned ho hs) h (Machine.Along.true _ _)
    ho

theorem not_held_step {b b' : Bridge} {op : BridgeOp} {out : List BridgeObs}
    (ho : b.owner ≠ .held) (h : machine.step b op = some (b', out)) : b'.owner ≠ .held := by
  cases op with
  | app op => cases app_cases h <;> first | exact ho | nofun
  | loop op =>
    rw [(loop_cases (Option.some.inj h)).owner]
    exact ho

/-- What enters the send queue is put there by a task that holds the stream. -/
theorem held_of_queued {b b' : Bridge} {op : BridgeOp} {out : List BridgeObs} (ho : b.Owned)
    (h : machine.step b op = some (b', out)) (hq : queued out ≠ []) : b.owner = .held := by
  cases op with
  | app op =>
    cases app_cases h with
    | wrote hw => exact ho.offers hw
    | shutdown hh => exact hh
    | _ => exact absurd rfl hq
  | loop op => exact absurd (loop_cases (Option.some.inj h)).queued hq

end Bridge
end TransportProxy.Slipstream
