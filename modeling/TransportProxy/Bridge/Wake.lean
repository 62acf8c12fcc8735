import TransportProxy.Bridge.Ownership

/-! # The wake-up protocol

A writer that finds the send queue full parks on the wake queue, and the packet loop leaves a token
there some time after it has taken an entry. Between the two the packet loop owes a token: `WakeInv`
says that a writer without a token is never parked, or about to park, at a queue with room unless
one is owed. What counts as owing differs between the client and the server, so it is a parameter;
the laws below say what each operation asks of it:

* an entry may only be taken by a side that then owes a token;
* an attempt to leave a token settles every debt, because even a full wake queue holds tokens.
-/
namespace TransportProxy.Slipstream
open Foundations
set_option autoImplicit false

/-- Parked, or inside a call that is about to look for a token. -/
def Writer.waiting : Writer → Bool
  | .full | .parked => true
  | .idle | .retry _ => false

namespace Bridge

structure WakeInv (owed : Prop) (b : Bridge) : Prop where
  covered : b.owner = .held → b.sendQ.receiver = true → b.writer.waiting = true →
    b.wakeQ.buf = [] → b.sendQ.buf.length = sendCapacity ∨ owed
  /-- a parked writer without a token is registered -/
  registered : b.wakeQ.sender = true → b.writer = .parked → b.wakeQ.buf = [] →
    b.wakeQ.waker = true
  /-- a registered writer has no token: the first one wakes it -/
  fresh : b.wakeQ.waker = true → b.wakeQ.buf = []

variable {owed owed' : Prop} {b b' : Bridge}

theorem WakeInv.new : WakeInv owed Bridge.new := by
  constructor <;> simp [Bridge.new, Writer.waiting]

theorem WakeInv.mono (h : WakeInv owed b) (ho : owed → owed') : WakeInv owed' b where
  covered hh hr hw hb := (h.covered hh hr hw hb).imp_right ho
  registered := h.registered
  fresh := h.fresh

theorem WakeInv.congr (h : WakeInv owed b) (ho : b'.owner = .held → b.owner = .held)
    (hs : b'.sendQ.buf = b.sendQ.buf) (hr : b'.sendQ.receiver = true → b.sendQ.receiver = true)
    (hw : b'.wakeQ = b.wakeQ) (hp : b'.writer = b.writer) : WakeInv owed b' where
  covered hh hr' hw' hb := by
    rw [hs]
    rw [hp] at hw'
    rw [hw] at hb
    exact h.covered (ho hh) (hr hr') hw' hb
  registered := by rw [hw, hp]; exact h.registered
  fresh := by rw [hw]; exact h.fresh

theorem AppStep.wakeInv {op : AppOp} {out : List BridgeObs} (h : AppStep b op b' out)
    (hi : WakeInv owed b) : WakeInv owed b' := by
  cases h with
  | read | readPending => exact hi.congr id rfl id rfl rfl
  | wrote | writeClosed | wakeClosed => exact ⟨nofun, nofun, hi.fresh⟩
  | writeFull hw hr hb => exact ⟨fun _ _ _ _ => .inl hb, nofun, hi.fresh⟩
  | wakeToken hw hp hb =>
    refine ⟨nofun, nofun, fun hk => ?_⟩
    rw [hi.fresh hk] at hb
    cases hb
  | wakeWait hw hb hs =>
    exact ⟨fun hh hr _ _ => hi.covered hh hr (by rw [hw]; rfl) hb, fun _ _ _ => rfl, fun _ => hb⟩
  | flush | shutdownLost => exact hi
  | shutdown ho hw hr hb =>
    -- the marker fits, so the queue was not full and a token was owed
    refine ⟨fun hh _ hp hn => .inr ?_, hi.registered, hi.fresh⟩
    exact (hi.covered hh hr hp hn).resolve_left (Nat.ne_of_lt hb)
  | dropRecv | dropSend => exact hi.congr nofun rfl id rfl rfl
  | dropWake hw ho => exact ⟨nofun, hi.registered, hi.fresh⟩

/-- Taking an entry needs a debt. -/
theorem WakeInv.sendTryRecv (hi : WakeInv owed b) (ho : owed → owed')
    (hv : ∀ v, b.sendTryRecv.1 = .ok v → owed') : WakeInv owed' b.sendTryRecv.2.1 := by
  obtain ⟨v, rest, -, h⟩ | ⟨-, -, h⟩ | ⟨-, -, h⟩ := b.sendTryRecv_cases
  · have hd : owed' := hv v (by rw [h])
    rw [h]
    exact ⟨fun _ _ _ _ => .inr hd, hi.registered, hi.fresh⟩
  · rw [h]
    exact hi.mono ho
  · rw [h]
    exact hi.mono ho

theorem wakeTrySend_buf (ho : b.Owned) (hh : b.owner = .held) :
    b.wakeTrySend.1.wakeQ.buf ≠ [] := by
  have hr : b.wakeQ.receiver = true := ho.wake.mpr (by rw [hh]; nofun)
  obtain ⟨-, _, h⟩ | ⟨hf | hf, h⟩ := b.wakeTrySend_cases
  · simp [h]
  · rw [hr] at hf
    cases hf
  · rw [h]
    intro hn
    rw [hn] at hf
    cases hf

/-- Leaving a token settles every debt. -/
theorem WakeInv.wakeTrySend (hi : WakeInv owed b) (ho : b.Owned) :
    WakeInv owed' b.wakeTrySend.1 := by
  have hb := wakeTrySend_buf (b := b) ho
  obtain ⟨-, _, h⟩ | ⟨-, h⟩ := b.wakeTrySend_cases
  · rw [h] at hb ⊢
    exact ⟨fun hh _ _ hn => absurd hn (hb hh), fun _ _ hn => by simp at hn, nofun⟩
  · rw [h] at hb ⊢
    exact ⟨fun hh _ _ hn => absurd hn (hb hh), hi.registered, hi.fresh⟩

theorem WakeInv.recvTrySend (hi : WakeInv owed b) (v : Bytes) :
    WakeInv owed (b.recvTrySend v).1 := by
  obtain ⟨-, _, h⟩ | ⟨-, h⟩ := b.recvTrySend_cases v
  · rw [h]
    exact hi.congr id rfl id rfl rfl
  · rwa [h]

theorem WakeInv.dropRecvTx (hi : WakeInv owed b) : WakeInv owed b.dropRecvTx :=
  hi.congr id rfl id rfl rfl

theorem WakeInv.dropSendRx (hi : WakeInv owed b) : WakeInv owed b.dropSendRx :=
  ⟨fun _ hr => absurd hr Bool.false_ne_true, hi.registered, hi.fresh⟩

theorem WakeInv.dropWakeTx (hi : WakeInv owed b) : WakeInv owed b.dropWakeTx.1 :=
  ⟨hi.covered, nofun, nofun⟩

/-! ## A registered writer stays registered until it is woken -/

theorem step_waker {op : BridgeOp} {out : List BridgeObs}
    (h : machine.step b op = some (b', out)) (hi : WakeInv owed b) (hw : b.wakeQ.waker = true) :
    b'.wakeQ.waker = true ∨ BridgeObs.woken ∈ out := by
  cases op with
  | app op =>
    cases app_cases h with
    | wakeToken hp hs hb =>
      rw [hi.fresh hw] at hb
      cases hb
    | wakeWait => exact .inl rfl
    | _ => exact .inl hw
  | loop op =>
    cases loop_cases (Option.some.inj h) with
    | tokenWoken | dropWakeTxWoken => exact .inr (by simp)
    | token hr hb hn | dropWakeTx hn =>
      rw [hw] at hn
      cases hn
    | _ => exact .inl hw

end Bridge
end TransportProxy.Slipstream
