import TransportProxy.Bridge.Wake
import TransportProxy.Client.Steps

/-! # The client wakes its writer

The client owes a token while it drains, and from the TIME_CHECK that peeks an entry, which leaves
no token, to the callback that hands the entry over. Every callback that takes an entry ends with an
attempt to leave a token, so at its end no writer is left parked.
-/
namespace TransportProxy.Slipstream
open Foundations
set_option autoImplicit false

namespace Client

def Owes (s : Client) : Prop := s.pc.draining = true ∨ s.ctx.peekBuf.isSome = true

structure WakeInv (s : Client) : Prop where
  owned : s.bridge.Owned
  wake : s.bridge.WakeInv s.Owes

theorem WakeInv.init : WakeInv init := ⟨.new, .new⟩

theorem Owes.mono {s s' : Client} (hp : s.pc.draining = true → s'.pc.draining = true)
    (hb : s'.ctx.peekBuf = s.ctx.peekBuf) : s.Owes → s'.Owes := by
  rintro (h | h)
  · exact .inl (hp h)
  · exact .inr (by rw [hb, h])

theorem Step.wakeInv {s s' : Client} {e : ClientEvent} {out : List ClientObs}
    (h : Step s e s' out) (hi : WakeInv s) : WakeInv s' := by
  refine ⟨h.owned hi.owned, ?_⟩
  have hw := hi.wake
  cases h with
  | app h => exact (Bridge.app_cases h).wakeInv hw
  | readyFailed | ready | ignored | noop => exact hw.mono (Owes.mono id rfl)
  | chunk => exact (hw.recvTrySend _).mono (Owes.mono id rfl)
  | timeCheck hp | afterStop hp | checked hp | peekClosed hp | afterClose hp | dropReadyTx hp =>
    exact hw.mono (Owes.mono (by rw [hp]; nofun) rfl)
  | afterPeek => exact hw.mono fun _ => .inl rfl
  | peeked hp hr hn hb =>
    obtain ⟨-, rfl⟩ := Bridge.sendTryRecv_ok hb
    have hs := hw.sendTryRecv (fun _ => trivial) (fun _ _ => trivial)
    rw [hb] at hs
    exact hs.mono fun _ => .inr rfl
  | @drained ret data b hp hb =>
    have hs := hw.sendTryRecv (fun _ => trivial) (fun _ _ => trivial)
    rw [hb] at hs
    apply hs.mono
    intro _
    left
    simp only
    split <;> rfl
  | drainEmpty | drainClosed => exact hw.mono fun _ => .inl rfl
  | wakeFirst | wakeLast => exact hw.wakeTrySend hi.owned
  | dropSendRx hp => exact hw.dropSendRx.mono (Owes.mono (by rw [hp]; nofun) rfl)
  | dropWakeTx hp => exact hw.dropWakeTx.mono (Owes.mono (by rw [hp]; nofun) rfl)
  | loopReturn hp =>
    refine hw.dropRecvTx.mono (Owes.mono ?_ rfl)
    obtain hp | hp := hp <;> rw [hp] <;> nofun

theorem wakeInv_run {es : List ClientEvent} {s : Client} {tr : List ClientObs}
    (hr : machine.run init es = some (s, tr)) : WakeInv s :=
  Machine.run_invariant WakeInv (fun _ _ _ _ hi _ hs => (step_cases hs).wakeInv hi) hr
    (Machine.Along.true _ _) .init

/-- A callback that has taken an entry leaves a token before it is over. -/
theorem Step.waker {s s' : Client} {e : ClientEvent} {out : List ClientObs} {owed : Prop}
    (h : Step s e s' out) (hi : s.bridge.WakeInv owed) (hw : s.bridge.wakeQ.waker = true) :
    s'.bridge.wakeQ.waker = true ∨ BridgeObs.woken ∈ bridgeTrace out := by
  obtain ⟨hb, -⟩ | ⟨op, hop⟩ := h.bridge
  · rw [hb]
    exact .inl hw
  · exact Bridge.step_waker hop hi hw

theorem Step.draining {s s' : Client} {e : ClientEvent} {out : List ClientObs}
    (h : Step s e s' out) (hd : s.pc.draining = true) (ho : s.bridge.Owned)
    (hh : s'.bridge.owner = .held) : s'.pc.draining = true ∨ s'.bridge.wakeQ.buf ≠ [] := by
  cases h with
  | app | wakeFirst | drainEmpty | drainClosed => first | exact .inl hd | exact .inl rfl
  | drained =>
    left
    simp only
    split <;> rfl
  | wakeLast =>
    refine .inr (Bridge.wakeTrySend_buf ho ?_)
    rwa [← (s.bridge.loop_step .wakeTrySend).owner]
  | loopReturn hp => obtain hp | hp := hp <;> rw [hp] at hd <;> cases hd
  | readyFailed hp | ready hp | chunk hp | ignored hp =>
    rw [LoopPc.draining_of_calm hp] at hd
    cases hd
  | noop hp | timeCheck hp | afterStop hp
  | afterClose hp | afterPeek hp | checked hp | peeked hp | peekClosed hp | dropSendRx hp
  | dropWakeTx hp | dropReadyTx hp =>
    rw [hp] at hd
    cases hd

/-- A writer registered while the client drains is woken by the time the callback is over. -/
theorem woken_of_draining {s t : Client} {fs : List ClientEvent} {tr : List ClientObs}
    (hr : machine.run s fs = some (t, tr)) (hi : WakeInv s) (hd : s.pc.draining = true)
    (hw : s.bridge.wakeQ.waker = true) (ht : t.pc.draining = false)
    (hh : t.bridge.owner = .held) : BridgeObs.woken ∈ bridgeTrace tr := by
  have hrun := Machine.run_until (M := machine) (I := WakeInv)
    (P := fun t => t.bridge.wakeQ.waker = true ∧ t.pc.draining = true)
    (L := fun t => t.bridge.owner ≠ .held) (D := fun tr => BridgeObs.woken ∈ bridgeTrace tr)
    (fun t u h => by rwa [bridgeTrace_append, List.mem_append])
    (fun _ _ _ _ hi hs => (step_cases hs).wakeInv hi)
    (fun _ _ _ _ h hs => (step_cases hs).not_held h) ?_ hr hi ⟨hw, hd⟩
  · obtain h | h | ⟨-, h⟩ := hrun
    · exact h
    · exact absurd hh h
    · rw [ht] at h
      cases h
  · rintro s e s' out hi ⟨hw, hd⟩ hs
    have hst := step_cases hs
    by_cases hh : s'.bridge.owner = .held
    · obtain hw' | hw' := hst.waker hi.wake hw
      · have hb := (hst.draining hd hi.owned hh).resolve_right (· ((hst.wakeInv hi).wake.fresh hw'))
        exact .inr (.inr ⟨hw', hb⟩)
      · exact .inl hw'
    · exact .inr (.inl hh)

end Client
end TransportProxy.Slipstream
