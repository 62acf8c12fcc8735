import TransportProxy.Bridge.Wake
import TransportProxy.Server.Links

/-! # The server wakes its writers

The server leaves one token for every entry it takes, right after the call that hands it over, so it
owes a token to a writer only in between.
-/
namespace TransportProxy.Slipstream
open Foundations
set_option autoImplicit false

namespace Server

def Owes (s : Server) (j : ℕ) : Prop :=
  match s.pc with
  | .wake now _ => now.2.index = j
  | _ => False

structure WakeInv (s : Server) (j : ℕ) : Prop where
  owned : (s.stream j).Owned
  wake : (s.stream j).WakeInv (s.Owes j)

theorem WakeInv.init (j : ℕ) : WakeInv init j := by
  constructor
  · simpa [Server.init, stream] using Bridge.Owned.new
  · simpa [Server.init, stream] using Bridge.WakeInv.new

theorem WakeInv.settled {s : Server} {j : ℕ} (h : WakeInv s j) (hn : ¬ s.Owes j) :
    (s.stream j).WakeInv False := h.wake.mono hn

theorem Step.wakeInv {s s' : Server} {e : ServerEvent} {out : List ServerObs} {j : ℕ}
    (h : Step s e s' out) (hl : Linked s) (hi : WakeInv s j) : WakeInv s' j := by
  refine ⟨h.owned hi.owned, ?_⟩
  have hw := hi.wake
  cases h with
  | @app i op b b' bout hb ha h =>
    obtain ⟨hg, hlt⟩ := getD_of_getElem? hb
    by_cases hij : i = j
    · subst hij
      rw [stream, getD_set_self hlt]
      rw [stream, hg] at hw
      exact (Bridge.app_cases h).wakeInv hw
    · rw [stream, getD_set_ne hij]
      exact hw
  | accept | ignored | noop | unlink => exact hw
  | drainStart hp | drainEnd hp | drainNext hp =>
    exact (hi.settled (by simp [Owes, hp])).mono False.elim
  | openEmpty hp | openChunk hp =>
    rw [stream, getD_append_new]
    exact (hi.settled (by simp [Owes, hp])).mono False.elim
  | unlinkStream hp hc hst =>
    have hn := hi.settled (by simp [Owes, hp])
    exact loopAt_rule (hl.lt hst) (fun _ => hn.mono False.elim) fun _ =>
      hn.dropRecvTx.mono False.elim
  | @push cb i v hp hv =>
    obtain ⟨-, -, -, -, hlt⟩ := hl.pushed_lt hv
    exact loopAt_rule hlt (fun _ => hw) fun _ => hw.recvTrySend v
  | @firstChunk ret i v hp =>
    have hn := hi.settled (by simp [Owes, hp])
    exact loopAt_rule (hl.first_lt hp) (fun _ => hn.mono False.elim) fun _ =>
      (hn.recvTrySend v).mono False.elim
  | @drained ret now todo b data hp hb hd =>
    obtain ⟨hg, hlt⟩ := getD_of_getElem? hb
    have hn := hi.settled (by simp [Owes, hp])
    by_cases hij : now.2.index = j
    · subst hij
      rw [stream, hg] at hn
      rw [stream, getD_set_self hlt]
      exact ⟨fun _ _ _ _ => .inr rfl, hn.registered, hn.fresh⟩
    · rw [stream, getD_set_ne hij]
      exact hn.mono False.elim
  | @token ret now todo hp =>
    -- the one owed a token gets it, and nobody else is owed one
    refine loopAt_rule (hl.wake_lt hp) (fun hne => ?_) fun _ => hw.wakeTrySend hi.owned
    exact (hi.settled (by simp [Owes, hp, hne])).mono False.elim
  | @dropSendRx ret i hp =>
    have hn := hi.settled (by simp [Owes, hp])
    exact loopAt_rule (hl.drop_lt (by rw [hp]; rfl)) (fun _ => hn.mono False.elim) fun _ =>
      hn.dropSendRx.mono False.elim
  | @dropWakeTx ret i hp =>
    have hn := hi.settled (by simp [Owes, hp])
    exact loopAt_rule (hl.drop_lt (by rw [hp]; rfl)) (fun _ => hn.mono False.elim) fun _ =>
      hn.dropWakeTx.mono False.elim

theorem wakeInv_run {s : Server} {es : List ServerEvent} {tr : List ServerObs}
    (hr : machine.run init es = some (s, tr)) (j : ℕ) : WakeInv s j :=
  (Machine.run_invariant (fun s => Linked s ∧ WakeInv s j)
    (fun _ _ _ _ hi _ hs => ⟨(step_cases hs).linked hi.1, (step_cases hs).wakeInv hi.1 hi.2⟩)
    hr (Machine.Along.true _ _) ⟨.init, .init j⟩).2

theorem Step.waker {s s' : Server} {e : ServerEvent} {out : List ServerObs} {j : ℕ} {owed : Prop}
    (h : Step s e s' out) (hi : (s.stream j).WakeInv owed)
    (hw : (s.stream j).wakeQ.waker = true) :
    (s'.stream j).wakeQ.waker = true ∨ BridgeObs.woken ∈ bridgeTrace j out := by
  obtain ⟨hb, -⟩ | ⟨op, hop⟩ := h.bridge j
  · rw [hb]
    exact .inl hw
  · exact Bridge.step_waker hop hi hw

theorem Step.owes {s s' : Server} {e : ServerEvent} {out : List ServerObs} {j : ℕ}
    (h : Step s e s' out) (hl : Linked s) (hd : s.Owes j) (ho : (s.stream j).Owned)
    (hh : (s'.stream j).owner = .held) : s'.Owes j ∨ (s'.stream j).wakeQ.buf ≠ [] := by
  have hpc : ∃ now todo, s.pc = .wake now todo ∧ now.2.index = j := by
    unfold Owes at hd
    cases hp : s.pc with
    | wake now todo =>
      rw [hp] at hd
      exact ⟨now, todo, rfl, hd⟩
    | _ => simp [hp] at hd
  obtain ⟨now, todo, hp, rfl⟩ := hpc
  cases h with
  | app | accept => exact .inl hd
  | @token ret now' todo' hp' =>
    obtain ⟨rfl, -⟩ := ServerPc.wake.inj (hp.symm.trans hp')
    have hself := (loopAt_self .wakeTrySend (hl.wake_lt hp)).1
    rw [stream, hself] at hh ⊢
    rw [(Bridge.loop_step _ _).owner] at hh
    exact .inr (Bridge.wakeTrySend_buf ho hh)
  | unlink hp' | unlinkStream hp' | openEmpty hp' | openChunk hp' | push hp' | ignored hp'
  | noop hp' | drainStart hp' | firstChunk hp' | drainEnd hp' | drained hp' | drainNext hp'
  | dropSendRx hp' | dropWakeTx hp' =>
    rw [hp] at hp'
    cases hp'

/-- A writer registered while it is owed a token is woken by the time it is not owed one. -/
theorem woken_of_owes {s t : Server} {fs : List ServerEvent} {tr : List ServerObs} {j : ℕ}
    (hr : machine.run s fs = some (t, tr)) (hl : Linked s) (hi : WakeInv s j) (hd : s.Owes j)
    (hw : (s.stream j).wakeQ.waker = true) (ht : ¬ t.Owes j)
    (hh : (t.stream j).owner = .held) : BridgeObs.woken ∈ bridgeTrace j tr := by
  have hrun := Machine.run_until (M := machine) (I := fun t => Linked t ∧ WakeInv t j)
    (P := fun t => (t.stream j).wakeQ.waker = true ∧ t.Owes j)
    (L := fun t => (t.stream j).owner ≠ .held)
    (D := fun tr => BridgeObs.woken ∈ bridgeTrace j tr)
    (fun t u h => by rwa [bridgeTrace_append, List.mem_append])
    (fun _ _ _ _ hi hs => ⟨(step_cases hs).linked hi.1, (step_cases hs).wakeInv hi.1 hi.2⟩)
    (fun _ _ _ _ h hs => (step_cases hs).not_held h) ?_ hr ⟨hl, hi⟩ ⟨hw, hd⟩
  · obtain h | h | ⟨-, h⟩ := hrun
    · exact h
    · exact absurd hh h
    · exact absurd h ht
  · rintro s e s' out ⟨hl, hi⟩ ⟨hw, hd⟩ hs
    have hst := step_cases hs
    by_cases hh : (s'.stream j).owner = .held
    · obtain hw' | hw' := hst.waker hi.wake hw
      · have hfresh := (hst.wakeInv hl hi).wake.fresh hw'
        exact .inr (.inr ⟨hw', (hst.owes hl hd hi.owned hh).resolve_right (· hfresh)⟩)
      · exact .inl hw'
    · exact .inr (.inl hh)

end Server
end TransportProxy.Slipstream
