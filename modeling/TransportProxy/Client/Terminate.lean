import TransportProxy.Client.Handshake

/-! # The client's packet loop ends

Once a close is requested, every AFTER_* callback ends the packet loop or counts one more tick, and
the ticks run out. A connection that is reported closed, or that never was, is not waited for.
-/
namespace TransportProxy.Slipstream
open Foundations
set_option autoImplicit false

/-- The packet loop was asked to terminate, or has returned. -/
def LoopPc.over : LoopPc → Bool
  | .terminated | .dropSendRx | .dropWakeTx | .dropReadyTx | .exited => true
  | _ => false

theorem LoopPc.not_over_afterClose {c : Prop} [Decidable c]
    (h : (if c then terminated else idle).over = false) : ¬ c := by
  intro hc
  rw [if_pos hc] at h
  cases h

def Terminates (tr : List ClientObs) : Prop := .returned picoquicNoErrorTerminatePacketLoop ∈ tr

namespace Client

/-- With a close requested, an AFTER_* callback terminates the loop or counts a tick. -/
theorem Step.closing {s s' : Client} {e : ClientEvent} {out : List ClientObs}
    (h : Step s e s' out) (he : e.isAfter = true) (hc : s.ctx.shouldClose = true) :
    s.pc = .idle ∧ (Terminates out ∨
      s.ctx.closeWaitTicks.toNat ≤ 5000 ∧ s.ctx.disconnected = false ∧ s.ctx.cnx ≠ 0) ∧
    (s'.pc.over = false → s.ctx.closeWaitTicks.toNat ≤ 5000 ∧
      s'.ctx.closeWaitTicks.toNat = s.ctx.closeWaitTicks.toNat + 1) := by
  cases h with
  | @noop cbMode arg ret out hp hn ha =>
    have hm : cbMode = picoquicPacketLoopAfterReceive ∨ cbMode = picoquicPacketLoopAfterSend := by
      simpa [ClientEvent.isAfter] using he
    rw [(ha hm).1] at hc
    cases hc
  | @timeCheck cbMode arg ret hp hm =>
    rw [hm] at he
    cases he
  | afterStop hp => exact ⟨hp, .inl (List.mem_singleton_self _), nofun⟩
  | afterClose hp _ hm hd hn =>
    refine ⟨hp, ?_, fun ho => ?_⟩
    · by_cases ht : s.ctx.closeWaitTicks > 5000
      · exact .inl (List.mem_append_right _ (by rw [if_pos ht]; exact List.mem_singleton_self _))
      · exact .inr ⟨Nat.le_of_not_lt ht, hd, hn⟩
    · have hle : s.ctx.closeWaitTicks.toNat ≤ 5000 :=
        Nat.le_of_not_lt (LoopPc.not_over_afterClose ho)
      refine ⟨hle, ?_⟩
      show (s.ctx.closeWaitTicks + 1).toNat = _
      rw [UInt32.toNat_add]
      have h1 : (1 : UInt32).toNat = 1 := rfl
      omega
  | afterPeek hp hn =>
    rw [hn] at hc
    cases hc
  | _ => cases he

/-- No other step counts, and none brings the loop back. -/
theorem Step.between {s s' : Client} {e : ClientEvent} {out : List ClientObs}
    (h : Step s e s' out) (he : e.isAfter = false) :
    s'.ctx.closeWaitTicks = s.ctx.closeWaitTicks ∧ (s'.pc.over = false → s.pc.over = false) := by
  cases h with
  | afterStop hp hc hm | afterClose hp hc hm | afterPeek hp hc hm =>
    rw [ClientEvent.isAfter_loop hm] at he
    cases he
  | app | readyFailed | ready | chunk | ignored | noop => exact ⟨rfl, id⟩
  | timeCheck hp | checked hp | peeked hp | peekClosed hp | wakeFirst hp | drained hp
  | drainEmpty hp | drainClosed hp | wakeLast hp => exact ⟨rfl, fun _ => by rw [hp]; rfl⟩
  | dropSendRx | dropWakeTx | dropReadyTx | loopReturn => exact ⟨rfl, nofun⟩

/-- As long as the loop goes on, the ticks have not run out. -/
def Ticking (s : Client) : Prop := s.pc.over = false → s.ctx.closeWaitTicks.toNat ≤ 5001

theorem Step.ticking {s s' : Client} {e : ClientEvent} {out : List ClientObs}
    (h : Step s e s' out) (hi : Ticking s) : Ticking s' := by
  intro ho
  cases he : e.isAfter with
  | false =>
    obtain ⟨ht, hback⟩ := h.between he
    rw [ht]
    exact hi (hback ho)
  | true =>
    cases hc : s.ctx.shouldClose with
    | true =>
      obtain ⟨-, -, ht⟩ := h.closing he hc
      have h' := ht ho
      omega
    | false =>
      -- the counter is left alone before a close is requested
      have hsame : s'.ctx.closeWaitTicks = s.ctx.closeWaitTicks := by
        cases h with
        | afterClose hp hc' => rw [hc] at hc'; cases hc'
        | _ => rfl
      have hidle : s.pc.over = false := by
        cases h with
        | noop hp | timeCheck hp | afterStop hp | afterClose hp | afterPeek hp => rw [hp]; rfl
        | _ => cases he
      rw [hsame]
      exact hi hidle

theorem ticking_run {es : List ClientEvent} {s : Client} {tr : List ClientObs}
    (hr : machine.run Client.init es = some (s, tr)) : Ticking s :=
  Machine.run_invariant Ticking (fun _ _ _ _ hi _ hs => (step_cases hs).ticking hi) hr
    (Machine.Along.true _ _) fun _ => Nat.zero_le _

/-! ## Counting the callbacks after the request -/

/-- The AFTER_* callbacks among `fs`, which came after a close was requested, are counted. -/
structure Closing (s : Client) (fs : List ClientEvent) (tr : List ClientObs) : Prop where
  close : s.ctx.shouldClose = true
  ticking : Ticking s
  counted : s.pc.over = false → fs.countP ClientEvent.isAfter ≤ s.ctx.closeWaitTicks.toNat
  bound : fs.countP ClientEvent.isAfter ≤ 5002
  early : ¬ Terminates tr → fs.countP ClientEvent.isAfter ≤ 5001

theorem Closing.step {s s' : Client} {fs : List ClientEvent} {e : ClientEvent}
    {tr out : List ClientObs} (hi : Closing s fs tr) (h : Step s e s' out) :
    Closing s' (fs ++ [e]) (tr ++ out) := by
  have hnot : ¬ Terminates (tr ++ out) → ¬ Terminates tr ∧ ¬ Terminates out := fun hn =>
    ⟨fun ht => hn (List.mem_append_left _ ht), fun ht => hn (List.mem_append_right _ ht)⟩
  refine ⟨h.shouldClose hi.close, h.ticking hi.ticking, ?_, ?_, ?_⟩ <;>
    rw [List.countP_append, List.countP_singleton] <;> cases he : e.isAfter
  · intro ho
    obtain ⟨ht, hback⟩ := h.between he
    rw [ht]
    exact hi.counted (hback ho)
  · intro ho
    obtain ⟨hp, -, ht⟩ := h.closing he hi.close
    have hcount := hi.counted (by rw [hp]; rfl)
    have ht' := ht ho
    simp only [if_true]
    omega
  · exact hi.bound
  · obtain ⟨hp, -⟩ := h.closing he hi.close
    have hcount := hi.counted (by rw [hp]; rfl)
    have hle := hi.ticking (by rw [hp]; rfl)
    simp only [if_true]
    omega
  · exact fun hn => hi.early (hnot hn).1
  · intro hn
    obtain ⟨hp, hgo, -⟩ := h.closing he hi.close
    obtain ⟨hle, -⟩ := hgo.resolve_left (hnot hn).2
    have hcount := hi.counted (by rw [hp]; rfl)
    simp only [if_true]
    omega

theorem closing_run {s t : Client} {fs : List ClientEvent} {tr : List ClientObs}
    (hf : machine.run s fs = some (t, tr)) (hc : s.ctx.shouldClose = true) (ht : Ticking s) :
    Closing t fs tr :=
  Machine.run_events Closing (fun _ _ _ _ _ _ hi _ hs => hi.step (step_cases hs)) hf
    (Machine.Along.true _ _)
    ⟨hc, ht, fun _ => Nat.zero_le _, Nat.zero_le _, fun _ => Nat.zero_le _⟩

/-! ## What was reported -/

/-- What the context knows of the connection was reported by a callback. -/
structure Reported (s : Client) (tr : List ClientObs) : Prop where
  closed : (∃ cb ∈ callbacks tr, cb.event.closes = true) → s.ctx.disconnected = true
  ready : s.ctx.cnx ≠ 0 → ∃ cb ∈ callbacks tr, cb.event = .ready

theorem Step.cnx_of_ready {s s' : Client} {e : ClientEvent} {out : List ClientObs}
    (h : Step s e s' out) (hn : s'.ctx.cnx ≠ 0) :
    s.ctx.cnx ≠ 0 ∨ ∃ cb ∈ Client.callbacks out, cb.event = .ready := by
  rw [h.callbacks]
  cases h with
  | readyFailed hp he | ready hp he => exact .inr ⟨_, List.mem_singleton_self _, he⟩
  | _ => exact .inl hn

theorem Reported.step {s s' : Client} {e : ClientEvent} {tr out : List ClientObs}
    (hi : Reported s tr) (h : Step s e s' out) : Reported s' (tr ++ out) := by
  refine ⟨?_, fun hn => ?_⟩
  · rintro ⟨cb, hcb, hc⟩
    rw [callbacks_append] at hcb
    obtain hcb | hcb := List.mem_append.mp hcb
    · exact h.disconnected_iff.mpr (.inl (hi.closed ⟨cb, hcb, hc⟩))
    · exact h.disconnected_iff.mpr (.inr ⟨cb, hcb, hc⟩)
  · rw [callbacks_append]
    obtain hn | ⟨cb, hcb, he⟩ := h.cnx_of_ready hn
    · obtain ⟨cb, hcb, he⟩ := hi.ready hn
      exact ⟨cb, List.mem_append_left _ hcb, he⟩
    · exact ⟨cb, List.mem_append_right _ hcb, he⟩

theorem reported_run {es : List ClientEvent} {s : Client} {tr : List ClientObs}
    (hr : machine.run Client.init es = some (s, tr)) : Reported s tr :=
  Machine.run_trace Reported (fun _ _ _ _ _ hi _ hs => hi.step (step_cases hs)) hr
    (Machine.Along.true _ _) ⟨by simp, fun h => absurd rfl h⟩

/-- Once a close is requested, at most 5002 AFTER_* callbacks follow, the last of which terminates
the loop; and the next one does, if the connection was reported closed or was never ready. -/
theorem close_ends_loop {es fs : List ClientEvent} {s t : Client} {tr tr' : List ClientObs}
    (hr : machine.run Client.init es = some (s, tr)) (hc : s.ctx.shouldClose = true)
    (hf : machine.run s fs = some (t, tr')) :
    fs.countP ClientEvent.isAfter ≤ 5002 ∧
    (¬ Terminates tr' → fs.countP ClientEvent.isAfter ≤ 5001) ∧
    ∀ e t' out, e.isAfter = true → machine.step t e = some (t', out) →
      (∃ cb ∈ callbacks (tr ++ tr'), cb.event.closes = true) ∨
        (∀ cb ∈ callbacks (tr ++ tr'), cb.event ≠ .ready) → Terminates out := by
  have hi := closing_run hf hc (ticking_run hr)
  refine ⟨hi.bound, hi.early, fun e t' out he hs hrep => ?_⟩
  have hreport := reported_run (machine.run_append hr hf)
  obtain ⟨-, hgo, -⟩ := (step_cases hs).closing he hi.close
  refine hgo.resolve_right ?_
  rintro ⟨-, hd, hn⟩
  obtain hclosed | hready := hrep
  · rw [hreport.closed hclosed] at hd
    cases hd
  · obtain ⟨cb, hcb, he⟩ := hreport.ready hn
    exact hready cb hcb he

/-- The stream is dropped, and the TIME_CHECK that notices it is followed by a late ready event and
a close event. -/
def lateReady : List ClientEvent :=
  [.app .dropStream, .app .dropStream, .app .dropStream, .loop 5 .null 0, .resume 0]

def closedAfterReady : List ClientEvent :=
  [.stream ⟨1, 0, none, .ready⟩ 0 0, .loop 3 .null 0, .stream ⟨1, 0, none, .close⟩ 0 0]

theorem close_ends_loop_lateReady : ∃ s tr t tr' t' out,
    machine.run Client.init lateReady = some (s, tr) ∧
      machine.run s closedAfterReady = some (t, tr') ∧ closes tr' = [1] ∧
      closedAfterReady.countP ClientEvent.isAfter ≤ 5002 ∧
      machine.step t (.loop 2 .null 0) = some (t', out) ∧ Terminates out := by
  obtain ⟨s, tr, t, tr', t', out, hr, hc, hf, hcl, hs, hd⟩ : ∃ s tr t tr' t' out,
      machine.run Client.init lateReady = some (s, tr) ∧ s.ctx.shouldClose = true ∧
        machine.run s closedAfterReady = some (t, tr') ∧ closes tr' = [1] ∧
        machine.step t (.loop 2 .null 0) = some (t', out) ∧
        ∃ cb ∈ callbacks (tr ++ tr'), cb.event.closes = true :=
    ⟨_, _, _, _, _, _, rfl, rfl, rfl, by decide, rfl, by decide⟩
  obtain ⟨hle, -, hnext⟩ := close_ends_loop hr hc hf
  exact ⟨s, tr, t, tr', t', out, hr, hf, hcl, hle, hs, hnext _ t' out rfl hs (.inl hd)⟩

end Client
end TransportProxy.Slipstream
