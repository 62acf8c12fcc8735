import TransportProxy.Client.Steps
import TransportProxy.Foundations.Retry

/-! # The order in which the client hands its send queue over

`peek_buf` and the send queue together are the queue that `loop_callback` serves: TIME_CHECK only
moves an entry from one to the other, and each call of `picoquic_add_to_stream` should be for the
first entry of the two. Three branches break this when a call fails:

* the peeked chunk is put back, but the drain loop runs all the same and overtakes it;
* a data chunk of the drain loop is dropped when the loop breaks;
* the result of a call for a FIN is ignored.

`KeepsOrder` is the condition that no step enters one of them, and `Served` then holds after every
run, in whichever order the two threads and the callbacks go.
-/
namespace TransportProxy.Slipstream
open Foundations
set_option autoImplicit false

@[simp] def ClientObs.add? : ClientObs → Option AddToStream
  | .add cnx streamId data setFin ret => some ⟨cnx, streamId, data, setFin, ret⟩
  | _ => none

/-- `picoquic_add_to_stream` returns zero. -/
def ClientEvent.RetZero : ClientEvent → Prop
  | .loop _ _ ret | .resume ret => ret = 0
  | _ => True

/-- The stream of the connection gets the id `sid`. -/
def ClientEvent.GivesId (sid : UInt64) : ClientEvent → Prop
  | .stream cb nextId _ => cb.event = .ready → nextId = sid
  | _ => True

instance ClientEvent.GivesId.decidable (sid : UInt64) : ∀ e : ClientEvent, Decidable (e.GivesId sid)
  | .stream _ _ _ => inferInstanceAs (Decidable (_ → _))
  | .app _ | .loop _ _ _ | .resume _ | .loopReturn => .isTrue trivial

instance ClientEvent.RetZero.decidable : ∀ e : ClientEvent, Decidable e.RetZero
  | .loop _ _ ret | .resume ret => inferInstanceAs (Decidable (ret = 0))
  | .app _ | .stream _ _ _ | .loopReturn => .isTrue trivial

namespace Client

/-- The calls of `picoquic_add_to_stream`. -/
def adds (tr : List ClientObs) : List AddToStream := tr.filterMap ClientObs.add?

/-- The entries that they were for, and whether they returned zero. -/
def calls (tr : List ClientObs) : List (Bytes × Bool) := (adds tr).map AddToStream.entry

@[simp] theorem adds_nil : adds [] = [] := rfl

@[simp] theorem adds_cons (o : ClientObs) (t : List ClientObs) :
    adds (o :: t) = o.add?.toList ++ adds t := filterMap_cons_toList ..

@[simp] theorem adds_append (t u : List ClientObs) : adds (t ++ u) = adds t ++ adds u :=
  List.filterMap_append ..

@[simp] theorem adds_map_bridge (t : List BridgeObs) : adds (t.map .bridge) = [] :=
  filterMap_map_none (fun _ => rfl) t

@[simp] theorem adds_map_deltaT (t : List ℤ) : adds (t.map .deltaT) = [] :=
  filterMap_map_none (fun _ => rfl) t

@[simp] theorem calls_nil : calls [] = [] := rfl

@[simp] theorem calls_cons (o : ClientObs) (t : List ClientObs) :
    calls (o :: t) = o.add?.toList.map AddToStream.entry ++ calls t := by
  rw [calls, adds_cons, List.map_append]
  rfl

@[simp] theorem calls_append (t u : List ClientObs) : calls (t ++ u) = calls t ++ calls u := by
  rw [calls, adds_append, List.map_append]
  rfl

@[simp] theorem calls_map_bridge (t : List BridgeObs) : calls (t.map .bridge) = [] := by
  rw [calls, adds_map_bridge]
  rfl

@[simp] theorem calls_map_deltaT (t : List ℤ) : calls (t.map .deltaT) = [] := by
  rw [calls, adds_map_deltaT]
  rfl

/-- The FIN goes with the end-of-file marker and with nothing else. -/
theorem Step.setFin {s s' : Client} {e : ClientEvent} {out : List ClientObs}
    (h : Step s e s' out) : ∀ c ∈ adds out, c.setFin = finOf c.data := by
  cases h with
  | ready hp he hm hq => obtain ⟨-, rfl⟩ | ⟨-, rfl⟩ := hq <;> simp
  | noop hp hn ha ho => obtain rfl | rfl := ho <;> simp
  | afterClose => split <;> simp
  | checked hp hr ho | peeked hp hr hn hb ho | peekClosed hp hr hn hb ho =>
    obtain ⟨d, rfl⟩ := ho
    simp
  | _ => simp

theorem setFin_run {es : List ClientEvent} {s : Client} {tr : List ClientObs}
    (hr : machine.run init es = some (s, tr)) : ∀ c ∈ adds tr, c.setFin = finOf c.data := by
  refine Machine.run_trace (fun (_ : Client) tr => ∀ c ∈ adds tr, c.setFin = finOf c.data) ?_ hr
    (Machine.Along.true _ _) nofun
  intro s tr e s' out hi _ hs c hc
  rw [adds_append] at hc
  exact (List.mem_append.mp hc).elim (hi c) ((step_cases hs).setFin c)

/-- The entries that `poll_write` and `poll_shutdown` put into the send queue. -/
def enqueued (tr : List ClientObs) : List Bytes := queued (bridgeTrace tr)

/-- The entries for which a call returned 0. -/
def handed (tr : List ClientObs) : List Bytes := handedOver (calls tr)

@[simp] theorem enqueued_append (t u : List ClientObs) :
    enqueued (t ++ u) = enqueued t ++ enqueued u := by
  simp [enqueued]

/-- The entries that wait to be handed over. -/
def unsent (s : Client) : List Bytes := s.ctx.peekBuf.toList ++ s.bridge.sendQ.buf

/-- An AFTER_* callback that gets as far as `peek_buf`. -/
def Drains (s : Client) (cbMode : ℤ) : Prop :=
  (cbMode = picoquicPacketLoopAfterReceive ∨ cbMode = picoquicPacketLoopAfterSend) ∧
    s.ctx.shouldClose = false ∧ s.streamReady = true

instance Drains.decidable (s : Client) (cbMode : ℤ) : Decidable (s.Drains cbMode) :=
  inferInstanceAs (Decidable (_ ∧ _))

/-- The step neither loses an entry nor lets one overtake another. -/
def KeepsOrder (s : Client) : ClientEvent → Prop
  | .loop cbMode _ ret => s.Drains cbMode → s.ctx.peekBuf = some [] → ret = 0
  | .resume ret =>
    s.pc = .drain → s.bridge.sendQ.buf ≠ [] → s.ctx.peekBuf = none ∧ ret = 0
  | _ => True

instance KeepsOrder.decidable (s : Client) : ∀ e, Decidable (s.KeepsOrder e)
  | .loop _ _ _ | .resume _ => inferInstanceAs (Decidable (_ → _ → _))
  | .app _ | .stream _ _ _ | .loopReturn => .isTrue trivial

/-- Without a call nothing leaves the entries that wait, and what is enqueued joins them. -/
def Quiet (s s' : Client) (out : List ClientObs) : Prop :=
  calls out = [] ∧ s'.unsent = s.unsent ++ enqueued out

theorem Quiet.of_eq {s s' : Client} {out : List ClientObs} (hc : calls out = [])
    (ht : bridgeTrace out = []) (hp : s'.ctx.peekBuf = s.ctx.peekBuf)
    (hq : s'.bridge.sendQ.buf = s.bridge.sendQ.buf) : Quiet s s' out := by
  refine ⟨hc, ?_⟩
  rw [unsent, unsent, hp, hq, enqueued, ht, queued_nil, List.append_nil]

theorem Quiet.of_conserves {s s' : Client} {out : List ClientObs} (hc : calls out = [])
    (hp : s'.ctx.peekBuf = s.ctx.peekBuf)
    (hb : Bridge.Conserves s.bridge s'.bridge (bridgeTrace out))
    (ht : popped (bridgeTrace out) = []) : Quiet s s' out := by
  refine ⟨hc, ?_⟩
  have hs := hb.send
  rw [ht, List.nil_append] at hs
  rw [unsent, unsent, hp, List.append_assoc, ← hs]
  rfl

/-- A call is for the first entry that waits, and takes it exactly when it returns 0. -/
def Calls (s s' : Client) (out : List ClientObs) : Prop :=
  ∃ v rest ok, calls out = [(v, ok)] ∧ enqueued out = [] ∧ s.unsent = v :: rest ∧
    s'.unsent = if ok then rest else v :: rest

theorem Step.sends {s s' : Client} {e : ClientEvent} {out : List ClientObs}
    (h : Step s e s' out) (hk : s.KeepsOrder e) : Quiet s s' out ∨ Calls s s' out := by
  have hc := h.conserves
  cases h with
  | app h =>
    refine .inl (.of_conserves (by simp) rfl hc ?_)
    rw [bridgeTrace_map_bridge]
    exact (Bridge.app_cases h).popped
  | @chunk _ _ _ v =>
    refine .inl (.of_conserves (by simp) rfl hc ?_)
    simpa [Bridge.loop] using (s.bridge.loop_step (.recvTrySend v)).popped (by simp)
  | wakeFirst | wakeLast =>
    refine .inl (.of_conserves (by simp) rfl hc ?_)
    simpa [Bridge.loop] using (s.bridge.loop_step .wakeTrySend).popped (by simp)
  | dropWakeTx =>
    refine .inl (.of_conserves (by simp) rfl hc ?_)
    simpa [Bridge.loop] using (s.bridge.loop_step .dropWakeTx).popped (by simp)
  | ready hp he hm hq =>
    obtain ⟨-, rfl⟩ | ⟨-, rfl⟩ := hq <;> exact .inl (.of_eq rfl rfl rfl rfl)
  | noop hp hn ha ho => obtain rfl | rfl := ho <;> exact .inl (.of_eq rfl rfl rfl rfl)
  | afterClose => cases s.ctx.closeSent <;> exact .inl (.of_eq rfl rfl rfl rfl)
  | checked hp hr ho | peekClosed hp hr hn hb ho =>
    obtain ⟨d, rfl⟩ := ho
    exact .inl (.of_eq (by simp) (by simp) rfl rfl)
  | readyFailed | ignored | timeCheck | afterStop | drainEmpty | drainClosed | dropSendRx
  | dropReadyTx | loopReturn => exact .inl (.of_eq rfl rfl rfl rfl)
  | peeked hp hr hn hb ho =>
    -- the entry moves from the queue to the empty `peek_buf` in front of it
    obtain ⟨d, rfl⟩ := ho
    obtain ⟨hq, rfl⟩ := Bridge.sendTryRecv_ok hb
    refine .inl ⟨by simp, ?_⟩
    rw [unsent, unsent, hn, hq]
    simp [enqueued]
  | @afterPeek cbMode arg ret data hp hs hm hr hb =>
    have hfin : data = [] → ret = 0 := by
      rintro rfl
      exact hk ⟨hm, hs, hr⟩ hb
    refine .inr ⟨data, s.bridge.sendQ.buf, ret == 0, by simp, rfl, by simp [unsent, hb], ?_⟩
    by_cases h0 : ret = 0
    · simp [unsent, h0]
    · have hd : data ≠ [] := mt hfin h0
      simp [unsent, h0, hd]
  | @drained ret data b hp hb =>
    obtain ⟨hq, rfl⟩ := Bridge.sendTryRecv_ok hb
    obtain ⟨hn, rfl⟩ := hk hp (by rw [hq]; simp)
    refine .inr ⟨data, s.bridge.sendQ.buf.tail, true, by simp, by simp [enqueued], ?_, ?_⟩
    · rw [unsent, hn, hq]
      simp
    · simp [unsent, hn]

/-- Nothing is put back into `peek_buf`, so it is empty while the queue is drained. -/
theorem Step.peek_none {s s' : Client} {e : ClientEvent} {out : List ClientObs}
    (h : Step s e s' out) (hi : s.pc.draining = true → s.ctx.peekBuf = none) (hz : e.RetZero) :
    s'.pc.draining = true → s'.ctx.peekBuf = none := by
  intro hd
  cases h with
  | app => exact hi hd
  | wakeFirst hp | drained hp | drainEmpty hp | drainClosed hp => exact hi (by rw [hp]; rfl)
  | @afterPeek cbMode arg ret data hp hs hm hr hb =>
    have h0 : ret = 0 := hz
    simp [h0]
  | readyFailed hp | ready hp | chunk hp | ignored hp =>
    rw [LoopPc.draining_of_calm hp] at hd
    cases hd
  | noop hp => simp [hp, LoopPc.draining] at hd
  | afterClose => simp at hd
  | _ => cases hd

theorem keepsOrder_of_retZero {s : Client} {e : ClientEvent}
    (hi : s.pc.draining = true → s.ctx.peekBuf = none) (hz : e.RetZero) : s.KeepsOrder e := by
  cases e with
  | loop cbMode arg ret => exact fun _ _ => hz
  | resume ret => exact fun hp _ => ⟨hi (by rw [hp]; rfl), hz⟩
  | app | stream | loopReturn => trivial

/-- The id is not set yet, or it is `sid`; it is set when a callback makes its calls. -/
structure HasId (sid : UInt64) (s : Client) : Prop where
  id : s.ctx.streamId = streamIdNotSet ∨ s.ctx.streamId = sid
  draining : s.pc.draining = true → s.ctx.streamId ≠ streamIdNotSet

theorem HasId.set {sid : UInt64} {s : Client} (h : HasId sid s)
    (hne : s.ctx.streamId ≠ streamIdNotSet) : s.ctx.streamId = sid := h.id.resolve_left hne

theorem streamId_of_ready {s : Client} (h : s.streamReady = true) :
    s.ctx.streamId ≠ streamIdNotSet := by
  simp only [streamReady, Bool.and_eq_true, bne_iff_ne] at h
  exact h.2

theorem Step.hasId {s s' : Client} {e : ClientEvent} {out : List ClientObs} {sid : UInt64}
    (h : Step s e s' out) (hg : e.GivesId sid) (hi : HasId sid s) :
    HasId sid s' ∧ ∀ c ∈ adds out, c.streamId = sid := by
  cases h with
  | app => exact ⟨⟨hi.id, hi.draining⟩, by simp⟩
  | ready hp he hm hq =>
    refine ⟨⟨.inr (hg he), fun hd => ?_⟩, by obtain ⟨-, rfl⟩ | ⟨-, rfl⟩ := hq <;> simp⟩
    rw [LoopPc.draining_of_calm hp] at hd
    cases hd
  | readyFailed hp | chunk hp | ignored hp => exact ⟨⟨hi.id, hi.draining⟩, by simp⟩
  | noop hp hn ha ho => exact ⟨hi, by obtain rfl | rfl := ho <;> simp⟩
  | afterClose => exact ⟨⟨hi.id, by simp⟩, by split <;> simp⟩
  | afterPeek hp hc hm hr hb =>
    have hne := streamId_of_ready hr
    exact ⟨⟨hi.id, fun _ => hne⟩, by simpa using hi.set hne⟩
  | drained hp hb =>
    have hne := hi.draining (by rw [hp]; rfl)
    exact ⟨⟨hi.id, fun _ => hne⟩, by simpa using hi.set hne⟩
  | wakeFirst hp | drainEmpty hp | drainClosed hp =>
    exact ⟨⟨hi.id, fun _ => hi.draining (by rw [hp]; rfl)⟩, by simp⟩
  | checked hp hr ho | peeked hp hr hn hb ho | peekClosed hp hr hn hb ho =>
    obtain ⟨d, rfl⟩ := ho
    exact ⟨⟨hi.id, nofun⟩, by simp⟩
  | _ => exact ⟨⟨hi.id, nofun⟩, by simp⟩

/-- All calls are for that stream then. -/
theorem streamId_run {es : List ClientEvent} {s : Client} {tr : List ClientObs} {sid : UInt64}
    (hr : machine.run init es = some (s, tr))
    (hg : machine.Along (fun _ e => e.GivesId sid) init es) : ∀ c ∈ adds tr, c.streamId = sid := by
  refine (Machine.run_trace (fun (s : Client) tr => HasId sid s ∧ ∀ c ∈ adds tr, c.streamId = sid)
    ?_ hr hg ⟨⟨.inl rfl, nofun⟩, nofun⟩).2
  rintro s tr e s' out ⟨hi, ha⟩ hk hs
  obtain ⟨hi', hout⟩ := (step_cases hs).hasId hk hi
  refine ⟨hi', fun c hc => ?_⟩
  rw [adds_append] at hc
  exact (List.mem_append.mp hc).elim (ha c) (hout c)

/-- The calls of the trace serve the send queue, and `unsent` is what is left of it. -/
theorem served_run {es : List ClientEvent} {s : Client} {tr : List ClientObs}
    (hr : machine.run init es = some (s, tr)) (hg : machine.Along KeepsOrder init es) :
    Served (enqueued tr) (calls tr) s.unsent := by
  refine Machine.run_trace
    (fun (s : Client) tr => Served (enqueued tr) (calls tr) s.unsent) ?_ hr hg .nil
  intro s tr e s' out hi hk hs
  rw [enqueued_append, calls_append]
  obtain ⟨hc, hu⟩ | ⟨v, rest, ok, hc, hq, hu, hu'⟩ := (step_cases hs).sends hk
  · rw [hc, hu, List.append_nil]
    exact hi.enqueue _
  · rw [hc, hq, hu', List.append_nil]
    rw [hu] at hi
    exact hi.call ok

/-- Whatever the calls return, they are made in the order of the queue, a failed one is repeated
before any later entry is tried, and what was accepted is the front of what was enqueued. The FIN
goes with the marker only. -/
theorem calls_serve_enqueued {es : List ClientEvent} {s : Client} {tr : List ClientObs}
    (hr : machine.run init es = some (s, tr)) (hg : machine.Along KeepsOrder init es) :
    Serves (enqueued tr) (calls tr) ∧ handed tr <+: enqueued tr ∧
      ∀ c ∈ adds tr, c.setFin = finOf c.data :=
  have h := served_run hr hg
  ⟨h.serves, h.serves.handedOver_prefix, setFin_run hr⟩

/-- The peeked chunk fails once with nothing behind it, and is handed over by the next callback. -/
def retriedChunk : List ClientEvent :=
  [.stream ⟨1, 0, none, .ready⟩ 0 0, .app (.pollWrite [1]), .loop 5 .null 0, .resume 0,
    .loop 3 .null (-1), .resume 0, .resume 0, .resume 0, .app (.pollWrite [2]), .loop 3 .null 0,
    .resume 0, .resume 0, .resume 0, .resume 0]

theorem calls_serve_enqueued_retriedChunk : ∃ s tr,
    machine.run init retriedChunk = some (s, tr) ∧
      calls tr = [([1], false), ([1], true), ([2], true)] ∧
      Serves (enqueued tr) (calls tr) ∧ handed tr <+: enqueued tr ∧
      ∀ c ∈ adds tr, c.setFin = finOf c.data :=
  ⟨_, _, rfl, by decide, @calls_serve_enqueued retriedChunk _ _ rfl (by decide)⟩

/-- The peeked chunk fails with another one behind it: the drain loop hands over the second one. -/
def overtakenChunk : List ClientEvent :=
  [.stream ⟨1, 0, none, .ready⟩ 0 0, .app (.pollWrite [1]), .app (.pollWrite [2]),
    .loop 5 .null 0, .resume 0, .loop 3 .null (-1), .resume 0, .resume 0, .resume 0, .resume 0]

theorem overtakenChunk_breaks_order : ∃ s tr,
    machine.run init overtakenChunk = some (s, tr) ∧ s.bridge.owner = .held ∧
      enqueued tr = [[1], [2]] ∧ handed tr = [[2]] ∧ ¬ handed tr <+: enqueued tr :=
  ⟨_, _, rfl, by decide, by decide, by decide, by decide⟩

end Client
end TransportProxy.Slipstream
