import TransportProxy.Bridge.Receive
import TransportProxy.Client.Steps

/-! # The receive path of the client

`stream_callback` offers a chunk for every stream_data event that brings bytes, and an end marker
for every event that ends the stream or the connection. What it offers is queued as long as there is
room; a chunk or a marker that meets a full queue is gone.
-/
namespace TransportProxy.Slipstream
open Foundations
set_option autoImplicit false

/-- The bytes of an event are in the chunk that the callback offers for it. -/
theorem StreamCallback.clientPush_data (cb : StreamCallback) :
    cb.clientPush.getD [] = cb.data.getD [] := by
  cases he : cb.event <;> simp [clientPush, data, he]

theorem StreamCallback.data_of_clientPush {cb : StreamCallback} {v : Bytes}
    (h : cb.clientPush = some v) (hv : v ≠ []) : cb.data = some v := by
  cases he : cb.event <;> simp [clientPush, he] at h <;> first
    | exact absurd h hv
    | simp [data, he, h]

/-- The reader polls with a non-empty buffer. -/
def ClientEvent.RealRead : ClientEvent → Prop
  | .app (.pollRead remaining) => 0 < remaining
  | _ => True

instance ClientEvent.RealRead.decidable (e : ClientEvent) : Decidable e.RealRead := by
  unfold ClientEvent.RealRead
  split <;> infer_instance

namespace Client

/-- The chunks and markers that `stream_callback` offers. -/
def pushes (tr : List ClientObs) : List Bytes :=
  (callbacks tr).filterMap StreamCallback.clientPush

/-- The bytes that the stream_data events brought. -/
def delivered (tr : List ClientObs) : Bytes :=
  ((callbacks tr).filterMap StreamCallback.data).flatten

@[simp] theorem pushes_append (t u : List ClientObs) : pushes (t ++ u) = pushes t ++ pushes u := by
  simp [pushes]

theorem delivered_append (t u : List ClientObs) :
    delivered (t ++ u) = delivered t ++ delivered u := by
  simp [delivered]

theorem pushes_flatten (tr : List ClientObs) : (pushes tr).flatten = delivered tr := by
  unfold pushes delivered
  induction callbacks tr with
  | nil => rfl
  | cons cb cbs ih =>
    rw [filterMap_cons_toList, filterMap_cons_toList, List.flatten_append, List.flatten_append, ih]
    have h := cb.clientPush_data
    congr 1
    cases hp : cb.clientPush <;> cases hd : cb.data <;> simp [hp, hd] at h ⊢ <;> simp [h]

theorem Step.pushes {s s' : Client} {e : ClientEvent} {out : List ClientObs}
    (h : Step s e s' out) : Client.pushes out = e.push.toList := by
  rw [Client.pushes, h.callbacks, ClientEvent.push]
  cases e.callback with
  | none => rfl
  | some cb => cases hp : cb.clientPush <;> simp [hp]

/-- What is offered in this step finds room, if it is one of the chunks that count. -/
def Room (keep : Bytes → Bool) (s : Client) (e : ClientEvent) : Prop :=
  ∀ v ∈ e.push, keep v = true → s.bridge.recvQ.buf.length < recvCapacity

instance Room.decidable (keep : Bytes → Bool) (s : Client) (e : ClientEvent) :
    Decidable (s.Room keep e) :=
  inferInstanceAs (Decidable (∀ v ∈ e.push, _))

variable {keep : Bytes → Bool}

theorem Step.fed {s s' : Client} {e : ClientEvent} {out : List ClientObs} {t : List BridgeObs}
    {offered : List Bytes} (h : Step s e s' out) (hi : Bridge.Fed keep s.bridge t offered [])
    (hr : s.Room keep e) :
    Bridge.Fed keep s'.bridge (t ++ bridgeTrace out)
      (offered ++ (Client.pushes out).filter keep) [] := by
  rw [h.pushes]
  obtain ⟨hb, ht, hn⟩ | ⟨op, hc, hop⟩ := h.bridge_op
  · rw [hb, ht, hn]
    simpa using hi
  · cases op with
    | app op =>
      have hn : e.push = none := by
        rw [hc]
        rfl
      rw [hn]
      simpa using hi.app (Bridge.app_cases hop)
    | loop op =>
      have hl := Option.some.inj hop
      cases op with
      | recvTrySend v =>
        have hp := (hi.offer v).push (hr v hc.1)
        rw [← Bridge.loop, hl] at hp
        simpa [hc.1] using hp
      | _ =>
        rw [show e.push = none from hc]
        simpa using hi.untouched ((Bridge.loop_cases hl).untouched (by simp))

theorem fed_run {es : List ClientEvent} {s : Client} {tr : List ClientObs}
    (hr : machine.run init es = some (s, tr)) (hg : machine.Along (Room keep) init es) :
    Bridge.Fed keep s.bridge (bridgeTrace tr) ((pushes tr).filter keep) [] := by
  refine Machine.run_trace
    (fun (s : Client) tr => Bridge.Fed keep s.bridge (bridgeTrace tr) ((pushes tr).filter keep) [])
    ?_ hr hg .new
  intro s tr e s' out hi hk hs
  rw [bridgeTrace_append, pushes_append, List.filter_append]
  exact (step_cases hs).fed hi hk

/-- A stream_data event that brings bytes finds room for them. -/
def DataRoom (s : Client) : ClientEvent → Prop
  | .stream cb _ _ => cb.data.isSome = true → s.bridge.recvQ.buf.length < recvCapacity
  | _ => True

instance DataRoom.decidable (s : Client) : ∀ e, Decidable (s.DataRoom e)
  | .stream _ _ _ => inferInstanceAs (Decidable (_ → _ < _))
  | .app _ | .loop _ _ _ | .resume _ | .loopReturn => .isTrue trivial

theorem reads_prefix {es : List ClientEvent} {s : Client} {tr : List ClientObs}
    (hr : machine.run init es = some (s, tr)) (hg : machine.Along DataRoom init es) :
    (reads (bridgeTrace tr)).flatten <+: delivered tr := by
  have hroom : machine.Along (Room fun v => !v.isEmpty) init es := by
    apply hg.mono
    intro s e h v hv hk
    cases e with
    | stream cb nextId markRet =>
      exact h (by rw [StreamCallback.data_of_clientPush hv (by simpa using hk)]; rfl)
    | app | loop | resume | loopReturn => cases hv
  have hf := (fed_run hr hroom).front.flatten
  rw [List.flatten_filter_not_isEmpty, List.flatten_filter_not_isEmpty, pushes_flatten,
    (ledger_run hr).recv] at hf
  exact (List.prefix_append _ _).trans hf

/-! ## Where the reads find the end -/

theorem Step.markedLedger {s s' : Client} {e : ClientEvent} {out : List ClientObs}
    {t : List BridgeObs} (h : Step s e s' out) (he : LoopEnds s) (hr : e.RealRead)
    (hi : s.bridge.MarkedLedger t) : s'.bridge.MarkedLedger (t ++ bridgeTrace out) := by
  obtain ⟨hb, ht, -⟩ | ⟨op, hc, hop⟩ := h.bridge_op
  · rw [hb, ht]
    exact hi.untouched (.refl _)
  · refine hi.step ?_ hop
    cases op with
    | app op =>
      rw [show e = .app op from hc] at hr
      cases op <;> exact hr
    | loop op =>
      cases op with
      | recvTrySend v =>
        apply he.recv.mpr
        rw [LoopPc.dropped_of_calm hc.2]
        exact Nat.zero_lt_one
      | _ => trivial

theorem markedLedger_run {es : List ClientEvent} {s : Client} {tr : List ClientObs}
    (hr : machine.run init es = some (s, tr))
    (hg : machine.Along (fun _ e => e.RealRead) init es) :
    s.bridge.MarkedLedger (bridgeTrace tr) :=
  (Machine.run_trace
    (fun (s : Client) tr => LoopEnds s ∧ s.bridge.MarkedLedger (bridgeTrace tr))
    (fun s tr e s' out hi hk hs => by
      rw [bridgeTrace_append]
      exact ⟨(step_cases hs).loopEnds hi.1, (step_cases hs).markedLedger hi.1 hk hi.2⟩)
    hr hg ⟨.init, .new⟩).2

end Client
end TransportProxy.Slipstream
