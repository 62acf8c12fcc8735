import TransportProxy.Client.Callbacks
import TransportProxy.Bridge.Ownership

/-! # What one step of the client can do

`Step` lists the steps of the client with their guards and their effects, one constructor for each
path through a callback, and `step_cases` shows that the machine takes no other. Every invariant of
the client is proved by cases on it.

Seen from the bridge, a step of the client is one channel operation or none: `bridgeProjection`.
-/
namespace TransportProxy.Slipstream
open Foundations
set_option autoImplicit false

/-- The chunk that the client's `stream_callback` puts into the receive queue for an event. -/
def StreamCallback.clientPush (cb : StreamCallback) : Option Bytes :=
  match cb.event with
  | .streamData => cb.chunk
  | .streamFin | .close | .applicationClose | .statelessReset | .streamReset | .stopSending =>
    some []
  | _ => none

theorem StreamCallback.clientPush_of_closes {cb : StreamCallback} (h : cb.event.closes = true) :
    cb.clientPush = some [] := by
  cases he : cb.event <;> simp [he, PicoquicCallBackEvent.closes] at h <;> simp [clientPush, he]

namespace Client

inductive Step (s : Client) : ClientEvent → Client → List ClientObs → Prop where
  | app {op b out} (h : s.bridge.app op = some (b, out)) :
      Step s (.app op) { s with bridge := b } (out.map .bridge)
  | readyFailed {cb nextId markRet} (hp : s.pc.calm = true) (he : cb.event = .ready)
      (hm : markRet ≠ 0) :
      Step s (.stream cb nextId markRet) { s with ctx := { s.ctx with cnx := cb.cnx } }
        [.callback cb, .returned (-1)]
  | ready {cb nextId markRet q sent} (hp : s.pc.calm = true) (he : cb.event = .ready)
      (hm : markRet = 0)
      (hq : (∃ h, q = s.readyQ.push () h) ∧ sent = [.readySent] ∨ q = s.readyQ ∧ sent = []) :
      Step s (.stream cb nextId markRet)
        { s with ctx := { s.ctx with cnx := cb.cnx, streamId := nextId }, readyQ := q }
        (.callback cb :: (sent ++ [.returned 0]))
  | chunk {cb nextId markRet v} (hp : s.pc.calm = true) (hv : cb.clientPush = some v) :
      Step s (.stream cb nextId markRet)
        { s with
          ctx := { s.ctx with disconnected := s.ctx.disconnected || cb.event.closes }
          bridge := (s.bridge.recvTrySend v).1 }
        (.callback cb :: ((s.bridge.recvTrySend v).2.map .bridge ++ [.returned 0]))
  | ignored {cb nextId markRet} (hp : s.pc.calm = true) (hv : cb.clientPush = none)
      (he : cb.event ≠ .ready) :
      Step s (.stream cb nextId markRet) s [.callback cb, .returned 0]
  | noop {cbMode arg ret out} (hp : s.pc = .idle)
      (hn : cbMode ≠ picoquicPacketLoopTimeCheck)
      (ha : cbMode = picoquicPacketLoopAfterReceive ∨ cbMode = picoquicPacketLoopAfterSend →
        s.ctx.shouldClose = false ∧ (s.streamReady = true → s.ctx.peekBuf = none))
      (ho : out = [.returned 0] ∨ out = [.flags 1, .returned 0]) :
      Step s (.loop cbMode arg ret) s out
  | timeCheck {cbMode arg ret} (hp : s.pc = .idle) (hm : cbMode = picoquicPacketLoopTimeCheck) :
      Step s (.loop cbMode arg ret)
        { s with
          ctx := { s.ctx with shouldClose := s.ctx.shouldClose || s.bridge.recvQ.isClosed }
          pc := .timeCheck (arg.deltaT.map capDeltaT) } []
  | afterStop {cbMode arg ret} (hp : s.pc = .idle) (hc : s.ctx.shouldClose = true)
      (hm : cbMode = picoquicPacketLoopAfterReceive ∨ cbMode = picoquicPacketLoopAfterSend)
      (hd : s.ctx.disconnected = true ∨ s.ctx.cnx = 0) :
      Step s (.loop cbMode arg ret) { s with pc := .terminated }
        [.returned picoquicNoErrorTerminatePacketLoop]
  | afterClose {cbMode arg ret} (hp : s.pc = .idle) (hc : s.ctx.shouldClose = true)
      (hm : cbMode = picoquicPacketLoopAfterReceive ∨ cbMode = picoquicPacketLoopAfterSend)
      (hd : s.ctx.disconnected = false) (hn : s.ctx.cnx ≠ 0) :
      Step s (.loop cbMode arg ret)
        { s with
          ctx := { s.ctx with closeSent := true, closeWaitTicks := s.ctx.closeWaitTicks + 1 }
          pc := if s.ctx.closeWaitTicks > 5000 then .terminated else .idle }
        ((if s.ctx.closeSent then [] else [.close s.ctx.cnx]) ++
          [.returned (if s.ctx.closeWaitTicks > 5000 then picoquicNoErrorTerminatePacketLoop
            else 0)])
  | afterPeek {cbMode arg ret data} (hp : s.pc = .idle) (hc : s.ctx.shouldClose = false)
      (hm : cbMode = picoquicPacketLoopAfterReceive ∨ cbMode = picoquicPacketLoopAfterSend)
      (hr : s.streamReady = true) (hb : s.ctx.peekBuf = some data) :
      Step s (.loop cbMode arg ret)
        { s with
          ctx := { s.ctx with peekBuf := if data ≠ [] ∧ ret ≠ 0 then some data else none }
          pc := .wakeFirst }
        [.unpeeked data, .add s.ctx.cnx s.ctx.streamId data (finOf data) ret]
  | checked {deltaT ret out} (hp : s.pc = .timeCheck deltaT)
      (hr : s.streamReady = false ∨ s.ctx.peekBuf.isSome = true ∨
        s.bridge.sendTryRecv.1 = .error .empty)
      (ho : ∃ d, out = (d : Option ℤ).toList.map .deltaT ++ [.returned 0]) :
      Step s (.resume ret) { s with pc := .idle } out
  | peeked {deltaT ret data b out} (hp : s.pc = .timeCheck deltaT) (hr : s.streamReady = true)
      (hn : s.ctx.peekBuf = none) (hb : s.bridge.sendTryRecv = (.ok data, b, [.popped data]))
      (ho : ∃ d, out = .bridge (.popped data) :: ((d : Option ℤ).toList.map .deltaT ++
        [.returned 0])) :
      Step s (.resume ret)
        { s with bridge := b, ctx := { s.ctx with peekBuf := some data }, pc := .idle } out
  | peekClosed {deltaT ret out} (hp : s.pc = .timeCheck deltaT) (hr : s.streamReady = true)
      (hn : s.ctx.peekBuf = none) (hb : s.bridge.sendTryRecv.1 = .error .disconnected)
      (ho : ∃ d, out = (d : Option ℤ).toList.map .deltaT ++ [.returned 0]) :
      Step s (.resume ret) { s with ctx := { s.ctx with shouldClose := true }, pc := .idle } out
  | wakeFirst {ret} (hp : s.pc = .wakeFirst) :
      Step s (.resume ret) { s with bridge := s.bridge.wakeTrySend.1, pc := .drain }
        (s.bridge.wakeTrySend.2.map .bridge)
  | drained {ret data b} (hp : s.pc = .drain)
      (hb : s.bridge.sendTryRecv = (.ok data, b, [.popped data])) :
      Step s (.resume ret)
        { s with bridge := b, pc := if data ≠ [] ∧ ret ≠ 0 then .wakeLast else .drain }
        [.bridge (.popped data), .add s.ctx.cnx s.ctx.streamId data (finOf data) ret]
  | drainEmpty {ret} (hp : s.pc = .drain) (hb : s.bridge.sendTryRecv.1 = .error .empty) :
      Step s (.resume ret) { s with pc := .wakeLast } []
  | drainClosed {ret} (hp : s.pc = .drain) (hb : s.bridge.sendTryRecv.1 = .error .disconnected) :
      Step s (.resume ret) { s with ctx := { s.ctx with shouldClose := true }, pc := .wakeLast } []
  | wakeLast {ret} (hp : s.pc = .wakeLast) :
      Step s (.resume ret) { s with bridge := s.bridge.wakeTrySend.1, pc := .idle }
        (s.bridge.wakeTrySend.2.map .bridge ++ [.returned 0])
  | dropSendRx {ret} (hp : s.pc = .dropSendRx) :
      Step s (.resume ret) { s with bridge := s.bridge.dropSendRx, pc := .dropWakeTx } []
  | dropWakeTx {ret} (hp : s.pc = .dropWakeTx) :
      Step s (.resume ret) { s with bridge := s.bridge.dropWakeTx.1, pc := .dropReadyTx }
        (s.bridge.dropWakeTx.2.map .bridge)
  | dropReadyTx {ret} (hp : s.pc = .dropReadyTx) :
      Step s (.resume ret) { s with readyQ := s.readyQ.dropSender, pc := .exited } []
  | loopReturn (hp : s.pc = .idle ∨ s.pc = .terminated) :
      Step s .loopReturn { s with bridge := s.bridge.dropRecvTx, pc := .dropSendRx } []

theorem streamCallback_cases {s : Client} (hp : s.pc.calm = true)
    (cb : StreamCallback) (nextId : UInt64) (markRet : ℤ) :
    Step s (.stream cb nextId markRet) (s.streamCallback cb nextId markRet).1
      (.callback cb :: (s.streamCallback cb nextId markRet).2) := by
  cases he : cb.event
  case ready =>
    simp only [streamCallback, he, callbackReady]
    by_cases hm : markRet = 0
    · simp only [hm, ne_eq, not_true_eq_false, if_false]
      obtain ⟨-, h⟩ | ⟨-, hb, h⟩ | ⟨-, -, h⟩ := s.readyQ.trySend_cases ()
      · rw [h]
        exact @Step.ready s cb nextId 0 s.readyQ [] hp he rfl (.inr ⟨rfl, rfl⟩)
      · rw [h]
        exact @Step.ready s cb nextId 0 (s.readyQ.push () hb) [.readySent] hp he rfl
          (.inl ⟨⟨hb, rfl⟩, rfl⟩)
      · rw [h]
        exact @Step.ready s cb nextId 0 s.readyQ [] hp he rfl (.inr ⟨rfl, rfl⟩)
    · rw [if_pos hm]
      exact .readyFailed hp he hm
  case streamData =>
    cases hc : cb.chunk with
    | none =>
      simp only [streamCallback, he, hc]
      exact .ignored hp (by simp [StreamCallback.clientPush, he, hc]) (by simp [he])
    | some v =>
      have hv : cb.clientPush = some v := by simp [StreamCallback.clientPush, he, hc]
      have hs := @Step.chunk s cb nextId markRet _ hp hv
      simpa [streamCallback, he, hc, pushChunk, onBridge, PicoquicCallBackEvent.closes] using hs
  case streamFin | streamReset | stopSending | statelessReset | close | applicationClose =>
    have hv : cb.clientPush = some [] := by simp [StreamCallback.clientPush, he]
    have hs := @Step.chunk s cb nextId markRet _ hp hv
    simpa [streamCallback, he, pushChunk, onBridge, PicoquicCallBackEvent.closes] using hs
  all_goals
    simp only [streamCallback, he]
    exact .ignored hp (by simp [StreamCallback.clientPush, he]) (by simp [he])

theorem loopCallback_cases {s : Client} (hp : s.pc = .idle) (cbMode : ℤ) (arg : LoopArg)
    (ret : ℤ) :
    Step s (.loop cbMode arg ret) (s.loopCallback cbMode arg ret).1
      (s.loopCallback cbMode arg ret).2 := by
  unfold loopCallback
  by_cases hready : cbMode = picoquicPacketLoopReady
  · rw [if_pos hready]
    refine .noop hp (by rw [hready]; decide) (by rw [hready]; exact nofun) ?_
    by_cases ha : arg = .null <;> simp [ha]
  rw [if_neg hready]
  by_cases htime : cbMode = picoquicPacketLoopTimeCheck
  · rw [if_pos htime]
    have hs := @Step.timeCheck s cbMode arg ret hp htime
    cases hc : s.bridge.recvQ.isClosed <;> simpa [timeCheck, hc] using hs
  rw [if_neg htime]
  by_cases hm : cbMode = picoquicPacketLoopAfterReceive ∨ cbMode = picoquicPacketLoopAfterSend
  · rw [if_pos hm, after]
    cases hc : s.ctx.shouldClose with
    | true =>
      simp only [if_true, afterClose]
      cases hd : s.ctx.disconnected with
      | true =>
        rw [if_pos rfl]
        exact .afterStop hp hc hm (.inl hd)
      | false =>
        rw [if_neg Bool.false_ne_true]
        by_cases hn : s.ctx.cnx = 0
        · rw [if_pos hn]
          exact .afterStop hp hc hm (.inr hn)
        · rw [if_neg hn]
          by_cases ht : s.ctx.closeWaitTicks > 5000
          · have hs := @Step.afterClose s cbMode arg ret hp hc hm hd hn
            simpa only [ht, if_true, hd] using hs
          · have hs := @Step.afterClose s cbMode arg ret hp hc hm hd hn
            simpa only [ht, if_false, hd, hp] using hs
    | false =>
      simp only [Bool.false_eq_true, if_false]
      cases hr : s.streamReady with
      | false =>
        simp only [Bool.false_eq_true, if_false]
        exact .noop hp htime (fun _ => ⟨hc, by simp [hr]⟩) (.inl rfl)
      | true =>
        simp only [if_true, afterPeek]
        cases hb : s.ctx.peekBuf with
        | none => exact .noop hp htime (fun _ => ⟨hc, fun _ => hb⟩) (.inl rfl)
        | some data =>
          have hs := @Step.afterPeek s cbMode arg ret _ hp hc hm hr hb
          simpa only [hc] using hs
  · rw [if_neg hm]
    exact .noop hp htime (fun h => absurd h hm) (.inl rfl)

theorem timeCheckRest_cases {s : Client} {deltaT : Option ℤ} (hp : s.pc = .timeCheck deltaT)
    (ret : ℤ) :
    Step s (.resume ret) (s.timeCheckRest deltaT).1 (s.timeCheckRest deltaT).2 := by
  unfold timeCheckRest
  cases hr : s.streamReady with
  | false =>
    simp only [Bool.false_eq_true, if_false, List.nil_append]
    refine .checked hp (.inl hr) ⟨deltaT.map s.timeCheckDelta, ?_⟩
    cases deltaT <;> rfl
  | true =>
    simp only [if_true, peek]
    cases hb : s.ctx.peekBuf with
    | some data =>
      simp only [List.nil_append]
      refine .checked hp (.inr (.inl (by rw [hb]; rfl))) ⟨deltaT.map s.timeCheckDelta, ?_⟩
      cases deltaT <;> rfl
    | none =>
      obtain ⟨v, rest, -, h⟩ | ⟨-, -, h⟩ | ⟨-, -, h⟩ := s.bridge.sendTryRecv_cases
      · rw [h]
        refine .peeked hp hr hb h ?_
        cases deltaT with
        | none => exact ⟨none, rfl⟩
        | some d => exact ⟨some _, rfl⟩
      · rw [h]
        refine .checked hp (.inr (.inr (by rw [h]))) ⟨deltaT.map s.timeCheckDelta, ?_⟩
        cases deltaT <;> simp
      · rw [h]
        have hs := @Step.peekClosed s _ ret _ hp hr hb (by rw [h])
          ⟨deltaT.map fun _ => 0, rfl⟩
        cases deltaT <;> simpa [timeCheckDelta, hb] using hs

theorem resume_cases {s s' : Client} {ret : ℤ} {out : List ClientObs}
    (h : s.resume ret = some (s', out)) : Step s (.resume ret) s' out := by
  unfold resume at h
  cases hp : s.pc with
  | idle | terminated | exited => simp [hp] at h
  | timeCheck deltaT =>
    simp only [hp, Option.some.injEq] at h
    have hs := timeCheckRest_cases hp ret
    rwa [h] at hs
  | wakeFirst =>
    simp only [hp, Option.some.injEq, onBridge, Prod.mk.injEq] at h
    obtain ⟨rfl, rfl⟩ := h
    exact .wakeFirst hp
  | drain =>
    simp only [hp, Option.some.injEq, drainOne] at h
    obtain ⟨v, rest, -, hq⟩ | ⟨-, -, hq⟩ | ⟨-, -, hq⟩ := s.bridge.sendTryRecv_cases
    · simp only [hq, Prod.mk.injEq] at h
      obtain ⟨rfl, rfl⟩ := h
      exact .drained hp hq
    · simp only [hq, Prod.mk.injEq] at h
      obtain ⟨rfl, rfl⟩ := h
      exact .drainEmpty hp (by rw [hq])
    · simp only [hq, Prod.mk.injEq] at h
      obtain ⟨rfl, rfl⟩ := h
      exact .drainClosed hp (by rw [hq])
  | wakeLast =>
    simp only [hp, Option.some.injEq, onBridge, Prod.mk.injEq] at h
    obtain ⟨rfl, rfl⟩ := h
    exact .wakeLast hp
  | dropSendRx =>
    simp only [hp, Option.some.injEq, Prod.mk.injEq] at h
    obtain ⟨rfl, rfl⟩ := h
    exact .dropSendRx hp
  | dropWakeTx =>
    simp only [hp, Option.some.injEq, onBridge, Prod.mk.injEq] at h
    obtain ⟨rfl, rfl⟩ := h
    exact .dropWakeTx hp
  | dropReadyTx =>
    simp only [hp, Option.some.injEq, Prod.mk.injEq] at h
    obtain ⟨rfl, rfl⟩ := h
    exact .dropReadyTx hp

/-- The machine takes the steps of the list, and no others. -/
theorem step_cases {s s' : Client} {e : ClientEvent} {out : List ClientObs}
    (h : machine.step s e = some (s', out)) : Step s e s' out := by
  change s.step e = some (s', out) at h
  cases e with
  | app op =>
    simp only [step, Option.map_eq_some_iff, onBridge, Prod.mk.injEq] at h
    obtain ⟨⟨b, bout⟩, hb, rfl, rfl⟩ := h
    exact .app hb
  | stream cb nextId markRet =>
    simp only [step, Option.ite_none_right_eq_some, Option.some.injEq, Prod.mk.injEq] at h
    obtain ⟨hp, rfl, rfl⟩ := h
    exact streamCallback_cases hp cb nextId markRet
  | loop cbMode arg ret =>
    simp only [step, Option.ite_none_right_eq_some, Option.some.injEq] at h
    have hs := loopCallback_cases h.1 cbMode arg ret
    rwa [h.2] at hs
  | resume ret => exact resume_cases h
  | loopReturn =>
    simp only [step, loopReturn] at h
    cases hp : s.pc <;> simp only [hp, Option.some.injEq, Prod.mk.injEq, reduceCtorEq] at h
    · obtain ⟨rfl, rfl⟩ := h
      exact .loopReturn (.inl hp)
    · obtain ⟨rfl, rfl⟩ := h
      exact .loopReturn (.inr hp)

/-! ## The client seen from its bridge -/

end Client

@[simp] def ClientObs.bridge? : ClientObs → Option BridgeObs
  | .bridge o => some o
  | _ => none

@[simp] def ClientObs.callback? : ClientObs → Option StreamCallback
  | .callback cb => some cb
  | _ => none

def ClientEvent.callback : ClientEvent → Option StreamCallback
  | .stream cb _ _ => some cb
  | _ => none

/-- The chunk or marker that `stream_callback` offers in this step. -/
def ClientEvent.push (e : ClientEvent) : Option Bytes := e.callback.bind StreamCallback.clientPush

namespace Client

/-- What a trace of the client shows of the bridge. -/
def bridgeTrace (tr : List ClientObs) : List BridgeObs := tr.filterMap ClientObs.bridge?

@[simp] theorem bridgeTrace_nil : bridgeTrace [] = [] := rfl

@[simp] theorem bridgeTrace_cons (o : ClientObs) (t : List ClientObs) :
    bridgeTrace (o :: t) = o.bridge?.toList ++ bridgeTrace t := filterMap_cons_toList ..

@[simp] theorem bridgeTrace_append (t u : List ClientObs) :
    bridgeTrace (t ++ u) = bridgeTrace t ++ bridgeTrace u := List.filterMap_append ..

@[simp] theorem bridgeTrace_map_bridge (t : List BridgeObs) :
    bridgeTrace (t.map .bridge) = t := by
  induction t with
  | nil => rfl
  | cons o t ih => simp [ih]

@[simp] theorem bridgeTrace_map_deltaT (t : List ℤ) : bridgeTrace (t.map .deltaT) = [] :=
  filterMap_map_none (fun _ => rfl) t

/-- The calls of `stream_callback`. -/
def callbacks (tr : List ClientObs) : List StreamCallback := tr.filterMap ClientObs.callback?

@[simp] theorem callbacks_nil : callbacks [] = [] := rfl

@[simp] theorem callbacks_cons (o : ClientObs) (t : List ClientObs) :
    callbacks (o :: t) = o.callback?.toList ++ callbacks t := filterMap_cons_toList ..

@[simp] theorem callbacks_append (t u : List ClientObs) :
    callbacks (t ++ u) = callbacks t ++ callbacks u := List.filterMap_append ..

@[simp] theorem callbacks_map_bridge (t : List BridgeObs) : callbacks (t.map .bridge) = [] :=
  filterMap_map_none (fun _ => rfl) t

@[simp] theorem callbacks_map_deltaT (t : List ℤ) : callbacks (t.map .deltaT) = [] :=
  filterMap_map_none (fun _ => rfl) t

theorem Step.callbacks {s s' : Client} {e : ClientEvent} {out : List ClientObs}
    (h : Step s e s' out) : Client.callbacks out = e.callback.toList := by
  cases h with
  | ready hp he hm hq => obtain ⟨-, rfl⟩ | ⟨-, rfl⟩ := hq <;> rfl
  | noop hp hn ha ho => obtain rfl | rfl := ho <;> rfl
  | afterClose => split <;> rfl
  | checked hp hr ho | peeked hp hr hn hb ho | peekClosed hp hr hn hb ho =>
    obtain ⟨d, rfl⟩ := ho
    simp [ClientEvent.callback]
  | _ => simp [ClientEvent.callback]

/-- The operation of the bridge that an event stands for: the poll itself, the chunk that a stream
callback offers, or another operation of the packet loop. -/
def Causes (s : Client) (e : ClientEvent) : BridgeOp → Prop
  | .app op => e = .app op
  | .loop (.recvTrySend v) => e.push = some v ∧ s.pc.calm = true
  | .loop _ => e.push = none

/-- A step of the client leaves its bridge alone or makes the step of it that the event causes. -/
theorem Step.bridge_op {s s' : Client} {e : ClientEvent} {out : List ClientObs}
    (h : Step s e s' out) :
    (s'.bridge = s.bridge ∧ bridgeTrace out = [] ∧ e.push = none) ∨
      ∃ op, s.Causes e op ∧
        Bridge.machine.step s.bridge op = some (s'.bridge, bridgeTrace out) := by
  cases h with
  | app h => exact .inr ⟨.app _, rfl, by rw [bridgeTrace_map_bridge]; exact h⟩
  | @chunk _ _ _ v hp hv =>
    refine .inr ⟨.loop (.recvTrySend v), ⟨hv, hp⟩, ?_⟩
    simp [Bridge.machine, Bridge.step, Bridge.loop]
  | peeked hp hr hn hb ho =>
    obtain ⟨d, rfl⟩ := ho
    exact .inr ⟨.loop .sendTryRecv, rfl, by simp [Bridge.machine, Bridge.step, Bridge.loop, hb]⟩
  | drained hp hb =>
    exact .inr ⟨.loop .sendTryRecv, rfl, by simp [Bridge.machine, Bridge.step, Bridge.loop, hb]⟩
  | wakeFirst | wakeLast =>
    exact .inr ⟨.loop .wakeTrySend, rfl, by simp [Bridge.machine, Bridge.step, Bridge.loop]⟩
  | dropSendRx => exact .inr ⟨.loop .dropSendRx, rfl, rfl⟩
  | dropWakeTx =>
    exact .inr ⟨.loop .dropWakeTx, rfl, by simp [Bridge.machine, Bridge.step, Bridge.loop]⟩
  | loopReturn => exact .inr ⟨.loop .dropRecvTx, rfl, rfl⟩
  | readyFailed hp he =>
    exact .inl ⟨rfl, rfl, by simp [ClientEvent.push, ClientEvent.callback, he,
      StreamCallback.clientPush]⟩
  | @ready cb nextId markRet q sent hp he hm hq =>
    have hn : ClientEvent.push (.stream cb nextId markRet) = none := by
      simp [ClientEvent.push, ClientEvent.callback, he, StreamCallback.clientPush]
    obtain ⟨-, rfl⟩ | ⟨-, rfl⟩ := hq <;> exact .inl ⟨rfl, rfl, hn⟩
  | ignored hp hv => exact .inl ⟨rfl, rfl, hv⟩
  | noop hp hn ha ho => obtain rfl | rfl := ho <;> exact .inl ⟨rfl, rfl, rfl⟩
  | afterClose => exact .inl ⟨rfl, by split <;> rfl, rfl⟩
  | checked hp hr ho | peekClosed hp hr hn hb ho =>
    obtain ⟨d, rfl⟩ := ho
    exact .inl ⟨rfl, by simp, rfl⟩
  | timeCheck | afterStop | afterPeek | drainEmpty | drainClosed | dropReadyTx =>
    exact .inl ⟨rfl, rfl, rfl⟩

theorem Step.bridge {s s' : Client} {e : ClientEvent} {out : List ClientObs}
    (h : Step s e s' out) :
    (s'.bridge = s.bridge ∧ bridgeTrace out = []) ∨
      ∃ op, Bridge.machine.step s.bridge op = some (s'.bridge, bridgeTrace out) :=
  h.bridge_op.imp (fun h => ⟨h.1, h.2.1⟩) fun ⟨op, _, hop⟩ => ⟨op, hop⟩

theorem Step.conserves {s s' : Client} {e : ClientEvent} {out : List ClientObs}
    (h : Step s e s' out) : Bridge.Conserves s.bridge s'.bridge (bridgeTrace out) := by
  obtain ⟨hb, ht⟩ | ⟨op, hop⟩ := h.bridge
  · rw [hb, ht]
    exact .of_eq rfl rfl rfl rfl rfl rfl rfl
  · exact Bridge.step_conserves hop

theorem Step.owned {s s' : Client} {e : ClientEvent} {out : List ClientObs}
    (h : Step s e s' out) (ho : s.bridge.Owned) : s'.bridge.Owned := by
  obtain ⟨hb, -⟩ | ⟨op, hop⟩ := h.bridge
  · rwa [hb]
  · exact Bridge.step_owned ho hop

theorem Step.not_held {s s' : Client} {e : ClientEvent} {out : List ClientObs}
    (h : Step s e s' out) (ho : s.bridge.owner ≠ .held) : s'.bridge.owner ≠ .held := by
  obtain ⟨hb, -⟩ | ⟨op, hop⟩ := h.bridge
  · rwa [hb]
  · exact Bridge.not_held_step ho hop

/-- Every run of the client is a run of its bridge. -/
def bridgeProjection : Machine.Projection machine Bridge.machine where
  state := Client.bridge
  obs := ClientObs.bridge?
  sound s e s' out h := by
    obtain ⟨hb, ht⟩ | ⟨op, hop⟩ := (step_cases h).bridge
    · refine ⟨[], ?_⟩
      rw [Machine.run_nil, hb]
      exact congrArg (fun t => some (s.bridge, t)) ht.symm
    · exact ⟨[op], (Machine.run_single_iff ..).mpr hop⟩

theorem ledger_run {s : Client} {es : List ClientEvent} {tr : List ClientObs}
    (h : machine.run init es = some (s, tr)) : Bridge.Ledger s.bridge (bridgeTrace tr) := by
  obtain ⟨ops, hops⟩ := bridgeProjection.run h
  exact Bridge.ledger_run hops

theorem owned_run {s : Client} {es : List ClientEvent} {tr : List ClientObs}
    (h : machine.run init es = some (s, tr)) : s.bridge.Owned := by
  obtain ⟨ops, hops⟩ := bridgeProjection.run h
  exact Bridge.owned_run .new hops

/-! ## Which ends the packet-loop thread still holds -/

structure LoopEnds (s : Client) : Prop where
  recv : s.bridge.recvQ.sender = true ↔ s.pc.dropped < 1
  send : s.bridge.sendQ.receiver = true ↔ s.pc.dropped < 2
  wake : s.bridge.wakeQ.sender = true ↔ s.pc.dropped < 3
  ready : s.readyQ.sender = true ↔ s.pc.dropped < 4

theorem LoopEnds.init : LoopEnds init := by
  constructor <;> simp [Client.init, Bridge.new, LoopPc.dropped]

theorem LoopEnds.congr {s s' : Client} (h : LoopEnds s) (hp : s'.pc.dropped = s.pc.dropped)
    (hr : s'.bridge.recvQ.sender = s.bridge.recvQ.sender)
    (hs : s'.bridge.sendQ.receiver = s.bridge.sendQ.receiver)
    (hw : s'.bridge.wakeQ.sender = s.bridge.wakeQ.sender)
    (hq : s'.readyQ.sender = s.readyQ.sender) : LoopEnds s' where
  recv := by rw [hp, hr, h.recv]
  send := by rw [hp, hs, h.send]
  wake := by rw [hp, hw, h.wake]
  ready := by rw [hp, hq, h.ready]

theorem Step.loopEnds {s s' : Client} {e : ClientEvent} {out : List ClientObs}
    (h : Step s e s' out) (hi : LoopEnds s) : LoopEnds s' := by
  cases h with
  | app h =>
    obtain ⟨hr, hs, hw⟩ := (Bridge.app_cases h).loopEnds
    exact hi.congr rfl hr hs hw rfl
  | @chunk _ _ _ v =>
    obtain ⟨hr, hs, hw⟩ := (s.bridge.loop_step (.recvTrySend v)).loopEnds rfl
    exact hi.congr rfl hr hs hw rfl
  | ready hp he hm hq =>
    obtain ⟨⟨_, rfl⟩, -⟩ | ⟨rfl, -⟩ := hq <;> exact hi.congr rfl rfl rfl rfl rfl
  | readyFailed | ignored | noop => exact hi.congr rfl rfl rfl rfl rfl
  | timeCheck hp | afterStop hp | afterPeek hp | checked hp | peekClosed hp | drainEmpty hp
  | drainClosed hp => exact hi.congr (by rw [hp]; rfl) rfl rfl rfl rfl
  | afterClose hp => exact hi.congr (by rw [hp]; simp only; split <;> rfl) rfl rfl rfl rfl
  | peeked hp hr hn hb =>
    obtain ⟨-, rfl⟩ := Bridge.sendTryRecv_ok hb
    exact hi.congr (by rw [hp]; rfl) rfl rfl rfl rfl
  | drained hp hb =>
    obtain ⟨-, rfl⟩ := Bridge.sendTryRecv_ok hb
    exact hi.congr (by rw [hp]; simp only; split <;> rfl) rfl rfl rfl rfl
  | wakeFirst hp | wakeLast hp =>
    obtain ⟨hr, hs, hw⟩ := (s.bridge.loop_step .wakeTrySend).loopEnds rfl
    exact hi.congr (by rw [hp]; rfl) hr hs hw rfl
  | dropSendRx hp | dropWakeTx hp | dropReadyTx hp =>
    have h₁ := hi.recv
    have h₂ := hi.send
    have h₃ := hi.wake
    have h₄ := hi.ready
    rw [hp] at h₁ h₂ h₃ h₄
    constructor <;> simp_all [LoopPc.dropped, Bridge.dropSendRx, Bridge.dropWakeTx]
  | loopReturn hp =>
    have hd : s.pc.dropped = 0 := by obtain hp | hp := hp <;> rw [hp] <;> rfl
    have h₂ := hi.send
    have h₃ := hi.wake
    have h₄ := hi.ready
    rw [hd] at h₂ h₃ h₄
    constructor <;> simp_all [LoopPc.dropped, Bridge.dropRecvTx]

theorem loopEnds_run {es : List ClientEvent} {s : Client} {tr : List ClientObs}
    (hr : machine.run init es = some (s, tr)) : LoopEnds s :=
  Machine.run_invariant LoopEnds (fun _ _ _ _ hi _ hs => (step_cases hs).loopEnds hi) hr
    (Machine.Along.true _ _) .init

end Client
end TransportProxy.Slipstream
