import TransportProxy.Bridge.Picoquic

/-! # The client bridge

`mod client` of `transport/slipstream.rs`: `ClientBridgeCtx`, `stream_callback` and `loop_callback`.

Both callbacks run on the packet-loop thread, one after the other, and the context is written by no
other thread. The async side can therefore interfere only at channel operations, and `LoopPc` says
at which of them a callback stands: a TIME_CHECK looks at `recv_tx.is_closed()` first and at
`send_rx` later; an AFTER_* callback hands over `peek_buf`, leaves a token, drains the queue one
entry at a time and leaves a second token. A stream callback has a single channel operation.

The return codes of `picoquic_add_to_stream` (`ret`), `picoquic_mark_active_stream` (`markRet`) and
`picoquic_get_next_local_stream_id` (`nextId`) are inputs of the steps.
-/
namespace TransportProxy.Slipstream
open Foundations
set_option autoImplicit false

/-- Sentinel for "stream not yet set": `u64::MAX`. -/
def streamIdNotSet : UInt64 := 0xFFFFFFFFFFFFFFFF

/-- The fields of `ClientBridgeCtx` that are not ends of channels. -/
structure ClientBridgeCtx where
  cnx : CnxPtr
  streamId : UInt64
  disconnected : Bool
  shouldClose : Bool
  closeSent : Bool
  closeWaitTicks : UInt32
  peekBuf : Option Bytes
  deriving DecidableEq, Repr

/-- Where the packet-loop thread stands. -/
inductive LoopPc where
  | idle
  /-- TIME_CHECK, `is_closed` done, `try_recv` next; the `delta_t` to be returned -/
  | timeCheck (deltaT : Option ℤ)
  /-- AFTER_*, `peek_buf` handed over (`consumed` is set), the first token next -/
  | wakeFirst
  /-- AFTER_*, at the `try_recv` of the drain loop -/
  | drain
  /-- AFTER_*, drain loop left, the second token next -/
  | wakeLast
  /-- `loop_callback` asked the packet loop to terminate -/
  | terminated
  /-- the packet loop has returned; the next field of the context to be dropped -/
  | dropSendRx
  | dropWakeTx
  | dropReadyTx
  | exited
  deriving DecidableEq, Repr

/-- Inside an AFTER_* callback that has handed `peek_buf` over. -/
def LoopPc.draining : LoopPc → Bool
  | .wakeFirst | .drain | .wakeLast => true
  | _ => false

/-- No callback is in progress and the context is there. `picoquic_free` may call `stream_callback`
once more after the packet loop. -/
def LoopPc.calm : LoopPc → Bool
  | .idle | .terminated => true
  | _ => false

theorem LoopPc.draining_of_calm {pc : LoopPc} (h : pc.calm = true) : pc.draining = false := by
  cases pc <;> simp [calm] at h <;> rfl

def LoopPc.dropped : LoopPc → ℕ
  | .dropSendRx => 1
  | .dropWakeTx => 2
  | .dropReadyTx => 3
  | .exited => 4
  | _ => 0

@[simp] theorem LoopPc.draining_afterClose (c : Prop) [Decidable c] :
    (if c then terminated else idle).draining = false := by
  split <;> rfl

theorem LoopPc.dropped_of_calm {pc : LoopPc} (h : pc.calm = true) : pc.dropped = 0 := by
  cases pc <;> simp [calm] at h <;> rfl

/-- A client bridge: the stream's channels and async side, the ready channel of `connect_stream`,
and the packet-loop thread. -/
structure Client where
  bridge : Bridge
  readyQ : Channel Unit 1
  ctx : ClientBridgeCtx
  pc : LoopPc

inductive ClientObs where
  | bridge (o : BridgeObs)
  | callback (cb : StreamCallback)
  | readySent
  /-- an entry was taken out of `peek_buf` -/
  | unpeeked (v : Bytes)
  /-- `picoquic_add_to_stream(cnx, stream_id, data, len, set_fin)` returned `ret` -/
  | add (cnx : CnxPtr) (streamId : UInt64) (data : Bytes) (setFin : ℤ) (ret : ℤ)
  /-- `picoquic_close(cnx, 0)` -/
  | close (cnx : CnxPtr)
  | flags (f : ℕ)
  | deltaT (d : ℤ)
  | returned (code : ℤ)
  deriving DecidableEq, Repr

namespace Client

def init : Client where
  bridge := .new
  readyQ := .new Unit 1
  ctx :=
    { cnx := 0, streamId := streamIdNotSet, disconnected := false, shouldClose := false
      closeSent := false, closeWaitTicks := 0, peekBuf := none }
  pc := .idle

/-- The rest of the client is unchanged by a channel operation of its bridge. -/
def onBridge (s : Client) (r : Bridge × List BridgeObs) : Client × List ClientObs :=
  ({ s with bridge := r.1 }, r.2.map .bridge)

/-! ## `stream_callback` -/

def callbackReady (s : Client) (cnx : CnxPtr) (nextId : UInt64) (markRet : ℤ) :
    Client × List ClientObs :=
  if markRet ≠ 0 then ({ s with ctx := { s.ctx with cnx := cnx } }, [.returned (-1)])
  else
    let s := { s with ctx := { s.ctx with cnx := cnx, streamId := nextId } }
    match s.readyQ.trySend () with
    | (.ok (), q) => ({ s with readyQ := q }, [.readySent, .returned 0])
    | (.error _, _) => (s, [.returned 0])

/-- `let _ = ctx.recv_tx.try_send(v)` and return. -/
def pushChunk (s : Client) (v : Bytes) : Client × List ClientObs :=
  let r := s.onBridge (s.bridge.recvTrySend v)
  (r.1, r.2 ++ [.returned 0])

/-- `stream_callback`. The stream id is not looked at. -/
def streamCallback (s : Client) (cb : StreamCallback) (nextId : UInt64) (markRet : ℤ) :
    Client × List ClientObs :=
  match cb.event with
  | .ready => s.callbackReady cb.cnx nextId markRet
  | .streamData =>
    match cb.chunk with
    | some v => s.pushChunk v
    | none => (s, [.returned 0])
  | .streamFin => s.pushChunk []
  | .close | .applicationClose | .statelessReset =>
    { s with ctx := { s.ctx with disconnected := true } }.pushChunk []
  | .streamReset | .stopSending => s.pushChunk []
  | _ => (s, [.returned 0])

/-! ## `loop_callback` -/

/-- The connection is known and its stream is open. -/
def streamReady (s : Client) : Bool := s.ctx.cnx != 0 && s.ctx.streamId != streamIdNotSet

/-- TIME_CHECK up to `recv_tx.is_closed()`: cap the wait, and note that the async side is gone. -/
def timeCheck (s : Client) (arg : LoopArg) : Client × List ClientObs :=
  let ctx := if s.bridge.recvQ.isClosed then { s.ctx with shouldClose := true } else s.ctx
  ({ s with ctx := ctx, pc := .timeCheck (arg.deltaT.map capDeltaT) }, [])

/-- TIME_CHECK: move one entry of the queue into an empty `peek_buf`. -/
def peek (s : Client) : Client × List ClientObs :=
  match s.ctx.peekBuf with
  | some _ => (s, [])
  | none =>
    match s.bridge.sendTryRecv with
    | (.ok data, b, out) =>
      ({ s with bridge := b, ctx := { s.ctx with peekBuf := some data } }, out.map .bridge)
    | (.error .disconnected, b, out) =>
      -- send_tx dropped: close in the next AFTER_* callback
      ({ s with bridge := b, ctx := { s.ctx with shouldClose := true } }, out.map .bridge)
    | (.error .empty, b, out) => ({ s with bridge := b }, out.map .bridge)

def timeCheckDelta (s : Client) (d : ℤ) : ℤ :=
  if s.ctx.shouldClose then 0
  else if s.streamReady && s.ctx.peekBuf.isSome then 500
  else d

/-- TIME_CHECK from the look at the connection on. -/
def timeCheckRest (s : Client) (deltaT : Option ℤ) : Client × List ClientObs :=
  let r := if s.streamReady then s.peek else (s, [])
  ({ r.1 with pc := .idle },
    r.2 ++ (deltaT.map fun d => .deltaT (r.1.timeCheckDelta d)).toList ++ [.returned 0])

/-- The `should_close` branch of AFTER_*. -/
def afterClose (s : Client) : Client × List ClientObs :=
  if s.ctx.disconnected then
    ({ s with pc := .terminated }, [.returned picoquicNoErrorTerminatePacketLoop])
  else if s.ctx.cnx = 0 then
    ({ s with pc := .terminated }, [.returned picoquicNoErrorTerminatePacketLoop])
  else
    let sent := if s.ctx.closeSent then [] else [.close s.ctx.cnx]
    let ticks := s.ctx.closeWaitTicks
    let s := { s with ctx := { s.ctx with closeSent := true, closeWaitTicks := ticks + 1 } }
    if ticks > 5000 then
      ({ s with pc := .terminated }, sent ++ [.returned picoquicNoErrorTerminatePacketLoop])
    else (s, sent ++ [.returned 0])

/-- AFTER_* up to its first token: hand over the peeked entry. A FIN whose call fails is gone, a
data chunk goes back into `peek_buf`; `consumed` is set either way. -/
def afterPeek (s : Client) (ret : ℤ) : Client × List ClientObs :=
  match s.ctx.peekBuf with
  | none => (s, [.returned 0])
  | some data =>
    let back := if data ≠ [] ∧ ret ≠ 0 then some data else none
    ({ s with ctx := { s.ctx with peekBuf := back }, pc := .wakeFirst },
      [.unpeeked data, .add s.ctx.cnx s.ctx.streamId data (finOf data) ret])

def after (s : Client) (ret : ℤ) : Client × List ClientObs :=
  if s.ctx.shouldClose then s.afterClose
  else if s.streamReady then s.afterPeek ret
  else (s, [.returned 0])

/-- One round of the drain loop: a data chunk whose call fails ends it and is gone. -/
def drainOne (s : Client) (ret : ℤ) : Client × List ClientObs :=
  match s.bridge.sendTryRecv with
  | (.ok data, b, out) =>
    ({ s with bridge := b, pc := if data ≠ [] ∧ ret ≠ 0 then .wakeLast else .drain },
      out.map .bridge ++ [.add s.ctx.cnx s.ctx.streamId data (finOf data) ret])
  | (.error .disconnected, b, out) =>
    ({ s with bridge := b, ctx := { s.ctx with shouldClose := true }, pc := .wakeLast },
      out.map .bridge)
  | (.error .empty, b, out) => ({ s with bridge := b, pc := .wakeLast }, out.map .bridge)

/-- `loop_callback` from its entry to its first channel operation. -/
def loopCallback (s : Client) (cbMode : ℤ) (arg : LoopArg) (ret : ℤ) : Client × List ClientObs :=
  if cbMode = picoquicPacketLoopReady then
    (s, (if arg = .null then [] else [.flags 1]) ++ [.returned 0])
  else if cbMode = picoquicPacketLoopTimeCheck then s.timeCheck arg
  else if cbMode = picoquicPacketLoopAfterReceive ∨ cbMode = picoquicPacketLoopAfterSend then
    s.after ret
  else (s, [.returned 0])

/-- The next channel operation of a callback in progress, or the drop of the next field. -/
def resume (s : Client) (ret : ℤ) : Option (Client × List ClientObs) :=
  match s.pc with
  | .timeCheck deltaT => some (s.timeCheckRest deltaT)
  | .wakeFirst => some ({ s with pc := .drain }.onBridge s.bridge.wakeTrySend)
  | .drain => some (s.drainOne ret)
  | .wakeLast =>
    let r := { s with pc := .idle }.onBridge s.bridge.wakeTrySend
    some (r.1, r.2 ++ [.returned 0])
  | .dropSendRx => some ({ s with bridge := s.bridge.dropSendRx, pc := .dropWakeTx }, [])
  | .dropWakeTx => some ({ s with pc := .dropReadyTx }.onBridge s.bridge.dropWakeTx)
  | .dropReadyTx => some ({ s with readyQ := s.readyQ.dropSender, pc := .exited }, [])
  | .idle | .terminated | .exited => none

/-- `picoquic_packet_loop` has returned, asked to or on its own: the context is dropped, its
`recv_tx` first. -/
def loopReturn (s : Client) : Option (Client × List ClientObs) :=
  match s.pc with
  | .idle | .terminated => some ({ s with bridge := s.bridge.dropRecvTx, pc := .dropSendRx }, [])
  | _ => none

end Client

inductive ClientEvent where
  | app (op : AppOp)
  | stream (cb : StreamCallback) (nextId : UInt64) (markRet : ℤ)
  | loop (cbMode : ℤ) (arg : LoopArg) (ret : ℤ)
  | resume (ret : ℤ)
  | loopReturn
  deriving DecidableEq, Repr

namespace Client

def step (s : Client) : ClientEvent → Option (Client × List ClientObs)
  | .app op => (s.bridge.app op).map s.onBridge
  | .stream cb nextId markRet =>
    if s.pc.calm then
      let r := s.streamCallback cb nextId markRet
      some (r.1, .callback cb :: r.2)
    else none
  | .loop cbMode arg ret => if s.pc = .idle then some (s.loopCallback cbMode arg ret) else none
  | .resume ret => s.resume ret
  | .loopReturn => s.loopReturn

/-- The client bridge under every interleaving of its two threads. -/
def machine : Machine Client ClientEvent ClientObs := ⟨step⟩

end Client
end TransportProxy.Slipstream
