import TransportProxy.Bridge.Picoquic
import Mathlib.Data.List.AList

/-! # The server bridge

`mod server` of `transport/slipstream.rs`: `ServerConnState`, the map of connections,
`server_stream_callback` and `server_loop_callback`.

The map is touched by the packet-loop thread only, so the async side can interfere only at channel
operations, and `ServerPc` says at which of them a callback stands. The first stream_data event of a
connection makes the three channels and sends the halves to `accept_tx` before it queues its bytes:
the handler may already poll in between. An AFTER_* callback drains one connection after the other
in the iteration order of the map, which is an input, and leaves one token for every entry.

`streams` lists the bridges in the order in which they were made; `acceptQ` holds the indices of
those whose halves are still in the accept channel.
-/
namespace TransportProxy.Slipstream
open Foundations
set_option autoImplicit false

/-- `stream_id`, `recv_tx`, `send_rx` and `wake_tx` of a connection, which are set together: the id
of its stream, and the index of the bridge that the three ends belong to. -/
structure ServerStream where
  streamId : UInt64
  index : ℕ
  deriving DecidableEq, Repr

structure ServerConnState where
  cnx : CnxPtr
  stream : Option ServerStream
  deriving DecidableEq, Repr

/-- Where the packet-loop thread stands. -/
inductive ServerPc where
  | idle
  /-- first stream_data: the halves are sent, this chunk is next -/
  | firstData (index : ℕ) (v : Bytes)
  /-- AFTER_*: at the `try_recv` of the first of these connections -/
  | drain (todo : List (CnxPtr × ServerStream))
  /-- AFTER_*: an entry of the first connection was handed over, its token is next -/
  | wake (now : CnxPtr × ServerStream) (todo : List (CnxPtr × ServerStream))
  /-- a `ServerConnState` is being dropped, `recv_tx` is gone; the next field -/
  | dropSendRx (index : ℕ)
  | dropWakeTx (index : ℕ)
  deriving DecidableEq, Repr

/-- The connections that an AFTER_* callback has yet to finish with. -/
def ServerPc.todo : ServerPc → List (CnxPtr × ServerStream)
  | .drain todo => todo
  | .wake now todo => now :: todo
  | _ => []

def ServerPc.dropping : ServerPc → Option ℕ
  | .dropSendRx i | .dropWakeTx i => some i
  | _ => none

structure Server where
  connections : AList (fun _ : CnxPtr => ServerConnState)
  streams : List Bridge
  acceptQ : List ℕ
  pc : ServerPc

inductive ServerObs where
  | bridge (index : ℕ) (o : BridgeObs)
  /-- `server_stream_callback` was called; the bridged stream that the event is about, if any -/
  | callback (cb : StreamCallback) (own : Option ℕ)
  /-- the halves of the stream that this connection opened were sent to `accept_tx` -/
  | accepted (key : CnxPtr) (index : ℕ)
  /-- `picoquic_add_to_stream(cnx, sid, data, len, set_fin)` returned `ret` -/
  | add (index : ℕ) (cnx : CnxPtr) (streamId : UInt64) (data : Bytes) (setFin : ℤ) (ret : ℤ)
  | flags (f : ℕ)
  | deltaT (d : ℤ)
  | returned (code : ℤ)
  deriving DecidableEq, Repr

namespace Server

def init : Server := ⟨∅, [], [], .idle⟩

/-- The bridge with this index; a fresh one where there is none yet. -/
def stream (s : Server) (i : ℕ) : Bridge := s.streams.getD i .new

/-- The packet loop makes a channel operation of one of the bridges. -/
def loopAt (streams : List Bridge) (i : ℕ) (op : LoopOp) : List Bridge × List ServerObs :=
  match streams[i]? with
  | some b => (streams.set i (b.loop op).1, (b.loop op).2.map (.bridge i))
  | none => (streams, [])

def onStream (s : Server) (i : ℕ) (op : LoopOp) : Server × List ServerObs :=
  let r := loopAt s.streams i op
  ({ s with streams := r.1 }, r.2)

/-- The stream of a connection, once it is open. -/
def streamOf (s : Server) (key : CnxPtr) : Option ServerStream :=
  (s.connections.lookup key).bind ServerConnState.stream

/-! ## `server_stream_callback` -/

/-- A `ServerConnState` that left the map is dropped, its `recv_tx` first. -/
def dropState (s : Server) (old : Option ServerConnState) : Server × List ServerObs :=
  match old.bind ServerConnState.stream with
  | none => (s, [.returned 0])
  | some st => { s with pc := .dropSendRx st.index }.onStream st.index .dropRecvTx

def callbackReady (s : Server) (cnx : CnxPtr) : Server × List ServerObs :=
  { s with connections := s.connections.insert cnx ⟨cnx, none⟩ }.dropState
    (s.connections.lookup cnx)

/-- `let _ = tx.try_send(v)` and return. -/
def pushChunk (s : Server) (i : ℕ) (v : Bytes) : Server × List ServerObs :=
  let r := s.onStream i (.recvTrySend v)
  (r.1, r.2 ++ [.returned 0])

/-- The stream of a connection is opened by its first stream_data event. -/
def openStream (s : Server) (state : ServerConnState) (cb : StreamCallback) :
    Server × List ServerObs :=
  let i := s.streams.length
  let s := { s with
    connections := s.connections.insert cb.cnx { state with stream := some ⟨cb.streamId, i⟩ }
    streams := s.streams ++ [.new]
    acceptQ := s.acceptQ ++ [i] }
  match cb.chunk with
  | some v => ({ s with pc := .firstData i v }, [.accepted cb.cnx i])
  | none => (s, [.accepted cb.cnx i, .returned 0])

def streamCallback (s : Server) (cb : StreamCallback) : Server × List ServerObs :=
  match cb.event with
  | .ready => s.callbackReady cb.cnx
  | .streamData =>
    match s.connections.lookup cb.cnx with
    | none => (s, [.returned 0])
    | some state =>
      match state.stream with
      | none => s.openStream state cb
      | some st =>
        if st.streamId = cb.streamId then
          match cb.chunk with
          | some v => s.pushChunk st.index v
          | none => (s, [.returned 0])
        else (s, [.returned 0])
  | .streamFin =>
    match s.streamOf cb.cnx with
    | some st => if st.streamId = cb.streamId then s.pushChunk st.index [] else (s, [.returned 0])
    | none => (s, [.returned 0])
  | .close | .applicationClose | .statelessReset =>
    { s with connections := s.connections.erase cb.cnx }.dropState (s.connections.lookup cb.cnx)
  | _ => (s, [.returned 0])

/-- The bridged stream that an event is about: the one with its id, or the one it opens; the stream
of the connection, if the connection is over. -/
def ownStream (s : Server) (cb : StreamCallback) : Option ℕ :=
  match s.connections.lookup cb.cnx with
  | none => none
  | some state =>
    match state.stream with
    | none => if cb.event = .streamData then some s.streams.length else none
    | some st => if st.streamId = cb.streamId ∨ cb.event.closes then some st.index else none

/-! ## `server_loop_callback` -/

/-- What the drain needs of an entry of the map; nothing before its stream is open. -/
def target (s : Server) (key : CnxPtr) : Option (CnxPtr × ServerStream) :=
  (s.connections.lookup key).bind fun state => state.stream.map fun st => (state.cnx, st)

/-- `server_loop_callback` up to its first channel operation; `order` is the order in which the map
is iterated. -/
def loopCallback (s : Server) (cbMode : ℤ) (arg : LoopArg) (order : List CnxPtr) :
    Option (Server × List ServerObs) :=
  if cbMode = picoquicPacketLoopReady then
    some (s, (if arg = .null then [] else [.flags 1]) ++ [.returned 0])
  else if cbMode = picoquicPacketLoopTimeCheck then
    some (s, (arg.deltaT.map fun d => .deltaT (capDeltaT d)).toList ++ [.returned 0])
  else if cbMode = picoquicPacketLoopAfterReceive ∨ cbMode = picoquicPacketLoopAfterSend then
    if order.Perm s.connections.keys then
      some ({ s with pc := .drain (order.filterMap s.target) }, [])
    else none
  else some (s, [.returned 0])

/-- One round of `while let Ok(data) = send_rx.try_recv()` up to its token. The result `ret` is not
looked at, and neither is the reason why `try_recv` fails. -/
def drainOne (s : Server) (now : CnxPtr × ServerStream) (todo : List (CnxPtr × ServerStream))
    (ret : ℤ) : Server × List ServerObs :=
  match s.streams[now.2.index]? with
  | none => ({ s with pc := .drain todo }, [])
  | some b =>
    match b.sendTryRecv with
    | (.ok data, b, out) =>
      ({ s with streams := s.streams.set now.2.index b, pc := .wake now todo },
        out.map (.bridge now.2.index) ++
          [.add now.2.index now.1 now.2.streamId data (finOf data) ret])
    | (.error _, _, _) => ({ s with pc := .drain todo }, [])

/-- The next channel operation of a callback in progress. -/
def resume (s : Server) (ret : ℤ) : Option (Server × List ServerObs) :=
  match s.pc with
  | .idle => none
  | .firstData i v => some ({ s with pc := .idle }.pushChunk i v)
  | .drain [] => some ({ s with pc := .idle }, [.returned 0])
  | .drain (now :: todo) => some (s.drainOne now todo ret)
  | .wake now todo => some ({ s with pc := .drain (now :: todo) }.onStream now.2.index .wakeTrySend)
  | .dropSendRx i => some ({ s with pc := .dropWakeTx i }.onStream i .dropSendRx)
  | .dropWakeTx i =>
    let r := { s with pc := .idle }.onStream i .dropWakeTx
    some (r.1, r.2 ++ [.returned 0])

/-- A step of the task that holds the halves: as long as they are in the accept channel, they can
only be dropped. -/
def appStep (s : Server) (i : ℕ) (op : AppOp) : Option (Server × List ServerObs) :=
  match s.streams[i]? with
  | none => none
  | some b =>
    if i ∈ s.acceptQ ∧ op ≠ .dropStream then none
    else (b.app op).map fun r =>
      ({ s with streams := s.streams.set i r.1 }, r.2.map (.bridge i))

end Server

inductive ServerEvent where
  | app (index : ℕ) (op : AppOp)
  /-- `accept_rx.recv()` -/
  | accept
  | stream (cb : StreamCallback)
  | loop (cbMode : ℤ) (arg : LoopArg) (order : List CnxPtr)
  | resume (ret : ℤ)
  deriving DecidableEq, Repr

namespace Server

def step (s : Server) : ServerEvent → Option (Server × List ServerObs)
  | .app i op => s.appStep i op
  | .accept =>
    match s.acceptQ with
    | [] => none
    | _ :: rest => some ({ s with acceptQ := rest }, [])
  | .stream cb =>
    if s.pc = .idle then
      let r := s.streamCallback cb
      some (r.1, .callback cb (s.ownStream cb) :: r.2)
    else none
  | .loop cbMode arg order => if s.pc = .idle then s.loopCallback cbMode arg order else none
  | .resume ret => s.resume ret

/-- The server bridge under every interleaving of its connections, handlers and callbacks. -/
def machine : Machine Server ServerEvent ServerObs := ⟨step⟩

end Server
end TransportProxy.Slipstream
