import TransportProxy.Client.SendOrder
import TransportProxy.Foundations.View
import TransportProxy.Server.Routing

/-! # A connection from end to end

A client bridge and a server joined by one stream. What either side hands over with
`picoquic_add_to_stream` on that stream is carried to the other by a reliable ordered stream: `up`
and `down` are the bytes on their way, and `deliverUp` and `deliverDown` bring any number of them as
one stream_data event. Everything else is free: the operations of the tasks that hold the streams,
the callbacks of both packet loops with their return codes, the other connections of the server, and
the events of this one that are no data (end of stream, reset, stop_sending, close).

`key` is the pointer under which the server knows the connection, and `sid` the id that picoquic
gives the client's stream, the only one of the connection. Which of its own streams the bytes get to
is up to the server.
-/
namespace TransportProxy.Slipstream
open Foundations
set_option autoImplicit false

structure Duplex where
  client : Client
  server : Server
  /-- handed over by the client and not delivered yet -/
  up : Bytes
  /-- handed over by the server and not delivered yet -/
  down : Bytes

inductive DuplexEvent where
  | client (e : ClientEvent)
  | server (e : ServerEvent)
  /-- the network brings this many bytes to the server, or to the client, in one event -/
  | deliverUp (n : ℕ)
  | deliverDown (n : ℕ)
  deriving DecidableEq, Repr

inductive DuplexObs where
  | client (o : ClientObs)
  | server (o : ServerObs)
  deriving DecidableEq, Repr

/-- The event brings bytes to the client. -/
def ClientEvent.brings : ClientEvent → Bool
  | .stream cb _ _ => cb.data.isSome
  | _ => false

/-- The event brings data of the connection to the server. -/
def ServerEvent.brings (key : CnxPtr) : ServerEvent → Bool
  | .stream cb => cb.event == .streamData && cb.cnx == key
  | _ => false

/-- The bytes that these calls hand over on stream `sid`. -/
def AddToStream.carried (sid : UInt64) (cs : List AddToStream) : Bytes :=
  (cs.filter fun c => c.streamId = sid ∧ c.ret = 0).flatMap AddToStream.data

namespace Duplex
variable (key : CnxPtr) (sid : UInt64)

def init : Duplex := ⟨.init, .init, [], []⟩

/-- The stream_data event with the next `n` bytes for the server. -/
def upCallback (s : Duplex) (n : ℕ) : StreamCallback := ⟨key, sid, some (s.up.take n), .streamData⟩

def downCallback (s : Duplex) (n : ℕ) : StreamCallback :=
  ⟨s.client.ctx.cnx, sid, some (s.down.take n), .streamData⟩

/-- What these steps of the client hand over on the stream. -/
def sentUp (out : List ClientObs) : Bytes := AddToStream.carried sid (Client.adds out)

/-- And these steps of the server, on the same stream of the same connection. -/
def sentDown (out : List ServerObs) : Bytes := AddToStream.carried sid (Server.addsOn key out)

/-- A step of the client, and what it hands over is on its way. -/
def clientStep (s : Duplex) (e : ClientEvent) : Option (Duplex × List DuplexObs) :=
  (Client.machine.step s.client e).map fun r =>
    ({ s with client := r.1, up := s.up ++ sentUp sid r.2 }, r.2.map .client)

def serverStep (s : Duplex) (e : ServerEvent) : Option (Duplex × List DuplexObs) :=
  (Server.machine.step s.server e).map fun r =>
    ({ s with server := r.1, down := s.down ++ sentDown key sid r.2 }, r.2.map .server)

def step (s : Duplex) : DuplexEvent → Option (Duplex × List DuplexObs)
  | .client e => if e.GivesId sid ∧ e.brings = false then s.clientStep sid e else none
  | .server e => if e.brings key = false then s.serverStep key sid e else none
  | .deliverUp n =>
    if n ≤ s.up.length then
      { s with up := s.up.drop n }.serverStep key sid (.stream (s.upCallback key sid n))
    else none
  | .deliverDown n =>
    if n ≤ s.down.length then
      { s with down := s.down.drop n }.clientStep sid (.stream (s.downCallback sid n) 0 0)
    else none

/-- Both ends and the network under every interleaving. -/
def machine : Machine Duplex DuplexEvent DuplexObs := ⟨step key sid⟩

/-- A task may make its operations at any moment. -/
theorem step_client_app (s : Duplex) (op : AppOp) :
    (machine key sid).step s (.client (.app op)) = s.clientStep sid (.app op) := by
  simp [machine, step, ClientEvent.GivesId, ClientEvent.brings]

theorem step_server_app (s : Duplex) (j : ℕ) (op : AppOp) :
    (machine key sid).step s (.server (.app j op)) = s.serverStep key sid (.app j op) := by
  simp [machine, step, ServerEvent.brings]

end Duplex

@[simp] def DuplexObs.client? : DuplexObs → Option ClientObs
  | .client o => some o
  | .server _ => none

@[simp] def DuplexObs.server? : DuplexObs → Option ServerObs
  | .client _ => none
  | .server o => some o

namespace Duplex

/-- What a trace shows of the client, and of the server. -/
def clientTrace (tr : List DuplexObs) : List ClientObs := tr.filterMap DuplexObs.client?

def serverTrace (tr : List DuplexObs) : List ServerObs := tr.filterMap DuplexObs.server?

@[simp] theorem clientTrace_nil : clientTrace [] = [] := rfl
@[simp] theorem serverTrace_nil : serverTrace [] = [] := rfl

@[simp] theorem clientTrace_append (t u : List DuplexObs) :
    clientTrace (t ++ u) = clientTrace t ++ clientTrace u := List.filterMap_append ..

@[simp] theorem serverTrace_append (t u : List DuplexObs) :
    serverTrace (t ++ u) = serverTrace t ++ serverTrace u := List.filterMap_append ..

@[simp] theorem clientTrace_map_client (t : List ClientObs) : clientTrace (t.map .client) = t := by
  induction t with
  | nil => rfl
  | cons o t ih => exact congrArg (o :: ·) ih

@[simp] theorem clientTrace_map_server (t : List ServerObs) : clientTrace (t.map .server) = [] :=
  filterMap_map_none (fun _ => rfl) t

@[simp] theorem serverTrace_map_server (t : List ServerObs) : serverTrace (t.map .server) = t := by
  induction t with
  | nil => rfl
  | cons o t ih => exact congrArg (o :: ·) ih

@[simp] theorem serverTrace_map_client (t : List ClientObs) : serverTrace (t.map .client) = [] :=
  filterMap_map_none (fun _ => rfl) t

/-- What the client's task has put into its send queue. -/
def written (tr : List DuplexObs) : List Bytes := Client.enqueued (clientTrace tr)

/-- What the reads of the client's task have returned. -/
def readBack (tr : List DuplexObs) : Bytes :=
  (reads (Client.bridgeTrace (clientTrace tr))).flatten

/-- What the task of stream `j` of the server has read, and what it has put into the send queue. -/
def heard (j : ℕ) (tr : List DuplexObs) : Bytes :=
  (reads (Server.bridgeTrace j (serverTrace tr))).flatten

def answered (j : ℕ) (tr : List DuplexObs) : List Bytes :=
  queued (Server.bridgeTrace j (serverTrace tr))

/-- The streams of the server that the connection has opened. -/
def streams (key : CnxPtr) (tr : List DuplexObs) : List ℕ := Server.acceptedOf key (serverTrace tr)

/-! ## What one step can do -/

/-- The event of the client that a step makes, if it is one of the client. -/
def clientEvent (sid : UInt64) (s : Duplex) : DuplexEvent → Option ClientEvent
  | .client e => some e
  | .deliverDown n => some (.stream (s.downCallback sid n) 0 0)
  | .server _ | .deliverUp _ => none

def serverEvent (key : CnxPtr) (sid : UInt64) (s : Duplex) : DuplexEvent → Option ServerEvent
  | .server e => some e
  | .deliverUp n => some (.stream (s.upCallback key sid n))
  | .client _ | .deliverDown _ => none

end Duplex

/-- The bytes of the connection that an event brings to the server. -/
def ServerEvent.brought (key : CnxPtr) : ServerEvent → Bytes
  | .stream cb => if cb.cnx = key then cb.data.getD [] else []
  | _ => []

namespace Duplex
variable (key : CnxPtr) (sid : UInt64)

/-- A step is one of the client or one of the server. The bytes that it delivers leave
the way to them, and those that it hands over join the way from them. -/
inductive Step (s : Duplex) (e : DuplexEvent) (s' : Duplex) (out : List DuplexObs) : Prop where
  | client (ce : ClientEvent) (cout : List ClientObs) (he : s.clientEvent sid e = some ce)
      (hs : Client.machine.step s.client ce = some (s'.client, cout))
      (hout : out = cout.map .client) (hserver : s'.server = s.server) (hid : ce.GivesId sid)
      (hup : s'.up = s.up ++ sentUp sid cout)
      (hdown : s.down = (ce.callback.bind StreamCallback.data).getD [] ++ s'.down)
  | server (se : ServerEvent) (sout : List ServerObs) (he : s.serverEvent key sid e = some se)
      (hs : Server.machine.step s.server se = some (s'.server, sout))
      (hout : out = sout.map .server) (hclient : s'.client = s.client) (hid : se.GivesId key sid)
      (hdown : s'.down = s.down ++ sentDown key sid sout)
      (hup : s.up = se.brought key ++ s'.up)

variable {key sid}

/-- An event that the network makes brings the bytes that it takes. -/
theorem data_of_take {cb : StreamCallback} {b : Bytes} (he : cb.event = .streamData)
    (hb : cb.bytes = some b) : cb.data.getD [] = b := by
  rw [StreamCallback.data, if_pos he, StreamCallback.chunk_getD, StreamCallback.payload, hb]
  rfl

theorem brought_of_not_brings {e : ServerEvent} (h : e.brings key = false) :
    e.brought key = [] := by
  cases e with
  | stream cb =>
    by_cases hk : cb.cnx = key
    · have he : cb.event ≠ .streamData := by simpa [ServerEvent.brings, hk] using h
      rw [ServerEvent.brought, if_pos hk, StreamCallback.data, if_neg he]
      rfl
    · exact if_neg hk
  | app | accept | loop | resume => rfl

theorem givesId_of_not_brings {e : ServerEvent} (h : e.brings key = false) : e.GivesId key sid := by
  cases e with
  | stream cb =>
    intro hev hk
    simp [ServerEvent.brings, hev, hk] at h
  | app | accept | loop | resume => trivial

theorem brought_upCallback (s : Duplex) (n : ℕ) :
    (ServerEvent.stream (s.upCallback key sid n)).brought key = s.up.take n :=
  (if_pos rfl).trans (data_of_take rfl rfl)

theorem step_cases {s s' : Duplex} {e : DuplexEvent} {out : List DuplexObs}
    (h : (machine key sid).step s e = some (s', out)) : Step key sid s e s' out := by
  cases e with
  | client e =>
    simp only [machine, step, Option.ite_none_right_eq_some, clientStep,
      Option.map_eq_some_iff] at h
    obtain ⟨⟨hid, hb⟩, ⟨c, cout⟩, hs, he⟩ := h
    obtain ⟨rfl, rfl⟩ := Prod.mk.inj he
    refine .client e cout rfl hs rfl rfl hid rfl ?_
    have hn : e.callback.bind StreamCallback.data = none := by
      cases e with
      | stream cb => simpa [ClientEvent.brings, ClientEvent.callback] using hb
      | app | loop | resume | loopReturn => rfl
    rw [hn]
    rfl
  | server e =>
    simp only [machine, step, Option.ite_none_right_eq_some, serverStep,
      Option.map_eq_some_iff] at h
    obtain ⟨hb, ⟨t, sout⟩, hs, he⟩ := h
    obtain ⟨rfl, rfl⟩ := Prod.mk.inj he
    exact .server e sout rfl hs rfl rfl (givesId_of_not_brings hb) rfl
      (by rw [brought_of_not_brings hb, List.nil_append])
  | deliverUp n =>
    simp only [machine, step, Option.ite_none_right_eq_some, serverStep,
      Option.map_eq_some_iff] at h
    obtain ⟨hle, ⟨t, sout⟩, hs, he⟩ := h
    obtain ⟨rfl, rfl⟩ := Prod.mk.inj he
    refine .server _ sout rfl hs rfl rfl (fun _ _ => rfl) rfl ?_
    rw [brought_upCallback, List.take_append_drop]
  | deliverDown n =>
    simp only [machine, step, Option.ite_none_right_eq_some, clientStep,
      Option.map_eq_some_iff] at h
    obtain ⟨hle, ⟨c, cout⟩, hs, he⟩ := h
    obtain ⟨rfl, rfl⟩ := Prod.mk.inj he
    refine .client _ cout rfl hs rfl rfl (fun hev => by cases hev) rfl ?_
    rw [ClientEvent.callback, Option.bind_some, data_of_take rfl rfl, List.take_append_drop]

/-- What one sees of the client. -/
def clientView : Machine.View (machine key sid) Client.machine where
  state := Duplex.client
  obs := DuplexObs.client?
  event := clientEvent sid
  sound s e s' out h := by
    cases step_cases h with
    | client ce cout he hs hout =>
      subst hout
      exact .inr ⟨ce, he, hs.trans
        (congrArg (fun t => some (s'.client, t)) (clientTrace_map_client cout).symm)⟩
    | server se sout he hs hout hclient =>
      subst hout
      refine .inl ⟨?_, hclient, clientTrace_map_server sout⟩
      cases e with
      | server | deliverUp => rfl
      | client | deliverDown => cases he

/-- And of the server. -/
def serverView : Machine.View (machine key sid) Server.machine where
  state := Duplex.server
  obs := DuplexObs.server?
  event := serverEvent key sid
  sound s e s' out h := by
    cases step_cases h with
    | client ce cout he hs hout hserver =>
      subst hout
      refine .inl ⟨?_, hserver, serverTrace_map_client cout⟩
      cases e with
      | client | deliverDown => rfl
      | server | deliverUp => cases he
    | server se sout he hs hout =>
      subst hout
      exact .inr ⟨se, he, hs.trans
        (congrArg (fun t => some (s'.server, t)) (serverTrace_map_server sout).symm)⟩

variable {s : Duplex} {es : List DuplexEvent} {tr : List DuplexObs}
  {G : Duplex → DuplexEvent → Prop}

/-- A guarded run, seen from the client under the guard that it has there. -/
theorem client_run {H : Client → ClientEvent → Prop}
    (hGH : ∀ s e ce r, (machine key sid).step s e = some r → G s e →
      s.clientEvent sid e = some ce → H s.client ce)
    (hr : (machine key sid).run init es = some (s, tr)) (hg : (machine key sid).Along G init es) :
    ∃ fs, Client.machine.run .init fs = some (s.client, clientTrace tr) ∧
      Client.machine.Along H .init fs :=
  clientView.run_along hGH hr hg

theorem server_run {H : Server → ServerEvent → Prop}
    (hGH : ∀ s e se r, (machine key sid).step s e = some r → G s e →
      s.serverEvent key sid e = some se → H s.server se)
    (hr : (machine key sid).run init es = some (s, tr)) (hg : (machine key sid).Along G init es) :
    ∃ fs, Server.machine.run .init fs = some (s.server, serverTrace tr) ∧
      Server.machine.Along H .init fs :=
  serverView.run_along hGH hr hg

end Duplex
end TransportProxy.Slipstream
