import TransportProxy.Client.Steps

/-! # Opening a client connection

`connect_stream` (`transport/slipstream.rs`) spawns the packet-loop thread and waits for the first
of two things: the ready channel or a timer of 30 s.

The thread sets the connection up call by call before it enters the packet loop. The results of the
calls are inputs; each of the failing exits drops the ends of the channels, either as captured
variables or as the fields of the context, in the same order as after the packet loop. The context
is registered with `picoquic_create`, so stream callbacks are allowed from then on.

`tokio::select!` polls its branches in either order. When `connect_stream` returns, the ends that it
still holds are dropped one after the other: `ready_rx` only if it succeeds, which hands the others
to the stream.
-/
namespace TransportProxy.Slipstream
open Foundations
set_option autoImplicit false

/-- The value of a `*mut picoquic_quic_t`; `0` is null. -/
abbrev QuicPtr := ℕ

/-- `CString::new`: an interior NUL is an error. -/
def cStringNew (bytes : Bytes) : Option Bytes := if 0 ∈ bytes then none else some bytes

/-- `b"proxy-server"` -/
def alpn : Bytes := [112, 114, 111, 120, 121, 45, 115, 101, 114, 118, 101, 114]

/-- The arguments of `connect_stream`, as bytes. -/
structure ConnectArgs where
  host : Bytes
  port : UInt16
  serverName : Bytes
  trustedCertPath : Option Bytes
  deriving DecidableEq, Repr

/-- Where the packet-loop thread stands. -/
inductive Setup where
  /-- at `CString::new(host)`, and so on -/
  | hostC
  | alpnC
  | sniC
  | getServerAddress
  | create
  | createCnx (quic : QuicPtr)
  | startClientCnx (quic : QuicPtr) (cnx : CnxPtr)
  | packetLoop (quic : QuicPtr)
  /-- a step has failed: the ends are dropped next. `picoquic_free` may call back before that, if
  there is a connection -/
  | failed (registered : Bool)
  deriving DecidableEq, Repr

/-- A local of `connect_stream` that is dropped when it returns. -/
inductive Local where
  | readyRx
  | wakeRx
  | sendTx
  | recvRx
  deriving DecidableEq, Repr

inductive ConnectTask where
  /-- at the `tokio::select!` -/
  | select
  /-- returned `Ok` or an error with this text; these locals are still to be dropped -/
  | returned (error : Option String) (locals : List Local)
  deriving DecidableEq, Repr

structure Connect where
  setup : Setup
  client : Client
  /-- the 30 s are over -/
  timer : Bool
  task : ConnectTask

inductive ConnectObs where
  | client (o : ClientObs)
  | getServerAddress (host : Bytes) (port : UInt16) (ret : ℤ)
  | create (certRoot : Option Bytes) (alpn : Bytes) (quic : QuicPtr)
  | createCnx (quic : QuicPtr) (sni alpn : Bytes) (cnx : CnxPtr)
  | startClientCnx (cnx : CnxPtr) (ret : ℤ)
  | free (quic : QuicPtr)
  deriving DecidableEq, Repr

inductive ConnectEvent where
  /-- the conversion that the thread has come to -/
  | cString
  | getServerAddress (ret : ℤ)
  | create (quic : QuicPtr)
  | createCnx (cnx : CnxPtr)
  | startClientCnx (ret : ℤ)
  /-- a callback, the end of the packet loop, the drop of a field, or the stream in use -/
  | client (e : ClientEvent)
  | timer
  /-- the `select!` is polled, with this branch first -/
  | poll (recvFirst : Bool)
  /-- the next local of `connect_stream` is dropped -/
  | dropLocal
  deriving DecidableEq, Repr

namespace Connect

def init : Connect := ⟨.hostC, .init, false, .select⟩

variable (args : ConnectArgs)

/-- One call of the thread on its way to the packet loop. -/
def setupNext : Setup → ConnectEvent → Option (Setup × List ConnectObs)
  | .hostC, .cString => some (if cStringNew args.host = none then .failed false else .alpnC, [])
  | .alpnC, .cString => some (if cStringNew alpn = none then .failed false else .sniC, [])
  | .sniC, .cString =>
    some (if cStringNew args.serverName = none then .failed false else .getServerAddress, [])
  | .getServerAddress, .getServerAddress ret =>
    some (if ret ≠ 0 then .failed false else .create, [.getServerAddress args.host args.port ret])
  | .create, .create quic =>
    some (if quic = 0 then .failed false else .createCnx quic,
      [.create (args.trustedCertPath.bind cStringNew) alpn quic])
  | .createCnx quic, .createCnx cnx =>
    some (if cnx = 0 then .failed false else .startClientCnx quic cnx,
      .createCnx quic args.serverName alpn cnx :: if cnx = 0 then [.free quic] else [])
  | .startClientCnx quic cnx, .startClientCnx ret =>
    some (if ret ≠ 0 then .failed true else .packetLoop quic,
      .startClientCnx cnx ret :: if ret ≠ 0 then [.free quic] else [])
  | _, _ => none

/-- What the thread and the stream may do. -/
def allows (s : Connect) : ClientEvent → Bool
  | .app _ => s.task == .returned none []
  | .stream _ _ _ =>
    match s.setup with
    | .createCnx _ | .startClientCnx _ _ | .packetLoop _ => true
    | .failed registered => registered
    | _ => false
  | .loop _ _ _ =>
    match s.setup with
    | .packetLoop _ => true
    | _ => false
  | .resume _ | .loopReturn =>
    match s.setup with
    | .packetLoop _ | .failed _ => true
    | _ => false

/-- `picoquic_free(quic)` after the packet loop. -/
def freed (s : Connect) : ClientEvent → List ConnectObs
  | .loopReturn =>
    match s.setup with
    | .packetLoop quic => [.free quic]
    | _ => []
  | _ => []

def bail (s : Connect) : Connect :=
  { s with
    task := .returned (some "slipstream-picoquic connection timeout (30s)")
      [.readyRx, .wakeRx, .sendTx, .recvRx] }

/-- One poll of the `select!`. The branch of `ready_rx.recv()` takes whatever it returns. -/
def poll (s : Connect) (recvFirst : Bool) : Connect :=
  if s.timer = true ∧ recvFirst = false then s.bail
  else
    match s.client.readyQ.pollRecv with
    | (.ready _, q) =>
      { s with client := { s.client with readyQ := q }, task := .returned none [.readyRx] }
    | (.pending, q) =>
      let s := { s with client := { s.client with readyQ := q } }
      if s.timer then s.bail else s

def dropLocal (client : Client) : Local → Client
  | .readyRx => { client with readyQ := client.readyQ.dropReceiver }
  | .wakeRx =>
    { client with bridge := { client.bridge with wakeQ := client.bridge.wakeQ.dropReceiver } }
  | .sendTx =>
    { client with bridge := { client.bridge with sendQ := client.bridge.sendQ.dropSender } }
  | .recvRx =>
    { client with bridge := { client.bridge with recvQ := client.bridge.recvQ.dropReceiver } }

def step (s : Connect) : ConnectEvent → Option (Connect × List ConnectObs)
  | .client e =>
    if s.allows e then (s.client.step e).map fun r =>
      ({ s with client := r.1 }, s.freed e ++ r.2.map .client)
    else none
  | .timer => some ({ s with timer := true }, [])
  | .poll recvFirst => if s.task = .select then some (s.poll recvFirst, []) else none
  | .dropLocal =>
    match s.task with
    | .returned error (l :: locals) =>
      some ({ s with client := dropLocal s.client l, task := .returned error locals }, [])
    | _ => none
  | e => (setupNext args s.setup e).map fun r => ({ s with setup := r.1 }, r.2)

/-- `connect_stream` under every interleaving of its thread, its timer and its polls. -/
def machine : Machine Connect ConnectEvent ConnectObs := ⟨step args⟩

/-! ## One step -/

variable {args}

inductive Step (args : ConnectArgs) (s : Connect) :
    ConnectEvent → Connect → List ConnectObs → Prop where
  | setup {e next out} (h : setupNext args s.setup e = some (next, out)) :
      Step args s e { s with setup := next } out
  | client {e client out} (ha : s.allows e = true) (h : Client.Step s.client e client out) :
      Step args s (.client e) { s with client := client } (s.freed e ++ out.map .client)
  | timer : Step args s .timer { s with timer := true } []
  | token {recvFirst rest} (ht : s.task = .select) (hf : recvFirst = true ∨ s.timer = false)
      (hb : s.client.readyQ.buf = () :: rest) :
      Step args s (.poll recvFirst)
        { s with
          client := { s.client with readyQ := s.client.readyQ.pop }
          task := .returned none [.readyRx] } []
  | closed {recvFirst} (ht : s.task = .select) (hf : recvFirst = true ∨ s.timer = false)
      (hb : s.client.readyQ.buf = []) (hs : s.client.readyQ.sender = false) :
      Step args s (.poll recvFirst) { s with task := .returned none [.readyRx] } []
  | waits {recvFirst} (ht : s.task = .select) (hf : s.timer = false)
      (hb : s.client.readyQ.buf = []) (hs : s.client.readyQ.sender = true) :
      Step args s (.poll recvFirst)
        { s with client := { s.client with readyQ := s.client.readyQ.wait } } []
  | bailed (ht : s.task = .select) (hf : s.timer = true) :
      Step args s (.poll false) s.bail []
  | bailedLate (ht : s.task = .select) (hf : s.timer = true)
      (hb : s.client.readyQ.buf = []) (hs : s.client.readyQ.sender = true) :
      Step args s (.poll true)
        { s with client := { s.client with readyQ := s.client.readyQ.wait } }.bail []
  | dropLocal {error l locals} (ht : s.task = .returned error (l :: locals)) :
      Step args s .dropLocal
        { s with client := Connect.dropLocal s.client l, task := .returned error locals } []

theorem poll_cases {s : Connect} (ht : s.task = .select) (recvFirst : Bool) :
    Step args s (.poll recvFirst) (s.poll recvFirst) [] := by
  unfold poll
  by_cases hf : s.timer = true ∧ recvFirst = false
  · rw [if_pos hf, hf.2]
    exact .bailed ht hf.1
  · rw [if_neg hf]
    have hf' : recvFirst = true ∨ s.timer = false := by
      cases recvFirst <;> simp_all
    obtain ⟨u, rest, hb, hq⟩ | ⟨hb, hs, hq⟩ | ⟨hb, hs, hq⟩ := s.client.readyQ.pollRecv_cases
    · rw [hq]
      exact .token ht hf' hb
    · simp only [hq]
      by_cases htimer : s.timer = true
      · have hfirst : recvFirst = true := hf'.resolve_right (by rw [htimer]; nofun)
        rw [if_pos htimer, hfirst]
        exact .bailedLate ht htimer hb hs
      · rw [if_neg htimer]
        exact .waits ht (Bool.eq_false_iff.mpr htimer) hb hs
    · rw [hq]
      exact .closed ht hf' hb hs

theorem step_cases {s s' : Connect} {e : ConnectEvent} {out : List ConnectObs}
    (h : (machine args).step s e = some (s', out)) : Step args s e s' out := by
  change step args s e = some (s', out) at h
  cases e with
  | client e =>
    simp only [step, Option.ite_none_right_eq_some, Option.map_eq_some_iff, Prod.mk.injEq] at h
    obtain ⟨ha, ⟨c, cout⟩, hc, rfl, rfl⟩ := h
    exact .client ha (Client.step_cases hc)
  | timer =>
    simp only [step, Option.some.injEq, Prod.mk.injEq] at h
    obtain ⟨rfl, rfl⟩ := h
    exact .timer
  | poll recvFirst =>
    simp only [step, Option.ite_none_right_eq_some, Option.some.injEq, Prod.mk.injEq] at h
    obtain ⟨ht, rfl, rfl⟩ := h
    exact poll_cases ht recvFirst
  | dropLocal =>
    simp only [step] at h
    split at h
    · rename_i error l locals ht
      simp only [Option.some.injEq, Prod.mk.injEq] at h
      obtain ⟨rfl, rfl⟩ := h
      exact .dropLocal ht
    · cases h
  | cString | getServerAddress | create | createCnx | startClientCnx =>
    simp only [step, Option.map_eq_some_iff, Prod.mk.injEq] at h
    obtain ⟨⟨next, nout⟩, hn, rfl, rfl⟩ := h
    exact .setup hn

end Connect
end TransportProxy.Slipstream
