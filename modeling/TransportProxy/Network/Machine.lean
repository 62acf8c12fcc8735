import TransportProxy.Duplex.Connections
import TransportProxy.Foundations.Leads
import TransportProxy.Tunnel.Machine

/-! # Many clients of one echo server

The connections of one server whose streams are held by echo handlers: one packet loop serves all of
them, and the handlers share the map of connections and the accept queue. What one client sees of
such a network is a tunnel, in which the other clients are events of the server that bring nothing
on its connection.
-/
namespace TransportProxy.Slipstream
open Foundations
set_option autoImplicit false

structure Network (ι : Type) where
  connections : Connections ι
  /-- the handlers of the server's streams -/
  task : ℕ → EchoTask

inductive NetworkEvent (ι : Type) where
  /-- the handler of this stream is polled -/
  | poll (j : ℕ)
  | connections (e : ConnectionsEvent ι)
  deriving DecidableEq, Repr

/-- An operation of one of the server's tasks. -/
def ConnectionsEvent.ofTask {ι : Type} : ConnectionsEvent ι → Bool
  | .server (.app _ _) => true
  | _ => false

namespace Network
variable {ι : Type}

def init : Network ι := ⟨.init, fun _ => .reading⟩

/-- The server with its handlers. -/
def server (s : Network ι) : EchoServer := ⟨s.connections.server, s.task⟩

/-- The tunnel that the network is for one client. -/
def tunnel (s : Network ι) (i : ι) : Tunnel := ⟨s.connections.duplex i, s.task⟩

section Step
variable [DecidableEq ι] [Fintype ι] (key : ι → CnxPtr) (sid : ι → UInt64)

def step (s : Network ι) : NetworkEvent ι → Option (Network ι × List (ConnectionsObs ι))
  | .poll j =>
    ((Connections.machine key sid).step s.connections
      (.server (.app j (s.server.opOf j)))).map fun r =>
        (⟨r.1, Function.update s.task j
          ((s.task j).next (Server.bridgeTrace j (Connections.serverTrace r.2)))⟩, r.2)
  | .connections e =>
    if e.ofTask then none
    else ((Connections.machine key sid).step s.connections e).map fun r =>
      ({ s with connections := r.1 }, r.2)

/-- All clients, the server with its handlers and the network under every interleaving. -/
def machine : Machine (Network ι) (NetworkEvent ι) (ConnectionsObs ι) := ⟨step key sid⟩

end Step

/-! ## The network as one client sees it -/

variable [DecidableEq ι] (key : ι → CnxPtr) (sid : ι → UInt64)

/-- The event of the tunnel of client `i` that an event of the network is. -/
def tunnelEvent (i : ι) (s : Network ι) : NetworkEvent ι → Option TunnelEvent
  | .poll j => some (.poll j)
  | .connections e => (Connections.duplexEvent key sid i s.connections e).map .duplex

variable {key sid} {i : ι} {s s' : Network ι} {e : NetworkEvent ι} {out : List (ConnectionsObs ι)}

omit [DecidableEq ι] in
theorem ofTask_lift (i : ι) (de : DuplexEvent) : (Connections.lift i de).ofTask = de.ofTask := by
  cases de with
  | server e => cases e <;> rfl
  | client | deliverUp | deliverDown => rfl

theorem ofTask_duplexEvent {c : Connections ι} {ce : ConnectionsEvent ι} {de : DuplexEvent}
    (h : Connections.duplexEvent key sid i c ce = some de) (hn : ce.ofTask = false) :
    de.ofTask = false := by
  obtain rfl | ⟨k, n, cb, rfl, rfl⟩ := Connections.duplexEvent_cases h
  · rwa [ofTask_lift] at hn
  · rfl

variable [Fintype ι]

/-- A step of the network is one of the tunnel of client `i`, or nothing there. -/
theorem step_tunnel (hinj : Function.Injective key)
    (h : (machine key sid).step s e = some (s', out)) (i : ι) :
    match tunnelEvent key sid i s e with
    | none => s'.tunnel i = s.tunnel i ∧ Connections.seen i out = []
    | some te => (Tunnel.machine (key i) (sid i)).step (s.tunnel i) te =
        some (s'.tunnel i, Connections.seen i out) := by
  cases e with
  | poll j =>
    obtain ⟨⟨c, cout⟩, hs, he⟩ := Option.map_eq_some_iff.mp h
    obtain ⟨rfl, rfl⟩ := Prod.mk.inj he
    have hd : (Duplex.machine (key i) (sid i)).step (s.connections.duplex i)
        (.server (.app j (s.server.opOf j))) = some (c.duplex i, Connections.seen i cout) :=
      Connections.step_duplex hinj hs i
    simp only [tunnelEvent, Tunnel.machine, Tunnel.step, Option.map_eq_some_iff]
    exact ⟨_, hd, by rw [Connections.serverTrace_seen]; rfl⟩
  | connections e =>
    simp only [machine, step, Option.ite_none_left_eq_some, Option.map_eq_some_iff] at h
    obtain ⟨ht, ⟨c, cout⟩, hs, he⟩ := h
    obtain ⟨rfl, rfl⟩ := Prod.mk.inj he
    have hd := Connections.step_duplex hinj hs i
    simp only [tunnelEvent]
    cases hde : Connections.duplexEvent key sid i s.connections e with
    | none =>
      rw [hde] at hd
      exact ⟨by rw [tunnel, hd.1]; rfl, hd.2⟩
    | some de =>
      rw [hde] at hd
      have hn := ofTask_duplexEvent hde (by simpa using ht)
      simp only [Option.map_some, Tunnel.machine, Tunnel.step, hn, Bool.false_eq_true, if_false,
        Option.map_eq_some_iff]
      exact ⟨_, hd, rfl⟩

/-- What client `i` sees of the network. -/
def tunnelView (hinj : Function.Injective key) (i : ι) :
    Machine.View (machine key sid) (Tunnel.machine (key i) (sid i)) where
  state s := s.tunnel i
  obs := ConnectionsObs.seen i
  event := tunnelEvent key sid i
  sound s e s' out h := by
    have ht := step_tunnel hinj h i
    cases hte : tunnelEvent key sid i s e with
    | none =>
      rw [hte] at ht
      exact .inl ⟨rfl, ht⟩
    | some te =>
      rw [hte] at ht
      exact .inr ⟨te, rfl, ht⟩

/-- A guarded run, seen from client `i` under the guard that it has there. -/
theorem tunnel_run (hinj : Function.Injective key) (i : ι) {G : Network ι → NetworkEvent ι → Prop}
    {H : Tunnel → TunnelEvent → Prop}
    (hGH : ∀ s e te, G s e → tunnelEvent key sid i s e = some te → H (s.tunnel i) te)
    {es : List (NetworkEvent ι)} {s t : Network ι} {tr : List (ConnectionsObs ι)}
    (hr : (machine key sid).run s es = some (t, tr)) (hg : (machine key sid).Along G s es) :
    ∃ fs, (Tunnel.machine (key i) (sid i)).run (s.tunnel i) fs =
        some (t.tunnel i, Connections.seen i tr) ∧
      (Tunnel.machine (key i) (sid i)).Along H (s.tunnel i) fs :=
  (tunnelView hinj i).run_along (fun s e te _ _ => hGH s e te) hr hg

end Network
end TransportProxy.Slipstream
