import TransportProxy.Duplex.Machine
import TransportProxy.Server.Echo

/-! # A connection to an echo server

The client of such a connection is free, and the streams of the server are held by echo handlers. A
tunnel is a joined pair of ends in which the operations of the server's tasks are the polls of these
handlers.
-/
namespace TransportProxy.Slipstream
open Foundations
set_option autoImplicit false

structure Tunnel where
  duplex : Duplex
  /-- the handlers of the server's streams -/
  task : ℕ → EchoTask

inductive TunnelEvent where
  /-- the handler of this stream is polled -/
  | poll (j : ℕ)
  | duplex (e : DuplexEvent)
  deriving DecidableEq, Repr

/-- An operation of one of the server's tasks. -/
def DuplexEvent.ofTask : DuplexEvent → Bool
  | .server (.app _ _) => true
  | _ => false

namespace Tunnel
variable (key : CnxPtr) (sid : UInt64)

def init : Tunnel := ⟨.init, fun _ => .reading⟩

/-- The server with its handlers. -/
def server (s : Tunnel) : EchoServer := ⟨s.duplex.server, s.task⟩

def step (s : Tunnel) : TunnelEvent → Option (Tunnel × List DuplexObs)
  | .poll j =>
    ((Duplex.machine key sid).step s.duplex (.server (.app j (s.server.opOf j)))).map fun r =>
      (⟨r.1, Function.update s.task j
        ((s.task j).next (Server.bridgeTrace j (Duplex.serverTrace r.2)))⟩, r.2)
  | .duplex e =>
    if e.ofTask then none
    else ((Duplex.machine key sid).step s.duplex e).map fun r => ({ s with duplex := r.1 }, r.2)

/-- Both ends, the handlers and the network under every interleaving. -/
def machine : Machine Tunnel TunnelEvent DuplexObs := ⟨step key sid⟩

/-- The event of the two ends that an event is. -/
def duplexEvent (s : Tunnel) : TunnelEvent → DuplexEvent
  | .poll j => .server (.app j (s.server.opOf j))
  | .duplex e => e

/-- And the event of the echo server, if it is one. -/
def serverEvent (s : Tunnel) : TunnelEvent → Option EchoEvent
  | .poll j => some (.poll j)
  | .duplex e => (s.duplex.serverEvent key sid e).map .server

variable {key sid} {s s' : Tunnel} {e : TunnelEvent} {out : List DuplexObs}

/-- A step is one of the two ends without the handlers. -/
theorem step_cases (h : (machine key sid).step s e = some (s', out)) :
    (Duplex.machine key sid).step s.duplex (s.duplexEvent e) = some (s'.duplex, out) ∧
      ((∃ j, e = .poll j ∧ s'.task = Function.update s.task j
        ((s.task j).next (Server.bridgeTrace j (Duplex.serverTrace out)))) ∨
      ∃ de, e = .duplex de ∧ de.ofTask = false ∧ s'.task = s.task) := by
  cases e with
  | poll j =>
    obtain ⟨r, hr, he⟩ := Option.map_eq_some_iff.mp h
    obtain ⟨rfl, rfl⟩ := Prod.mk.inj he
    exact ⟨hr, .inl ⟨j, rfl, rfl⟩⟩
  | duplex de =>
    simp only [machine, step, Option.ite_none_left_eq_some, Option.map_eq_some_iff] at h
    obtain ⟨ht, r, hr, he⟩ := h
    obtain ⟨rfl, rfl⟩ := Prod.mk.inj he
    exact ⟨hr, .inr ⟨de, rfl, by simpa using ht, rfl⟩⟩

/-- What the echo server does in a step that is one of the server. -/
theorem step_server (h : (machine key sid).step s e = some (s', out)) {se : ServerEvent}
    {sout : List ServerObs} (he : s.duplex.serverEvent key sid (s.duplexEvent e) = some se)
    (hs : Server.machine.step s.duplex.server se = some (s'.duplex.server, sout))
    (hout : out = sout.map .server) :
    ∃ f, s.serverEvent key sid e = some f ∧ s.server.serverEvent f = se ∧
      EchoServer.machine.step s.server f = some (s'.server, sout) := by
  obtain ⟨-, ⟨j, rfl, ht⟩ | ⟨de, rfl, hn, ht⟩⟩ := step_cases h
  · obtain rfl := Option.some.inj he
    refine ⟨.poll j, rfl, rfl, ?_⟩
    rw [hout, Duplex.serverTrace_map_server] at ht
    simp only [EchoServer.machine, EchoServer.step, server, ht, Option.map_eq_some_iff]
    exact ⟨_, hs, rfl⟩
  · rw [duplexEvent] at he
    have hl : se.isLoop = true := by
      cases de with
      | server e =>
        obtain rfl := Option.some.inj he
        cases e with
        | app => cases hn
        | stream | accept | loop | resume => rfl
      | deliverUp n =>
        obtain rfl := Option.some.inj he
        rfl
      | client | deliverDown => cases he
    refine ⟨.server se, by rw [serverEvent, he]; rfl, rfl, ?_⟩
    simp only [EchoServer.machine, EchoServer.step, hl, if_true, server, ht,
      Option.map_eq_some_iff]
    exact ⟨_, hs, rfl⟩

/-- What one sees without the handlers. -/
def duplexView : Machine.View (machine key sid) (Duplex.machine key sid) where
  state := duplex
  obs := some
  event s e := some (s.duplexEvent e)
  sound s e s' out h := by
    rw [List.filterMap_some]
    exact .inr ⟨_, rfl, (step_cases h).1⟩

/-- And what one sees of the echo server. -/
def serverView : Machine.View (machine key sid) EchoServer.machine where
  state := Tunnel.server
  obs := DuplexObs.server?
  event := serverEvent key sid
  sound s e s' out h := by
    cases Duplex.step_cases (step_cases h).1 with
    | client ce cout he hs hout hserver =>
      subst hout
      have hserve : s'.server = s.server ∧ s.serverEvent key sid e = none := by
        obtain ⟨-, ⟨j, rfl, -⟩ | ⟨de, rfl, -, ht⟩⟩ := step_cases h
        · cases he
        · refine ⟨by rw [server, hserver, ht]; rfl, ?_⟩
          cases de with
          | client | deliverDown => rfl
          | server | deliverUp => cases he
      exact .inl ⟨hserve.2, hserve.1, Duplex.serverTrace_map_client cout⟩
    | server se sout he hs hout =>
      obtain ⟨f, hf, -, hstep⟩ := step_server h he hs hout
      subst hout
      exact .inr ⟨f, hf, hstep.trans
        (congrArg (fun t => some (s'.server, t)) (Duplex.serverTrace_map_server sout).symm)⟩

variable {es : List TunnelEvent} {tr : List DuplexObs} {G : Tunnel → TunnelEvent → Prop}

/-- A guarded run of the tunnel is one of the two ends. -/
theorem duplex_run {H : Duplex → DuplexEvent → Prop}
    (hGH : ∀ s e r, (machine key sid).step s e = some r → G s e → H s.duplex (s.duplexEvent e))
    (hr : (machine key sid).run init es = some (s, tr)) (hg : (machine key sid).Along G init es) :
    ∃ fs, (Duplex.machine key sid).run .init fs = some (s.duplex, tr) ∧
      (Duplex.machine key sid).Along H .init fs := by
  have hrun := duplexView.run_along (H := H)
    (fun s e f r hs hg hf => Option.some.inj hf ▸ hGH s e r hs hg) hr hg
  rwa [show duplexView.obs = some from rfl, List.filterMap_some] at hrun

end Tunnel
end TransportProxy.Slipstream
