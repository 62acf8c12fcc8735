import TransportProxy.Bridge.Forward
import TransportProxy.EchoConservation
import TransportProxy.Foundations.Leads
import TransportProxy.Server.Drain
import Mathlib.Algebra.BigOperators.Group.List.Basic

/-! # An echo server that is left to itself

The packet loop can always finish its callback, streams can always be accepted, an AFTER_* callback
hands over all that is queued, and a handler with something to do and room for it gets on with it.
-/
namespace TransportProxy.Slipstream
open Foundations
set_option autoImplicit false

/-! ## The callback in progress -/

namespace Server

/-- The entries in all send queues. -/
def backlog (s : Server) : ℕ := (s.streams.map fun b => b.sendQ.buf.length).sum

/-- A bound on the steps that the callback in progress takes when nothing else happens. -/
def stepsLeft (s : Server) : ℕ :=
  match s.pc with
  | .idle => 0
  | .firstData _ _ | .dropWakeTx _ => 1
  | .dropSendRx _ => 2
  | .drain todo => todo.length + 1 + 2 * s.backlog
  | .wake _ todo => todo.length + 3 + 2 * s.backlog

end Server

/-! ## What is known of an open stream -/

/-- A step that the server makes by itself. -/
def ServerEvent.Inner : ServerEvent → Prop
  | .accept | .loop _ _ _ => True
  | .resume ret => ret = 0
  | .app _ _ | .stream _ => False

/-- Such a step, or a poll of the handler of stream `j`. -/
def EchoEvent.Inner (j : ℕ) : EchoEvent → Prop
  | .poll i => i = j
  | .server e => e.Inner

namespace EchoServer
variable {j : ℕ} {u : EchoServer} {str : List ServerObs}

/-- What is known of a server whose stream `j` has stayed open. -/
structure Standing (j : ℕ) (u : EchoServer) (str : List ServerObs) : Prop where
  linked : Server.Linked u.server
  keyed : Server.Keyed u.server
  echo : EchoInv u j (Server.bridgeTrace j str)
  ledger : (u.server.stream j).Ledger (Server.bridgeTrace j str)
  poised : (u.server.stream j).Poised
  send : (u.server.stream j).sendQ.receiver = true
  wake : (u.server.stream j).wakeQ.sender = true
  task : u.task j ≠ .returned
  clean : [] ∉ (u.server.stream j).recvQ.buf

theorem server_step {e : ServerEvent} {s' : Server} {out : List ServerObs} (hl : e.isLoop = true)
    (h : Server.machine.step u.server e = some (s', out)) :
    machine.step u (.server e) = some (⟨s', u.task⟩, out) := by
  have hs : u.server.step e = some (s', out) := h
  simp [machine, step, hl, hs]

/-- All waiting streams are accepted. -/
theorem accepts (j : ℕ) (hp : u.server.pc = .idle) :
    ∃ t out, machine.Leads (fun _ e => e.Inner j) u out t ∧ t.server.pc = .idle ∧
      t.server.acceptQ = [] := by
  have hstep (u : EchoServer) (hi : u.server.pc = .idle) (hq : u.server.acceptQ ≠ []) :
      ∃ t out, machine.Leads (fun _ e => e.Inner j) u out t ∧ t.server.pc = .idle ∧
        t.server.acceptQ.length < u.server.acceptQ.length := by
    obtain ⟨i, rest, hrest⟩ := List.exists_cons_of_ne_nil hq
    have hs : Server.machine.step u.server .accept =
        some ({ u.server with acceptQ := rest }, []) := by
      simp [Server.machine, Server.step, hrest]
    refine ⟨_, [], .single (server_step rfl hs) trivial, hi, ?_⟩
    simp [hrest]
  exact Machine.exists_leads_to_state (fun u : EchoServer => u.server.pc = .idle)
    (fun u => u.server.acceptQ = []) (fun u => u.server.acceptQ.length) hstep hp

end EchoServer
end TransportProxy.Slipstream
