import TransportProxy.Tunnel.Ready

/-! # Nothing gets stuck on the way

Every byte passes seven points between the application's writes and its reads, and `moved` counts
these passages. From every state of an open tunnel the two packet loops, the network, the handler
and the reader can go on so that some byte passes a point, as long as something is under way.
-/
namespace TransportProxy.Slipstream
open Foundations
set_option autoImplicit false

namespace Tunnel
open Duplex
variable {key : CnxPtr} {sid : UInt64} {j : ℕ} {s t : Tunnel} {tr out : List DuplexObs}

/-! ## The passages of bytes -/

/-- How often a byte has passed one of the points: handed over by the client, brought to the server,
heard by the handler and put into its queue, handed over by the server, delivered to the client, and
read back. -/
def moved (key : CnxPtr) (sid : UInt64) (tr : List DuplexObs) : ℕ :=
  (sentUp sid (clientTrace tr)).length + (Server.brought key (serverTrace tr)).length +
    (heardOn key tr).length + (answeredOn key tr).length +
    (sentDown key sid (serverTrace tr)).length + (Client.delivered (clientTrace tr)).length +
    (readBack tr).length

theorem Open.retZero {e : TunnelEvent} (h : s.Open key sid e) : e.RetZero := by
  cases e with
  | poll j => trivial
  | duplex de =>
    cases de with
    | client e => exact h
    | server | deliverUp | deliverDown => trivial

/-- The run can be continued so that a byte passes a point. -/
def Moves (key : CnxPtr) (sid : UInt64) (s : Tunnel) (tr : List DuplexObs) : Prop :=
  ∃ t out, (machine key sid).Leads (Going key sid) s out t ∧
    moved key sid tr < moved key sid (tr ++ out)

/-- An open stream whose path is read out has room. -/
theorem recvQ_nil {u : EchoServer} {str : List ServerObs} (hi : EchoServer.Standing j u str)
    (hq : (u.server.stream j).unread = []) : (u.server.stream j).recvQ.buf = [] := by
  have hflat := (List.append_eq_nil_iff.mp hq).2
  cases hb : (u.server.stream j).recvQ.buf with
  | nil => rfl
  | cons v vs =>
    rw [hb, List.flatten_cons] at hflat
    have hclean := hi.clean
    rw [hb, (List.append_eq_nil_iff.mp hflat).1] at hclean
    exact absurd List.mem_cons_self hclean

theorem At.heard (h : At key sid s tr) :
    (written tr).flatten = heardOn key tr ++ s.goingOut key ∧
      heardOn key tr = readBack tr ++ s.comingBack key :=
  ⟨written_run h.leads, heard_run h.leads h.ready.client.held⟩

end Tunnel
end TransportProxy.Slipstream
