import TransportProxy.Network.Machine
import TransportProxy.Tunnel.Conservation
import Mathlib.Data.Fintype.Basic

/-! # The clients of a server do not interfere

What holds of one tunnel holds of each client of the network, and whether it does is a matter of
that client's own connection: the others may write what they like, fail, be reset or leave. All that
keeps them apart is that the server knows their connections by different pointers.
-/
namespace TransportProxy.Slipstream
open Foundations
set_option autoImplicit false

namespace Network
variable {ι : Type} [DecidableEq ι]

/-- What the event is for client `i` meets the guard. -/
def Seen (key : ι → CnxPtr) (sid : ι → UInt64) (i : ι) (H : Tunnel → TunnelEvent → Prop)
    (s : Network ι) (e : NetworkEvent ι) : Prop :=
  ∀ te ∈ tunnelEvent key sid i s e, H (s.tunnel i) te

instance Seen.decidable (key : ι → CnxPtr) (sid : ι → UInt64) (i : ι)
    (H : Tunnel → TunnelEvent → Prop) [∀ t te, Decidable (H t te)] (s : Network ι)
    (e : NetworkEvent ι) : Decidable (Seen key sid i H s e) :=
  inferInstanceAs (Decidable (∀ te ∈ tunnelEvent key sid i s e, _))

/-- What client `i` has written, and what it has read back. -/
def written (i : ι) (tr : List (ConnectionsObs ι)) : Bytes :=
  (Duplex.written (Connections.seen i tr)).flatten

def readBack (i : ι) (tr : List (ConnectionsObs ι)) : Bytes :=
  Duplex.readBack (Connections.seen i tr)

/-- The streams of the server that its connection has opened, and what their handlers have heard. -/
def streams (key : ι → CnxPtr) (i : ι) (tr : List (ConnectionsObs ι)) : List ℕ :=
  Duplex.streams (key i) (Connections.seen i tr)

def heard (key : ι → CnxPtr) (i : ι) (tr : List (ConnectionsObs ι)) : Bytes :=
  Duplex.heardOn (key i) (Connections.seen i tr)

variable [Fintype ι] {key : ι → CnxPtr} {sid : ι → UInt64} {s : Network ι}
  {es : List (NetworkEvent ι)} {tr : List (ConnectionsObs ι)}

/-- No handler serves two clients. -/
theorem streams_disjoint (hinj : Function.Injective key)
    (hr : (machine key sid).run init es = some (s, tr)) {i k : ι} (hk : k ≠ i) :
    (streams key i tr).Disjoint (streams key k tr) := by
  obtain ⟨fs, hfs⟩ := (tunnelView hinj i).run hr
  obtain ⟨ds, hds⟩ := Tunnel.serverView.run hfs
  obtain ⟨gs, hgs⟩ := EchoServer.serverProjection.run hds
  rw [show EchoServer.serverProjection.obs = some from rfl, List.filterMap_some] at hgs
  have hplaced := Server.placed_run hgs
  intro j hj hj'
  rw [streams, Duplex.streams, Connections.serverTrace_seen, ← Connections.serverTrace_seen i]
    at hj'
  exact hk (hinj (hplaced.unique hj' hj))

/-- In every run, for each client whose calls succeed: the handlers of its connection, which serve
no other client, hear some of what it wrote, and it reads back some of what they heard, in order and
nothing else. -/
theorem network_keeps_order (hinj : Function.Injective key)
    (hr : (machine key sid).run init es = some (s, tr)) (i : ι)
    (hz : (machine key sid).Along (Seen key sid i fun _ e => e.RetZero) init es) :
    (heard key i tr).Sublist (written i tr) ∧ (readBack i tr).Sublist (heard key i tr) ∧
      ∀ k, k ≠ i → (streams key i tr).Disjoint (streams key k tr) := by
  obtain ⟨fs, hfs, hfz⟩ := tunnel_run (H := fun _ e => e.RetZero) hinj i
    (fun _ _ te h hte => h te hte) hr hz
  exact ⟨Tunnel.heard_sublist hfs hfz, Tunnel.readBack_sublist hfs,
    fun k hk => streams_disjoint hinj hr hk⟩

/-- A client gets ready, writes, and its packet loop hands that over. -/
def upRun (i : Fin 3) (data : Bytes) : List (NetworkEvent (Fin 3)) :=
  [.client i (.stream ⟨9, 0, none, .ready⟩ 4 0), .client i (.app (.pollWrite data)),
    .client i (.loop 5 .null 0), .client i (.resume 0), .client i (.loop 3 .null 0),
    .client i (.resume 0), .client i (.resume 0), .client i (.resume 0)].map .connections

/-- Three clients get ready and two of them write; the server has opened the stream of one. -/
def bothRun : List (NetworkEvent (Fin 3)) :=
  upRun 0 [1, 2, 3] ++ upRun 1 [4, 5, 6] ++
    [.client 2 (.stream ⟨9, 0, none, .ready⟩ 4 0), .server (.stream ⟨7, 0, none, .ready⟩),
      .server (.stream ⟨8, 0, none, .ready⟩), .server (.stream ⟨9, 0, none, .ready⟩),
      .deliverUp 1 2, .server .accept, .server (.resume 0)].map .connections

/-- The first client is served too, but the call that answers it fails, and its stream is reset; the
second one has read one byte of its answer. -/
def twoRun : List (NetworkEvent (Fin 3)) :=
  bothRun ++ [.deliverUp 0 2, .server .accept, .server (.resume 0)].map .connections ++
    [.poll 0, .poll 1, .poll 0, .poll 1] ++
    [.server (.loop 2 .null [8, 7, 9]), .server (.resume 0), .server (.resume 0),
      .server (.resume 0), .server (.resume (-1)), .server (.resume 0), .server (.resume 0),
      .server (.resume 0), .server (.stream ⟨7, 4, none, .streamReset⟩), .deliverDown 1 1,
      .client 1 (.app (.pollRead 8))].map .connections

theorem network_keeps_order_twoRun : ∃ s tr,
    (machine threeKeys oneId).run init twoRun = some (s, tr) ∧
    written 1 tr = [4, 5, 6] ∧ heard threeKeys 1 tr = [4, 5] ∧ readBack 1 tr = [4] ∧
    streams threeKeys 0 tr = [1] ∧ streams threeKeys 1 tr = [0] ∧
    (heard threeKeys 1 tr).Sublist (written 1 tr) ∧
    (readBack 1 tr).Sublist (heard threeKeys 1 tr) ∧
    ∀ k, k ≠ 1 → (streams threeKeys 1 tr).Disjoint (streams threeKeys k tr) :=
  ⟨_, _, rfl, by decide, by decide, by decide, by decide, by decide,
    @network_keeps_order _ _ _ threeKeys oneId _ twoRun _ (by decide) rfl 1 (by decide)⟩

/-- For each client whose stream stays open and which keeps its handle: what it wrote is what its
handler heard and what is going out to it, and what the handler heard is what the client read back
and what is coming back. -/
theorem network_conserves (hinj : Function.Injective key)
    (hr : (machine key sid).run init es = some (s, tr)) (i : ι)
    (hg : (machine key sid).Along (Seen key sid i (Tunnel.Open (key i) (sid i))) init es)
    (hh : (s.connections.clients i).bridge.owner = .held) :
    written i tr = heard key i tr ++ (s.tunnel i).goingOut (key i) ∧
      heard key i tr = readBack i tr ++ (s.tunnel i).comingBack (key i) := by
  have hleads := tunnel_run (H := Tunnel.Open (key i) (sid i)) hinj i
    (fun _ _ te h hte => h te hte) hr hg
  exact ⟨Tunnel.written_run hleads, Tunnel.heard_run hleads hh⟩

theorem network_conserves_twoRun : ∃ s tr,
    (machine threeKeys oneId).run init twoRun = some (s, tr) ∧
    (Server.addsOn 7 (Connections.serverTrace tr)).map AddToStream.ret = [-1] ∧
    (s.tunnel 1).goingOut 8 = [6] ∧ (s.tunnel 1).comingBack 8 = [5] ∧
    written 1 tr = heard threeKeys 1 tr ++ (s.tunnel 1).goingOut 8 ∧
    heard threeKeys 1 tr = readBack 1 tr ++ (s.tunnel 1).comingBack 8 :=
  ⟨_, _, rfl, by decide, by decide, by decide,
    @network_conserves _ _ _ threeKeys oneId _ twoRun _ (by decide) rfl 1 (by decide) (by decide)⟩

end Network
end TransportProxy.Slipstream
