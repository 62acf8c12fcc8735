import TransportProxy.Network.Isolation
import TransportProxy.Tunnel.Progress
import Mathlib.Algebra.BigOperators.Fin
import Mathlib.Algebra.Order.BigOperators.Group.Finset

/-! # No client is kept waiting for good

What one tunnel can do by itself, the network can do, and the other clients' tunnels stay open and
ready meanwhile. So the bytes of all clients can be brought home, one passage after the other.
-/
namespace TransportProxy.Slipstream
open Foundations
set_option autoImplicit false

namespace Network
variable {ι : Type} [DecidableEq ι] {key : ι → CnxPtr} {sid : ι → UInt64} {i k : ι} {s : Network ι}
  {tr : List (ConnectionsObs ι)}

/-- All streams stay open. -/
def Open (key : ι → CnxPtr) (sid : ι → UInt64) (s : Network ι) (e : NetworkEvent ι) : Prop :=
  ∀ i, Seen key sid i (Tunnel.Open (key i) (sid i)) s e

instance Open.decidable [Fintype ι] (key : ι → CnxPtr) (sid : ι → UInt64) (s : Network ι)
    (e : NetworkEvent ι) : Decidable (Open key sid s e) :=
  inferInstanceAs (Decidable (∀ i, Seen key sid i _ s e))

/-- Every tunnel is open and can go on. -/
def At (key : ι → CnxPtr) (sid : ι → UInt64) (s : Network ι) (tr : List (ConnectionsObs ι)) :
    Prop :=
  ∀ i, Tunnel.At (key i) (sid i) (s.tunnel i) (Connections.seen i tr)

/-! ## A step of one tunnel as one of the network -/

/-- The event of the network that an event of the tunnel of client `i` is. -/
def lift (i : ι) : TunnelEvent → NetworkEvent ι
  | .poll j => .poll j
  | .duplex e => .connections (Connections.lift i e)

theorem tunnelEvent_lift (te : TunnelEvent) : tunnelEvent key sid i s (lift i te) = some te := by
  cases te with
  | poll j => rfl
  | duplex de => simp [lift, tunnelEvent, Connections.duplexEvent_lift]

/-- The other clients see nothing of it, or a server that is busy with somebody else. -/
theorem open_lift (hinj : Function.Injective key) {te te' : TunnelEvent} (hin : te.Inner)
    (hk : i ≠ k) (hte : te' ∈ tunnelEvent key sid k s (lift i te)) :
    (s.tunnel k).Open (key k) (sid k) te' ∧ Tunnel.Harmless te' := by
  cases te with
  | poll j =>
    obtain rfl := Option.some.inj hte
    exact ⟨trivial, trivial⟩
  | duplex de =>
    cases de with
    | client e | deliverDown n =>
      simp [lift, tunnelEvent, Connections.lift, Connections.duplexEvent, hk] at hte
    | server e =>
      obtain rfl := Option.some.inj hte
      refine ⟨?_, Tunnel.harmless_of_inner (e := .duplex (.server e)) hin⟩
      cases e with
      | resume ret => exact fun _ _ _ => hin
      | accept | loop => trivial
      | app | stream => cases hin
    | deliverUp n =>
      simp only [lift, tunnelEvent, Connections.lift, Connections.duplexEvent, if_neg hk,
        Option.map_some, Option.mem_some_iff] at hte
      subst hte
      refine ⟨fun hc => absurd (hinj hc) hk, fun cb hcb => ?_⟩
      obtain rfl := ServerEvent.stream.inj hcb
      rfl

variable [Fintype ι]

theorem At.step (hinj : Function.Injective key) (h : At key sid s tr) {te : TunnelEvent}
    {s' : Network ι} {out : List (ConnectionsObs ι)} (ho : (s.tunnel i).Open (key i) (sid i) te)
    (hin : te.Inner) (hs : (machine key sid).step s (lift i te) = some (s', out)) :
    Open key sid s (lift i te) ∧ At key sid s' (tr ++ out) ∧
      ∀ k, Duplex.written (Connections.seen k out) = [] := by
  have hboth (k : ι) (te' : TunnelEvent) (hte : te' ∈ tunnelEvent key sid k s (lift i te)) :
      (s.tunnel k).Open (key k) (sid k) te' ∧ Tunnel.Harmless te' := by
    by_cases hk : i = k
    · subst hk
      rw [tunnelEvent_lift] at hte
      obtain rfl := Option.some.inj hte
      exact ⟨ho, Tunnel.harmless_of_inner hin⟩
    · exact open_lift hinj hin hk hte
  have hnext (k : ι) : Tunnel.At (key k) (sid k) (s'.tunnel k) (Connections.seen k (tr ++ out)) ∧
      Duplex.written (Connections.seen k out) = [] := by
    have ht := step_tunnel hinj hs k
    rw [Connections.seen_append]
    cases hte : tunnelEvent key sid k s (lift i te) with
    | none =>
      rw [hte] at ht
      rw [ht.2, List.append_nil, ht.1]
      exact ⟨h k, rfl⟩
    | some te' =>
      rw [hte] at ht
      obtain ⟨ho', hm⟩ := hboth k te' hte
      exact (h k).step ht ho' hm
  exact ⟨fun k te' hte => (hboth k te' hte).1, fun k => (hnext k).1, fun k => (hnext k).2⟩

end Network
end TransportProxy.Slipstream
