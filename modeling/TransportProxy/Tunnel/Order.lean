import TransportProxy.Duplex.Order
import TransportProxy.Tunnel.Machine

/-! # Nothing is repeated or reordered through an echo

What holds of the stream both ways, and of the handlers between the two, holds of the bytes that
come back to the application: they are what it wrote with some of it left out.
-/
namespace TransportProxy.Slipstream
open Foundations
set_option autoImplicit false

/-- The client's calls of `picoquic_add_to_stream` return zero. -/
def TunnelEvent.RetZero : TunnelEvent → Prop
  | .poll _ => True
  | .duplex e => e.RetZero

instance TunnelEvent.RetZero.decidable : ∀ e : TunnelEvent, Decidable e.RetZero
  | .poll _ => .isTrue trivial
  | .duplex e => inferInstanceAs (Decidable e.RetZero)

namespace Tunnel
variable {key : CnxPtr} {sid : UInt64} {s : Tunnel} {es : List TunnelEvent} {tr : List DuplexObs}

theorem retZero_duplexEvent {e : TunnelEvent} (h : e.RetZero) : (s.duplexEvent e).RetZero := by
  cases e with
  | poll j => trivial
  | duplex e => exact h

/-- The handlers hear, in order, some of what was written. -/
theorem heard_sublist (hr : (machine key sid).run init es = some (s, tr))
    (hz : (machine key sid).Along (fun _ e => e.RetZero) init es) :
    (Duplex.heardOn key tr).Sublist (Duplex.written tr).flatten := by
  obtain ⟨fs, hfs, hfz⟩ := duplex_run (H := fun _ e => e.RetZero)
    (fun _ _ _ _ h => retZero_duplexEvent h) hr hz
  exact Duplex.heard_sublist hfs hfz

theorem answered_sublist (hr : (machine key sid).run init es = some (s, tr)) :
    (Duplex.answeredOn key tr).Sublist (Duplex.heardOn key tr) := by
  obtain ⟨gs, hgs⟩ := serverView.run hr
  exact List.Sublist.flatMap_right _ fun j _ => (EchoServer.behind_run hgs j).sublist

theorem readBack_sublist (hr : (machine key sid).run init es = some (s, tr)) :
    (Duplex.readBack tr).Sublist (Duplex.heardOn key tr) := by
  obtain ⟨fs, hfs, -⟩ := duplex_run (H := fun _ _ => True) (fun _ _ _ _ _ => trivial) hr
    (Machine.Along.true _ _)
  exact (Duplex.readBack_sublist hfs).trans (answered_sublist hr)

end Tunnel
end TransportProxy.Slipstream
