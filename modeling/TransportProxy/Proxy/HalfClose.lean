import TransportProxy.Proxy.EndToEnd

/-! # Half-closing a proxied connection

The two directions of a proxied connection end one by one: when a TCP stream has ended, the end goes
through its task, the send queue, the stream and the other task, and the other TCP stream is shut
down. In a connection that ends in good order it is shut down only then, and only after it has got
every byte.
-/
namespace TransportProxy.Slipstream
open Foundations
set_option autoImplicit false

namespace RelayTask
variable {task task' : RelayTask} {b b' : Bridge} {t t' : List BridgeObs} {u u' : List TcpObs}

theorem Polls.realRead {op : AppOp} (h : task.Polls op) :
    (ClientEvent.app op).RealRead ∧ ∀ i j, (ServerEvent.app i op).RealRead j := by
  cases h with
  | read hn he => exact ⟨hn, fun _ _ _ => hn⟩
  | write | wake | retry | flush | shutdown | drop => exact ⟨trivial, fun _ _ => trivial⟩

/-- A task that has shut its TCP stream down has read an end, and has written everything that it
read before it. -/
theorem InStep.heard_all (h : task.InStep b t u) (hs : .shutdown ∈ u) :
    [] ∈ reads t ∧ beforeEnd (reads t) = tcpOut u := by
  obtain ⟨he, hr⟩ := h.told hs
  refine ⟨h.heard.mem_iff.mpr he, ?_⟩
  rw [h.heard.beforeEnd, h.got, hr, List.append_nil]

/-- A task whose queued entries have all arrived, with an end among them, has seen its TCP stream
end, and has queued everything that it read from it. -/
theorem InStep.sent_all (h : task.InStep b t u) {got : List Bytes}
    (hf : Finished (queued t) got) : [] ∈ tcpReads u ∧ beforeEnd got = tcpIn u := by
  obtain ⟨marker, hm, hshut⟩ := h.fin
  obtain ⟨hend, hall⟩ := hf.all hm
  obtain ⟨he, hr⟩ := h.shut (hshut hend)
  refine ⟨h.ended.mem_iff.mpr he, ?_⟩
  rw [hall, ← h.sent, hr, List.append_nil]

theorem InStep.whole (h : task.InStep b t u) (h' : task'.InStep b' t' u')
    (hf : [] ∈ reads t' → Finished (queued t) (reads t')) (hs : .shutdown ∈ u') :
    [] ∈ tcpReads u ∧ tcpOut u' = tcpIn u := by
  obtain ⟨hm, hout⟩ := h'.heard_all hs
  rw [← hout]
  exact h.sent_all (hf hm)

end RelayTask

namespace Proxied
variable {key : CnxPtr} {sid : UInt64} {j : ℕ} {s : Proxied} {es : List ProxiedEvent}
  {tr : List ProxiedObs}

/-- The connection between the tasks goes on, or ends, in good order. -/
def Orderly (key : CnxPtr) (sid : UInt64) (s : Proxied) (tr : List ProxiedObs) :
    ProxiedEvent → Prop
  | .duplex e => s.duplex.InOrder key sid (duplexTrace tr) e
  | .near _ | .far _ _ => True

instance Orderly.decidable (key : CnxPtr) (sid : UInt64) (s : Proxied) (tr : List ProxiedObs) :
    ∀ e, Decidable (s.Orderly key sid tr e)
  | .duplex e => Duplex.InOrder.decidable key sid s.duplex (duplexTrace tr) e
  | .near _ | .far _ _ => .isTrue trivial

theorem Orderly.duplex {e : ProxiedEvent} {de : DuplexEvent} (h : s.Orderly key sid tr e)
    (he : s.duplexEvent e = some de) : s.duplex.InOrder key sid (duplexTrace tr) de := by
  obtain rfl | ⟨op, hp, rfl⟩ | ⟨i, op, hp, rfl⟩ := duplexEvent_cases he
  · exact h
  · refine ⟨trivial, hp.realRead.1, fun v hv => ?_, False.elim⟩
    cases hv
  · exact fun j _ => ⟨trivial, hp.realRead.2 i j, trivial, False.elim⟩

/-- What is between the tasks, in a connection in good order. -/
theorem orderly_run (hr : (machine key sid).run init es = some (s, tr))
    (hg : (machine key sid).AlongTrace (Orderly key sid) init [] es) (hj : s.Owns key j tr) :
    ∃ fs, (Duplex.machine key sid).run .init fs = some (s.duplex, duplexTrace tr) ∧
      (Duplex.machine key sid).AlongTrace (Duplex.Orderly key sid j) .init [] fs := by
  obtain ⟨fs, hfs, hfg⟩ := duplex_runTrace (fun _ _ _ _ h he => h.duplex he) hr hg
  exact ⟨fs, hfs, Duplex.inOrder_run hfs hfg hj⟩

/-- A task that reads an end has got all that the other one queued before its own. -/
theorem finished_run (hr : (machine key sid).run init es = some (s, tr))
    (hg : (machine key sid).AlongTrace (Orderly key sid) init [] es) (hj : s.Owns key j tr) :
    ([] ∈ reads (Server.bridgeTrace j (Duplex.serverTrace (duplexTrace tr))) →
      Finished (Duplex.written (duplexTrace tr))
        (reads (Server.bridgeTrace j (Duplex.serverTrace (duplexTrace tr))))) ∧
    ([] ∈ reads (Client.bridgeTrace (Duplex.clientTrace (duplexTrace tr))) →
      Finished (Duplex.answered j (duplexTrace tr))
        (reads (Client.bridgeTrace (Duplex.clientTrace (duplexTrace tr))))) := by
  obtain ⟨fs, hfs, hfg⟩ := orderly_run hr hg hj
  exact ⟨Duplex.heard_end hfs hfg, Duplex.readBack_end hfs hfg⟩

/-- In a connection that ends in good order, a TCP stream is shut down only when the other one has
ended, and then it has got exactly what that one sent. -/
theorem proxied_half_close (hr : (machine key sid).run init es = some (s, tr))
    (hg : (machine key sid).AlongTrace (Orderly key sid) init [] es) (hj : s.Owns key j tr) :
    (.shutdown ∈ farTrace j tr →
      [] ∈ tcpReads (nearTrace tr) ∧ tcpOut (farTrace j tr) = tcpIn (nearTrace tr)) ∧
    (.shutdown ∈ nearTrace tr →
      [] ∈ tcpReads (farTrace j tr) ∧ tcpOut (nearTrace tr) = tcpIn (farTrace j tr)) := by
  have hi := relayed_run hr
  obtain ⟨hup, hdown⟩ := finished_run hr hg hj
  exact ⟨hi.near.whole (hi.far j) hup, (hi.far j).whole hi.near hdown⟩

/-- Both TCP streams send something and end, both are shut down, and the connection is closed. Its
stream at the server is `j`, and `listed` are the connections that the drains there go through. -/
def closedRun (key : CnxPtr) (listed : List CnxPtr) (j : ℕ) : List ProxiedEvent :=
  [.duplex (.client (.stream ⟨9, 0, none, .ready⟩ 4 0)), .near (.tcpRead [1, 2, 3]), .near .write,
    .near (.tcpRead []), .near .shutdown, .duplex (.client (.loop 5 .null 0)),
    .duplex (.client (.resume 0)), .duplex (.client (.loop 3 .null 0)),
    .duplex (.client (.resume 0)), .duplex (.client (.resume 0)), .duplex (.client (.resume 0)),
    .duplex (.client (.resume 0)), .duplex (.server (.stream ⟨key, 0, none, .ready⟩)),
    .duplex (.deliverUp 2), .duplex (.server (.resume 0)), .duplex (.server .accept),
    .far j (.read 8), .duplex (.deliverUp 1),
    .duplex (.server (.stream ⟨key, 4, none, .streamFin⟩)), .far j (.tcpRead [8]), .far j .write,
    .far j (.read 8), .far j (.tcpWrite 3), .far j (.read 8), .far j .tcpShutdown,
    .far j (.tcpRead []), .far j .shutdown, .far j .finish,
    .duplex (.server (.loop 2 .null listed)), .duplex (.server (.resume 0)),
    .duplex (.server (.resume 0)), .duplex (.server (.resume 0)), .duplex (.deliverDown 1),
    .duplex (.client (.stream ⟨9, 4, none, .streamFin⟩ 0 0)), .near (.read 8), .near (.tcpWrite 1),
    .near (.read 8), .near .tcpShutdown, .near .finish, .near .drop,
    .duplex (.server (.resume 0)), .duplex (.server (.resume 0)), .duplex (.server (.resume 0)),
    .duplex (.server (.stream ⟨key, 4, none, .applicationClose⟩))]

theorem proxied_half_close_closedRun : ∃ s tr,
    (machine 7 4).run init (closedRun 7 [7] 0) = some (s, tr) ∧
    .shutdown ∈ farTrace 0 tr ∧ .shutdown ∈ nearTrace tr ∧
    tcpIn (nearTrace tr) = [1, 2, 3] ∧ tcpIn (farTrace 0 tr) = [8] ∧
    (.shutdown ∈ farTrace 0 tr →
      [] ∈ tcpReads (nearTrace tr) ∧ tcpOut (farTrace 0 tr) = tcpIn (nearTrace tr)) ∧
    (.shutdown ∈ nearTrace tr →
      [] ∈ tcpReads (farTrace 0 tr) ∧ tcpOut (nearTrace tr) = tcpIn (farTrace 0 tr)) :=
  ⟨_, _, rfl, by decide, by decide, by decide, by decide,
    @proxied_half_close 7 4 0 _ (closedRun 7 [7] 0) _ rfl (by decide) (by decide)⟩

end Proxied
end TransportProxy.Slipstream
