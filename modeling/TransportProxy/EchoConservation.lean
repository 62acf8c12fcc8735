import TransportProxy.Server.Echo
import TransportProxy.Server.Routing
import TransportProxy.Server.Steady

/-! # Conservation through the echo server

The bytes of a stream pass five places on their way from stream_data events to
`picoquic_add_to_stream`: the receive queue, the receiving half, the handler, the send queue and the
calls. The ledgers of the bridge account for two of the joints, the callbacks and the drain for the
two ends, and the handler's own invariant for the middle.
-/
namespace TransportProxy.Slipstream
open Foundations
set_option autoImplicit false

namespace EchoServer

/-- The stream stays open while this event happens. -/
def Steady (j : ℕ) (s : EchoServer) (e : EchoEvent) : Prop := s.server.Steady j (s.serverEvent e)

instance Steady.decidable (j : ℕ) (s : EchoServer) (e : EchoEvent) : Decidable (s.Steady j e) :=
  Server.Steady.decidable j s.server (s.serverEvent e)

variable {j : ℕ}

theorem realRead {s s' : EchoServer} {e : EchoEvent} {out : List ServerObs}
    (h : machine.step s e = some (s', out)) : (s.serverEvent e).RealRead j := by
  obtain ⟨-, ⟨i, rfl, -⟩ | ⟨hl, -⟩⟩ := step_cases h
  · rw [serverEvent, opOf]
    cases s.task i with
    | reading => exact fun _ => by decide
    | writing rest => cases (s.server.stream i).writer <;> trivial
    | flushing | returned => trivial
  · cases he : s.serverEvent e with
    | app i op =>
      rw [he] at hl
      cases hl
    | accept | stream | loop | resume => trivial

/-- A run in which stream `j` stays open, seen from the server bridge. -/
theorem server_run {es : List EchoEvent} {s : EchoServer} {tr : List ServerObs}
    (hr : machine.run EchoServer.init es = some (s, tr))
    (hg : machine.Along (Steady j) EchoServer.init es) :
    ∃ fs, Server.machine.run Server.init fs = some (s.server, tr) ∧
      Server.machine.Along (fun s e => s.Steady j e ∧ e.RealRead j) Server.init fs := by
  have hobs : serverProjection.obs = some := rfl
  have h := serverProjection.run_along (H := fun s e => Server.Steady j s e ∧ e.RealRead j) ?_ hr hg
  · rwa [hobs, List.filterMap_some] at h
  · intro s e s' out hk hs
    have hserver := (step_cases hs).1
    refine ⟨[s.serverEvent e], ?_, ⟨hk, realRead hs⟩, ?_⟩
    · rw [hobs, List.filterMap_some]
      exact (Machine.run_single_iff ..).mpr hserver
    · rw [show serverProjection.state s = s.server from rfl, hserver]
      trivial

/-- The handler of a stream that stays open does not return. -/
theorem not_returned {es : List EchoEvent} {s : EchoServer} {tr : List ServerObs}
    (hr : machine.run EchoServer.init es = some (s, tr))
    (hg : machine.Along (Steady j) EchoServer.init es) : s.task j ≠ .returned := by
  refine Machine.run_prefix (fun (s : EchoServer) _ => s.task j ≠ .returned) ?_ hr hg nofun
  intro es s tr e s' out hr hg hi hk hs
  obtain ⟨fs, hfs, hfg⟩ := server_run hr hg
  have hsteady := Server.steadyInv_run hfs (hfg.mono fun _ _ h => h.1)
  obtain ⟨-, hsend, hwake⟩ := hsteady.ends (Server.loopEnds_run hfs j)
  obtain ⟨hop, ht⟩ | ⟨ht, -⟩ := step_view hs j
  · intro hret
    rw [ht] at hret
    obtain h | h | h | h := (EchoTask.polled (echoInv_run hr j).agrees hop).reason hret
    · exact hi h
    · obtain ⟨fs', hfs', hfg'⟩ := server_run (Machine.run_step _ hr hs)
        (hg.concat hr ⟨hk, by rw [hs]; trivial⟩)
      apply Server.reads_clean hfs' hfg'
      rw [Server.bridgeTrace_append, reads_append]
      exact List.mem_append_right _ h
    · rw [hsend] at h
      cases h
    · rw [hwake] at h
      cases h
  · rwa [ht]

end EchoServer

/-- Whatever the interleaving, the bytes that the stream_data events of an open stream brought are
spread, in order, over what was handed to picoquic, the send queue, the handler, the rest of the
pending chunk, the receive queue, and the chunk of a callback that has not reached its `try_send`
(none between two callbacks). What was handed to picoquic was so on the stream's own connection and
id, and no FIN marker is ever queued. -/
theorem echo_conserves {es : List EchoEvent} {s : EchoServer} {tr : List ServerObs} {j : ℕ}
    (hr : EchoServer.machine.run EchoServer.init es = some (s, tr))
    (hg : EchoServer.machine.Along (EchoServer.Steady j) EchoServer.init es) :
    (handedOver (Server.calls j tr)).flatten ++ ((s.server.stream j).sendQ.buf.flatten ++
      ((s.task j).rest ++ ((s.server.stream j).recvHalf.unread ++
        ((s.server.stream j).recvQ.buf.flatten ++ (s.server.firstOf j).flatten)))) =
      Server.delivered j tr ∧
    (s.server.pc = .idle → s.server.firstOf j = []) ∧ Server.AddsOwn j tr ∧
    [] ∉ queued (Server.bridgeTrace j tr) ∧ [] ∉ received (Server.bridgeTrace j tr) := by
  obtain ⟨fs, hfs, hfg⟩ := EchoServer.server_run hr hg
  have hgs := hfg.mono fun _ _ h => h.1
  have hi := EchoServer.echoInv_run hr j
  have hn := EchoServer.not_returned hr hg
  have hhanded := Server.handed_run hfs (hgs.mono fun _ _ h => h.retZero)
  have hledger := Server.ledger_run hfs j
  have howned := Server.owned_run hfs j
  have hfed := (Server.fed_run hfs (hgs.mono fun _ _ h => h.room)).fed.all
    (howned.recv.mpr (hi.agrees.held hn))
  rw [List.filter_true, List.filter_true, List.filter_true] at hfed
  refine ⟨?_, fun hp => by simp [Server.firstOf, hp], Server.addsOwn_run hfs j, hi.clean,
    Server.received_clean hfs hgs⟩
  have hsend := congrArg List.flatten hledger.send
  rw [List.flatten_append] at hsend
  symm
  calc Server.delivered j tr
      = (received (Server.bridgeTrace j tr)).flatten ++ (s.server.firstOf j).flatten := by
        rw [← Server.pushes_flatten, ← hfed, List.flatten_append]
    _ = (reads (Server.bridgeTrace j tr)).flatten ++ ((s.server.stream j).recvHalf.unread ++
          ((s.server.stream j).recvQ.buf.flatten ++ (s.server.firstOf j).flatten)) := by
        rw [hledger.recv, Bridge.unread]
        simp only [List.append_assoc]
    _ = (handedOver (Server.calls j tr)).flatten ++ ((s.server.stream j).sendQ.buf.flatten ++
          ((s.task j).rest ++ ((s.server.stream j).recvHalf.unread ++
            ((s.server.stream j).recvQ.buf.flatten ++ (s.server.firstOf j).flatten)))) := by
        rw [hi.copy hn, hsend, hhanded]
        simp only [List.append_assoc]

/-- One chunk handed over, the next one read and not written yet. -/
def echoRun : List EchoEvent :=
  [.server (.stream ⟨1, 0, none, .ready⟩), .server (.stream ⟨1, 0, some [1, 2, 3], .streamData⟩),
    .server .accept, .server (.resume 0), .poll 0, .poll 0,
    .server (.stream ⟨1, 0, some [4, 5], .streamData⟩), .server (.loop 3 .null [1]),
    .server (.resume 0), .poll 0, .poll 0]

theorem echo_conserves_echoRun : ∃ s tr,
    EchoServer.machine.run EchoServer.init echoRun = some (s, tr) ∧
      handedOver (Server.calls 0 tr) = [[1, 2, 3]] ∧ (s.task 0).rest = [4, 5] ∧
      (handedOver (Server.calls 0 tr)).flatten ++ ((s.server.stream 0).sendQ.buf.flatten ++
        ((s.task 0).rest ++ ((s.server.stream 0).recvHalf.unread ++
          ((s.server.stream 0).recvQ.buf.flatten ++ (s.server.firstOf 0).flatten)))) =
        Server.delivered 0 tr :=
  ⟨_, _, rfl, by decide, by decide, (@echo_conserves echoRun _ _ 0 rfl (by decide)).1⟩

end TransportProxy.Slipstream
