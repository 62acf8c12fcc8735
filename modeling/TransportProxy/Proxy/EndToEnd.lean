import TransportProxy.Proxy.Machine

/-! # What one TCP stream gets is what the other one sent

Each task stays in step with its two streams whatever else happens, so the results about the stream
between the tasks carry over to the TCP streams at both ends: nothing is repeated or reordered in
any run, and nothing is lost while the stream is open.
-/
namespace TransportProxy.Slipstream
open Foundations
set_option autoImplicit false

/-! ## The task and the rest of the connection -/

namespace RelayTask
variable {task : RelayTask} {b b' : Bridge} {t out : List BridgeObs} {u : List TcpObs}

/-- What the packet loop does does not concern the task. -/
theorem InStep.loop {op : LoopOp} (h : task.InStep b t u) (hs : Bridge.LoopStep b op b' out) :
    task.InStep b' (t ++ out) u := by
  cases hs <;> exact h.quiet (fun _ => id) (fun _ => id) rfl rfl

theorem InStep.client {c c' : Client} {e : ClientEvent} {cout : List ClientObs}
    (h : task.InStep c.bridge t u) (hs : Client.Step c e c' cout) (hn : ∀ op, e ≠ .app op) :
    task.InStep c'.bridge (t ++ Client.bridgeTrace cout) u := by
  obtain ⟨hb, ht, -⟩ | ⟨op, hc, hop⟩ := hs.bridge_op
  · rwa [hb, ht, List.append_nil]
  · cases op with
    | app op => exact absurd hc (hn op)
    | loop op => exact h.loop (Bridge.loop_cases (Option.some.inj hop))

theorem InStep.server {v v' : Server} {j : ℕ} {e : ServerEvent} {sout : List ServerObs}
    (h : task.InStep (v.stream j) t u) (hs : Server.Step v e v' sout) (hn : ∀ op, e ≠ .app j op) :
    task.InStep (v'.stream j) (t ++ Server.bridgeTrace j sout) u := by
  obtain ⟨hb, ht⟩ | ⟨op, hc, hop⟩ := hs.bridge_op j
  · rwa [hb, ht, List.append_nil]
  · cases op with
    | app op => exact absurd hc (hn op)
    | loop op => exact h.loop (Bridge.loop_cases (Option.some.inj hop))

variable {key : CnxPtr} {sid : UInt64} {j : ℕ} {d d' : Duplex} {e : DuplexEvent}
  {dout : List DuplexObs}

theorem InStep.near_rest (h : task.InStep d.client.bridge t u)
    (hs : (Duplex.machine key sid).step d e = some (d', dout)) (hn : ∀ op, e ≠ .client (.app op)) :
    task.InStep d'.client.bridge (t ++ Client.bridgeTrace (Duplex.clientTrace dout)) u := by
  cases Duplex.step_cases hs with
  | client ce cout he hs hout =>
    rw [hout, Duplex.clientTrace_map_client]
    refine h.client (Client.step_cases hs) ?_
    rintro op rfl
    cases e with
    | client e =>
      obtain rfl := Option.some.inj he
      exact hn op rfl
    | deliverDown n => cases he
    | server | deliverUp => cases he
  | server se sout he hs hout hclient =>
    rwa [hout, Duplex.clientTrace_map_server, hclient, Client.bridgeTrace_nil, List.append_nil]

theorem InStep.far_rest (h : task.InStep (d.server.stream j) t u)
    (hs : (Duplex.machine key sid).step d e = some (d', dout))
    (hn : ∀ op, e ≠ .server (.app j op)) :
    task.InStep (d'.server.stream j)
      (t ++ Server.bridgeTrace j (Duplex.serverTrace dout)) u := by
  cases Duplex.step_cases hs with
  | client ce cout he hs hout hserver =>
    rwa [hout, Duplex.serverTrace_map_client, hserver, Server.bridgeTrace_nil, List.append_nil]
  | server se sout he hs hout =>
    rw [hout, Duplex.serverTrace_map_server]
    refine h.server (Server.step_cases hs) ?_
    rintro op rfl
    cases e with
    | server e =>
      obtain rfl := Option.some.inj he
      exact hn op rfl
    | deliverUp n => cases he
    | client | deliverDown => cases he

theorem InStep.near_polled {op : AppOp} (h : task.InStep d.client.bridge t u) (hp : task.Polls op)
    (hs : (Duplex.machine key sid).step d (.client (.app op)) = some (d', dout)) :
    (task.next (Client.bridgeTrace (Duplex.clientTrace dout))).InStep d'.client.bridge
      (t ++ Client.bridgeTrace (Duplex.clientTrace dout)) u := by
  cases Duplex.step_cases hs with
  | client ce cout he hs hout =>
    obtain rfl := Option.some.inj he
    rw [hout, Duplex.clientTrace_map_client]
    generalize d'.client = c at hs
    cases Client.step_cases hs with
    | app ha =>
      rw [Client.bridgeTrace_map_bridge]
      exact h.polled hp (Bridge.app_cases ha)
  | server se sout he => cases he

theorem InStep.far_polled {op : AppOp} (h : task.InStep (d.server.stream j) t u)
    (hp : task.Polls op)
    (hs : (Duplex.machine key sid).step d (.server (.app j op)) = some (d', dout)) :
    (task.next (Server.bridgeTrace j (Duplex.serverTrace dout))).InStep (d'.server.stream j)
      (t ++ Server.bridgeTrace j (Duplex.serverTrace dout)) u := by
  cases Duplex.step_cases hs with
  | client ce cout he => cases he
  | server se sout he hs hout =>
    obtain rfl := Option.some.inj he
    rw [hout, Duplex.serverTrace_map_server]
    generalize d'.server = v at hs
    cases Server.step_cases hs with
    | @app _ _ b b' bout hb ha happ =>
      obtain ⟨hg, hi⟩ := Server.getD_of_getElem? hb
      rw [Server.bridgeTrace_map_self, Server.stream, Server.getD_set_self hi]
      rw [Server.stream, hg] at h
      exact h.polled hp (Bridge.app_cases happ)

end RelayTask

/-! ## Every run -/

/-- The client's calls of `picoquic_add_to_stream` return zero. -/
def ProxiedEvent.RetZero : ProxiedEvent → Prop
  | .duplex e => e.RetZero
  | .near _ | .far _ _ => True

instance ProxiedEvent.RetZero.decidable : ∀ e : ProxiedEvent, Decidable e.RetZero
  | .duplex e => inferInstanceAs (Decidable e.RetZero)
  | .near _ | .far _ _ => .isTrue trivial

namespace Proxied
variable {key : CnxPtr} {sid : UInt64} {j : ℕ} {s s' : Proxied} {e : ProxiedEvent}
  {es : List ProxiedEvent} {tr out : List ProxiedObs}

/-- All tasks are in step with their streams. -/
structure Relayed (s : Proxied) (tr : List ProxiedObs) : Prop where
  near : s.near.InStep s.duplex.client.bridge
    (Client.bridgeTrace (Duplex.clientTrace (duplexTrace tr))) (nearTrace tr)
  far (j : ℕ) : (s.far j).InStep (s.duplex.server.stream j)
    (Server.bridgeTrace j (Duplex.serverTrace (duplexTrace tr))) (farTrace j tr)

theorem Relayed.init : Relayed init [] := by
  refine ⟨.init, fun j => ?_⟩
  have hnew : (Duplex.init.server.stream j) = .new := Server.stream_free (Nat.zero_le j)
  exact hnew ▸ RelayTask.InStep.init

theorem Step.relayed (h : Step key sid s e s' out) (hi : Relayed s tr) :
    Relayed s' (tr ++ out) := by
  cases h with
  | nearTcp re tout ht he hout hduplex hfar =>
    subst hout
    constructor
    · simpa [hduplex] using hi.near.tcp ht
    · simpa [hduplex, hfar] using hi.far
  | farTcp i re task tout ht he hout hduplex hfar hnear =>
    subst hout
    refine ⟨by simpa [hduplex, hnear] using hi.near, fun j => ?_⟩
    by_cases hij : i = j
    · subst hij
      simpa [hduplex, hfar] using (hi.far i).tcp ht
    · simpa [hduplex, hfar, Ne.symm hij, farTrace_map_far_of_ne hij] using hi.far j
  | nearOp re op dout hop he hs hout hnear hfar =>
    subst hout
    constructor
    · simpa [hnear] using hi.near.near_polled (RelayTask.op_cases hop) hs
    · simpa [hfar] using fun j => (hi.far j).far_rest hs (by simp)
  | farOp i re op dout hop he hs hout hfar hnear =>
    subst hout
    refine ⟨by simpa [hnear] using hi.near.near_rest hs (by simp), fun j => ?_⟩
    by_cases hij : i = j
    · subst hij
      simpa [hfar] using (hi.far i).far_polled (RelayTask.op_cases hop) hs
    · simpa [hfar, Ne.symm hij] using (hi.far j).far_rest hs (by simp [hij])
  | duplex de dout he hs hpoll hout hnear hfar =>
    subst hout
    have hclient : ∀ op, de ≠ .client (.app op) := by
      rintro op rfl
      cases hpoll
    have hserver : ∀ j op, de ≠ .server (.app j op) := by
      rintro j op rfl
      cases hpoll
    constructor
    · simpa [hnear] using hi.near.near_rest hs hclient
    · simpa [hfar] using fun j => (hi.far j).far_rest hs (hserver j)

theorem relayed_run (hr : (machine key sid).run init es = some (s, tr)) : Relayed s tr :=
  Machine.run_trace Relayed (fun _ _ _ _ _ hi _ hs => (step_cases hs).relayed hi) hr
    (Machine.Along.true _ _) .init

/-- What a task has put into its queue is what it has read from its TCP stream, up to what is left
to be written; and what it has written there is what it has read from the bridged stream, up to what
is left. -/
theorem Relayed.near_in (h : Relayed s tr) : (Duplex.written (duplexTrace tr)).flatten ++
    s.near.toStream.rest = tcpIn (nearTrace tr) := h.near.sent

theorem Relayed.near_out (h : Relayed s tr) : Duplex.readBack (duplexTrace tr) =
    tcpOut (nearTrace tr) ++ s.near.toTcp.rest := h.near.got

theorem Relayed.far_in (h : Relayed s tr) (j : ℕ) :
    (Duplex.answered j (duplexTrace tr)).flatten ++ (s.far j).toStream.rest =
      tcpIn (farTrace j tr) := (h.far j).sent

theorem Relayed.far_out (h : Relayed s tr) (j : ℕ) : Duplex.heard j (duplexTrace tr) =
    tcpOut (farTrace j tr) ++ (s.far j).toTcp.rest := (h.far j).got

/-- What happens between the tasks is an event there or an operation of one of them. -/
theorem duplexEvent_cases {de : DuplexEvent} (h : s.duplexEvent e = some de) :
    e = .duplex de ∨ (∃ op, s.near.Polls op ∧ de = .client (.app op)) ∨
      ∃ j op, (s.far j).Polls op ∧ de = .server (.app j op) := by
  cases e with
  | duplex e => exact .inl (congrArg _ (Option.some.inj h))
  | near re =>
    simp only [duplexEvent] at h
    split at h
    · cases h
    · obtain ⟨op, hop, rfl⟩ := Option.map_eq_some_iff.mp h
      exact .inr (.inl ⟨op, RelayTask.op_cases hop, rfl⟩)
  | far j re =>
    simp only [duplexEvent] at h
    split at h
    · cases h
    · obtain ⟨op, hop, rfl⟩ := Option.map_eq_some_iff.mp h
      exact .inr (.inr ⟨j, op, RelayTask.op_cases hop, rfl⟩)

theorem retZero_of_duplexEvent {de : DuplexEvent} (hz : e.RetZero)
    (he : s.duplexEvent e = some de) : de.RetZero := by
  obtain rfl | ⟨op, -, rfl⟩ | ⟨j, op, -, rfl⟩ := duplexEvent_cases he
  · exact hz
  · trivial
  · trivial

/-- In every run in which the client's calls succeed: what the upstreams of the connection get is
what the client's TCP stream sent, and what that gets is what they sent, with some of it left out,
in order and nothing else. -/
theorem proxied_keeps_order (hr : (machine key sid).run init es = some (s, tr))
    (hz : (machine key sid).Along (fun _ e => e.RetZero) init es) :
    ((streams key tr).flatMap fun j => tcpOut (farTrace j tr)).Sublist (tcpIn (nearTrace tr)) ∧
      (tcpOut (nearTrace tr)).Sublist
        ((streams key tr).flatMap fun j => tcpIn (farTrace j tr)) := by
  obtain ⟨fs, hfs, hfz⟩ := duplex_run (H := fun _ e => e.RetZero)
    (fun _ _ _ _ _ => retZero_of_duplexEvent) hr hz
  have hi := relayed_run hr
  rw [← hi.near_in]
  constructor
  · calc List.Sublist _ (Duplex.heardOn key (duplexTrace tr)) := by
          refine List.Sublist.flatMap_right _ fun j _ => ?_
          rw [hi.far_out]
          exact List.sublist_append_left _ _
      List.Sublist _ (Duplex.written (duplexTrace tr)).flatten := Duplex.heard_sublist hfs hfz
      List.Sublist _ _ := List.sublist_append_left _ _
  · calc (tcpOut (nearTrace tr)).Sublist (Duplex.readBack (duplexTrace tr)) := by
          rw [hi.near_out]
          exact List.sublist_append_left _ _
      List.Sublist _ (Duplex.answeredOn key (duplexTrace tr)) := Duplex.readBack_sublist hfs
      List.Sublist _ _ := by
          refine List.Sublist.flatMap_right _ fun j _ => ?_
          rw [← hi.far_in]
          exact List.sublist_append_left _ _

/-- Another connection has opened the first stream of the server. Then three bytes are sent one way
and two of them delivered, and two are sent the other way and one delivered; each TCP stream has
accepted one. -/
def relayedRun : List ProxiedEvent :=
  [.duplex (.server (.stream ⟨8, 0, none, .ready⟩)),
    .duplex (.server (.stream ⟨8, 0, some [7], .streamData⟩)), .duplex (.server (.resume 0)),
    .duplex (.server .accept), .far 0 (.read 8), .far 0 (.tcpWrite 1),
    .duplex (.client (.stream ⟨9, 0, none, .ready⟩ 4 0)), .near (.tcpRead [1, 2, 3]), .near .write,
    .near (.tcpRead [4]), .duplex (.client (.loop 5 .null 0)), .duplex (.client (.resume 0)),
    .duplex (.client (.loop 3 .null 0)), .duplex (.client (.resume 0)),
    .duplex (.client (.resume 0)), .duplex (.client (.resume 0)),
    .duplex (.server (.stream ⟨7, 0, none, .ready⟩)), .duplex (.deliverUp 2),
    .duplex (.server (.resume 0)), .duplex (.server .accept), .far 1 (.read 8),
    .far 1 (.tcpWrite 1), .far 1 (.tcpRead [8, 9]), .far 1 .write,
    .duplex (.server (.loop 2 .null [7, 8])), .duplex (.server (.resume 0)),
    .duplex (.server (.resume 0)), .duplex (.deliverDown 1), .near (.read 8), .near (.tcpWrite 1)]

theorem proxied_keeps_order_relayedRun : ∃ s tr,
    (machine 7 4).run init relayedRun = some (s, tr) ∧
    streams 7 tr = [1] ∧ tcpIn (nearTrace tr) = [1, 2, 3, 4] ∧ tcpOut (farTrace 1 tr) = [1] ∧
    ((streams 7 tr).flatMap fun j => tcpOut (farTrace j tr)).Sublist (tcpIn (nearTrace tr)) ∧
    (tcpOut (nearTrace tr)).Sublist ((streams 7 tr).flatMap fun j => tcpIn (farTrace j tr)) :=
  ⟨_, _, rfl, by decide, by decide, by decide,
    @proxied_keeps_order 7 4 _ relayedRun _ rfl (by decide)⟩

/-- The connection stays open while this event happens. -/
def Open (key : CnxPtr) (sid : UInt64) (s : Proxied) (tr : List ProxiedObs) : ProxiedEvent → Prop
  | .duplex e => s.duplex.StaysOpen key sid (duplexTrace tr) e
  | .near _ | .far _ _ => True

instance Open.decidable (key : CnxPtr) (sid : UInt64) (s : Proxied) (tr : List ProxiedObs) :
    ∀ e, Decidable (s.Open key sid tr e)
  | .duplex e => Duplex.StaysOpen.decidable key sid s.duplex (duplexTrace tr) e
  | .near _ | .far _ _ => .isTrue trivial

theorem Open.duplex {de : DuplexEvent} (h : s.Open key sid tr e) (he : s.duplexEvent e = some de) :
    s.duplex.StaysOpen key sid (duplexTrace tr) de := by
  obtain rfl | ⟨op, -, rfl⟩ | ⟨j, op, -, rfl⟩ := duplexEvent_cases he
  · exact h
  · trivial
  · exact fun _ _ => trivial

/-- Stream `j` of the server is the only one that the connection has opened, or it has opened none
and nobody has opened stream `j`. -/
def Owns (key : CnxPtr) (j : ℕ) (s : Proxied) (tr : List ProxiedObs) : Prop :=
  s.duplex.Owns key j (duplexTrace tr)

instance Owns.decidable (key : CnxPtr) (j : ℕ) (s : Proxied) (tr : List ProxiedObs) :
    Decidable (s.Owns key j tr) := inferInstanceAs (Decidable (s.duplex.Owns key j _))

theorem owns_before {m : Proxied} {fs : List ProxiedEvent} {tr' : List ProxiedObs}
    (hr : (machine key sid).run init es = some (m, tr))
    (hr' : (machine key sid).run m fs = some (s, tr')) (hj : s.Owns key j (tr ++ tr')) :
    m.Owns key j tr := by
  obtain ⟨gs, hgs⟩ := duplexView.run hr
  obtain ⟨gs', hgs'⟩ := duplexView.run hr'
  rw [Owns, duplexTrace_append] at hj
  exact Duplex.owns_before hgs hgs' hj

/-- The bytes on the way from the TCP stream of the client to that of the upstream, the next to be
written first. -/
def goingOut (j : ℕ) (s : Proxied) : Bytes :=
  (s.far j).toTcp.rest ++ (s.duplex.goingOut j ++ s.near.toStream.rest)

/-- The bytes on the way back. -/
def comingBack (j : ℕ) (s : Proxied) : Bytes :=
  s.near.toTcp.rest ++ (s.duplex.comingBack j ++ (s.far j).toStream.rest)

end Proxied
end TransportProxy.Slipstream
