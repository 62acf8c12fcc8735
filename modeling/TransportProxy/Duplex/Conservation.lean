import TransportProxy.Client.Receive
import TransportProxy.Duplex.Order
import TransportProxy.Server.Receive

/-! # Nothing is lost on the way

While the stream is open, everything that the task at one end has put into its queue and the task at
the other end has not read yet is in one of the places between the two, and in the order in which it
was put there: `goingOut` lists those on the way from the client to the server, and `comingBack`
those on the way from the server to the client. This is about one stream of the server, `j`, which
is the only one that the connection has there.
-/
namespace TransportProxy.Slipstream
open Foundations
set_option autoImplicit false

namespace Duplex
variable {key : CnxPtr} {sid : UInt64} {j : ℕ} {s : Duplex} {e : DuplexEvent}
  {es : List DuplexEvent} {tr : List DuplexObs}

/-- The stream stays open while this event happens: calls of `picoquic_add_to_stream` for it return
zero, what is delivered finds room, and what comes on the connection, but nothing else, goes to
stream `j`. -/
def Open (key : CnxPtr) (sid : UInt64) (j : ℕ) (s : Duplex) : DuplexEvent → Prop
  | .client e => e.RetZero
  | .server e => s.server.RetZeroFor j e ∧ s.server.Belongs key j e
  | .deliverUp n => s.server.Belongs key j (.stream (s.upCallback key sid n)) ∧
      (0 < n → s.server.ownStream (s.upCallback key sid n) ≠ none ∧
        (s.server.stream j).recvQ.buf.length < recvCapacity)
  | .deliverDown n => 0 < n → s.client.bridge.recvQ.buf.length < recvCapacity

instance Open.decidable (key : CnxPtr) (sid : UInt64) (j : ℕ) (s : Duplex) :
    ∀ e, Decidable (s.Open key sid j e)
  | .client e => inferInstanceAs (Decidable e.RetZero)
  | .server _ => inferInstanceAs (Decidable (_ ∧ _))
  | .deliverUp _ => inferInstanceAs (Decidable (_ ∧ (_ → _ ∧ _)))
  | .deliverDown _ => inferInstanceAs (Decidable (_ → _ < _))

/-- The bytes on the way to the server's task, the next to be read first. -/
def goingOut (j : ℕ) (s : Duplex) : Bytes :=
  (s.server.stream j).unread ++ ((s.server.firstOf j).flatten ++
    (s.up ++ s.client.unsent.flatten))

/-- The bytes on the way to the client's task. -/
def comingBack (j : ℕ) (s : Duplex) : Bytes :=
  s.client.bridge.unread ++ (s.down ++ (s.server.stream j).sendQ.buf.flatten)

theorem Open.retZero (h : s.Open key sid j e) : e.RetZero := by
  cases e with
  | client e => exact h
  | server | deliverUp | deliverDown => trivial

/-- An event that offers a chunk brings bytes. -/
theorem pos_of_push {cb : StreamCallback} {b v : Bytes} {n : ℕ} (he : cb.event = .streamData)
    (hb : cb.bytes = some (b.take n)) (hd : cb.data = some v) (hv : (!v.isEmpty) = true) :
    0 < n := by
  have ht := data_of_take he hb
  rw [hd, Option.getD_some] at ht
  rcases n with - | n
  · simp [ht] at hv
  · exact Nat.succ_pos n

/-- The events that bring no bytes need no room for any. -/
theorem Open.client {ce : ClientEvent} {r : Duplex × List DuplexObs}
    (hs : (machine key sid).step s e = some r) (h : s.Open key sid j e)
    (he : s.clientEvent sid e = some ce) : ce.RetZero ∧ s.client.Room (fun v => !v.isEmpty) ce := by
  refine ⟨retZero_of_clientEvent h.retZero he, ?_⟩
  cases e with
  | client e =>
    obtain rfl := Option.some.inj he
    simp only [machine, step, Option.ite_none_right_eq_some] at hs
    intro v hv hk
    cases e with
    | stream cb =>
      have hd := StreamCallback.data_of_clientPush hv (by simpa using hk)
      have hb := hs.1.2
      simp [ClientEvent.brings, hd] at hb
    | app | loop | resume | loopReturn => cases hv
  | deliverDown n =>
    obtain rfl := Option.some.inj he
    intro v hv hk
    have hd : (s.downCallback sid n).data = some v :=
      StreamCallback.data_of_clientPush hv (by simpa using hk)
    exact h (pos_of_push rfl rfl hd hk)
  | server | deliverUp => cases he

theorem Open.server {se : ServerEvent} {r : Duplex × List DuplexObs}
    (hs : (machine key sid).step s e = some r) (h : s.Open key sid j e)
    (he : s.serverEvent key sid e = some se) :
    s.server.RetZeroFor j se ∧ s.server.Room (fun v => !v.isEmpty) j se ∧
      s.server.Belongs key j se := by
  cases e with
  | server e =>
    obtain rfl := Option.some.inj he
    simp only [machine, step, Option.ite_none_right_eq_some] at hs
    refine ⟨h.1, ?_, h.2⟩
    cases e with
    | stream cb =>
      intro hown v hv hk
      have hd := StreamCallback.data_of_serverPush hv (by simpa using hk)
      have hev : cb.event = .streamData := by
        by_contra hc
        rw [StreamCallback.data, if_neg hc] at hd
        cases hd
      have hb := hs.1
      simp [ServerEvent.brings, hev, (h.2 j hown).mp rfl] at hb
    | app | accept | loop | resume => trivial
  | deliverUp n =>
    obtain rfl := Option.some.inj he
    refine ⟨trivial, fun _ v hv hk => ?_, h.1⟩
    have hd : (s.upCallback key sid n).data = some v :=
      StreamCallback.data_of_serverPush hv (by simpa using hk)
    exact (h.2 (pos_of_push rfl rfl hd hk)).2
  | client | deliverDown => cases he

/-- What is brought on the connection is delivered to the stream. -/
theorem Open.delivered {se : ServerEvent} {sout : List ServerObs} {s' : Duplex}
    {out : List DuplexObs} (hs : (machine key sid).step s e = some (s', out))
    (h : s.Open key sid j e) (he : s.serverEvent key sid e = some se)
    (hse : Server.machine.step s.server se = some (s'.server, sout)) :
    Server.delivered j sout = se.brought key := by
  have hbelongs := (h.server hs he).2.2
  rw [Server.delivered_step hse]
  cases se with
  | stream cb =>
    by_cases hown : s.server.ownStream cb = some j
    · rw [Server.about, if_pos hown, ServerEvent.brought, if_pos ((hbelongs j hown).mp rfl)]
      rfl
    · rw [Server.about, if_neg hown]
      cases e with
      | server e =>
        obtain rfl := Option.some.inj he
        simp only [machine, step, Option.ite_none_right_eq_some] at hs
        exact (brought_of_not_brings hs.1).symm
      | deliverUp n =>
        obtain rfl := ServerEvent.stream.inj (Option.some.inj he)
        -- bytes reach the stream, so these are none
        rcases Nat.eq_zero_or_pos n with rfl | hn
        · rw [brought_upCallback]
          rfl
        · obtain ⟨i, hi⟩ := Option.ne_none_iff_exists'.mp (h.2 hn).1
          exact absurd ((hbelongs i hi).mpr rfl ▸ hi) hown
      | client | deliverDown => cases he
  | app | accept | loop | resume => rfl

/-- All that the client hands over is delivered or on its way. -/
theorem carried_all (hr : (machine key sid).run init es = some (s, tr))
    (hg : (machine key sid).Along (Open key sid j) init es) :
    sentUp sid (clientTrace tr) = Server.delivered j (serverTrace tr) ++ s.up := by
  have hall : Server.delivered j (serverTrace tr) = Server.brought key (serverTrace tr) := by
    refine Machine.run_trace (fun (_ : Duplex) tr =>
      Server.delivered j (serverTrace tr) = Server.brought key (serverTrace tr)) ?_ hr hg rfl
    intro s tr e s' out hi hk hs
    rw [serverTrace_append, Server.delivered_append, Server.brought_append, hi]
    cases step_cases hs with
    | client ce cout he hce hout =>
      rw [hout, serverTrace_map_client]
      rfl
    | server se sout he hse hout =>
      rw [hout, serverTrace_map_server, hk.delivered hs he hse, Server.brought_step hse]
  rw [(carried_run hr).up, hall]

theorem sentDown_eq (hr : (machine key sid).run init es = some (s, tr))
    (hg : (machine key sid).Along (Open key sid j) init es) :
    sentDown key sid (serverTrace tr) =
      (handedOver (Server.calls j (serverTrace tr))).flatten := by
  obtain ⟨gs, hgs, hgg⟩ := server_run (H := Server.Belongs key j)
    (fun _ _ _ _ hs h he => (h.server hs he).2.2) hr hg
  rw [sentDown_run hr, Server.belongs_run hgs hgg]
  rfl

/-- From the reads of the client's task back to what was delivered to the client. -/
theorem client_keeps {fs : List ClientEvent} {c : Client} {ctr : List ClientObs}
    (hr : Client.machine.run .init fs = some (c, ctr))
    (hg : Client.machine.Along (Client.Room fun v => !v.isEmpty) .init fs)
    (hh : c.bridge.owner = .held) :
    Client.delivered ctr = (reads (Client.bridgeTrace ctr)).flatten ++ c.bridge.unread := by
  have hfed := (Client.fed_run hr hg).all ((Client.owned_run hr).recv.mpr hh)
  have hflat := congrArg List.flatten hfed
  rw [List.append_nil, List.flatten_filter_not_isEmpty, List.flatten_filter_not_isEmpty,
    Client.pushes_flatten] at hflat
  rw [← hflat, (Client.ledger_run hr).recv]

/-- From the reads of the server's task back to what was delivered to the server. -/
theorem server_keeps {gs : List ServerEvent} {u : Server} {str : List ServerObs}
    (hr : Server.machine.run .init gs = some (u, str))
    (hg : Server.machine.Along (Server.Room (fun v => !v.isEmpty) j) .init gs)
    (hh : (u.stream j).owner = .held) :
    Server.delivered j str = (reads (Server.bridgeTrace j str)).flatten ++
      ((u.stream j).unread ++ (u.firstOf j).flatten) := by
  have hfed := (Server.fed_run hr hg).fed.all ((Server.owned_run hr j).recv.mpr hh)
  have hflat := congrArg List.flatten hfed
  rw [List.flatten_append, List.flatten_filter_not_isEmpty, List.flatten_filter_not_isEmpty,
    List.flatten_filter_not_isEmpty, Server.pushes_flatten] at hflat
  rw [← hflat, (Server.ledger_run hr j).recv, List.append_assoc]

/-- What a task reads is the front of what was delivered, also after it has dropped the stream. -/
theorem client_front {fs : List ClientEvent} {c : Client} {ctr : List ClientObs}
    (hr : Client.machine.run .init fs = some (c, ctr))
    (hg : Client.machine.Along (Client.Room fun v => !v.isEmpty) .init fs) :
    (reads (Client.bridgeTrace ctr)).flatten <+: Client.delivered ctr := by
  have hf := (Client.fed_run hr hg).front.flatten
  rw [List.flatten_filter_not_isEmpty, List.flatten_filter_not_isEmpty, Client.pushes_flatten,
    (Client.ledger_run hr).recv] at hf
  exact (List.prefix_append _ _).trans hf

theorem server_front {gs : List ServerEvent} {u : Server} {str : List ServerObs}
    (hr : Server.machine.run .init gs = some (u, str))
    (hg : Server.machine.Along (Server.Room (fun v => !v.isEmpty) j) .init gs) :
    (reads (Server.bridgeTrace j str)).flatten <+: Server.delivered j str := by
  have hf := (Server.fed_run hr hg).fed.front.flatten
  rw [List.flatten_filter_not_isEmpty, List.flatten_filter_not_isEmpty, Server.pushes_flatten,
    (Server.ledger_run hr j).recv] at hf
  exact (List.prefix_append _ _).trans hf

/-- While the stream is open, the server's task hears the front of what was written. -/
theorem heard_prefix (hr : (machine key sid).run init es = some (s, tr))
    (hg : (machine key sid).Along (Open key sid j) init es) :
    heard j tr <+: (written tr).flatten := by
  obtain ⟨gs, hgs, hgg⟩ := server_run (H := Server.Room (fun v => !v.isEmpty) j)
    (fun _ _ _ _ hs h he => (h.server hs he).2.1) hr hg
  calc heard j tr <+: Server.delivered j (serverTrace tr) := server_front hgs hgg
    _ <+: sentUp sid (clientTrace tr) := ⟨s.up, (carried_all hr hg).symm⟩
    _ <+: (written tr).flatten := sentUp_front hr (hg.mono fun _ _ h => h.retZero)

theorem readBack_prefix (hr : (machine key sid).run init es = some (s, tr))
    (hg : (machine key sid).Along (Open key sid j) init es) :
    readBack tr <+: (answered j tr).flatten := by
  obtain ⟨fs, hfs, hfg⟩ := client_run (H := Client.Room fun v => !v.isEmpty)
    (fun _ _ _ _ hs h he => (h.client hs he).2) hr hg
  obtain ⟨gs, hgs, hgz⟩ := server_run (H := Server.RetZeroFor j)
    (fun _ _ _ _ hs h he => (h.server hs he).1) hr hg
  calc readBack tr <+: Client.delivered (clientTrace tr) := client_front hfs hfg
    _ <+: sentDown key sid (serverTrace tr) := ⟨s.down, (carried_run hr).down.symm⟩
    _ <+: (answered j tr).flatten := by
      rw [sentDown_eq hr hg, Server.handed_run hgs hgz, answered, (Server.ledger_run hgs j).send,
        List.flatten_append]
      exact List.prefix_append _ _

/-- What was written is what the server's task has heard and what is going out. -/
theorem written_run (hr : (machine key sid).run init es = some (s, tr))
    (hg : (machine key sid).Along (Open key sid j) init es)
    (hh : (s.server.stream j).owner = .held) :
    (written tr).flatten = heard j tr ++ s.goingOut j := by
  obtain ⟨fs, hfs, hfz⟩ := client_run (H := fun _ e => e.RetZero)
    (fun _ _ _ _ hs h he => (h.client hs he).1) hr hg
  obtain ⟨gs, hgs, hgg⟩ := server_run (H := Server.Room (fun v => !v.isEmpty) j)
    (fun _ _ _ _ hs h he => (h.server hs he).2.1) hr hg
  have hgrant : Client.Granted s.client (clientTrace tr) := Client.granted_run hfs hfz .init
  calc (written tr).flatten
      = sentUp sid (clientTrace tr) ++ s.client.unsent.flatten := by
        rw [written, hgrant.enqueued, List.flatten_append, sentUp_run hr]
    _ = Server.delivered j (serverTrace tr) ++ (s.up ++ s.client.unsent.flatten) := by
        rw [carried_all hr hg, List.append_assoc]
    _ = heard j tr ++ s.goingOut j := by
        rw [server_keeps hgs hgg hh, goingOut, heard]
        simp only [List.append_assoc]

theorem answered_run (hr : (machine key sid).run init es = some (s, tr))
    (hg : (machine key sid).Along (Open key sid j) init es)
    (hh : s.client.bridge.owner = .held) :
    (answered j tr).flatten = readBack tr ++ s.comingBack j := by
  obtain ⟨fs, hfs, hfg⟩ := client_run (H := Client.Room fun v => !v.isEmpty)
    (fun _ _ _ _ hs h he => (h.client hs he).2) hr hg
  obtain ⟨gs, hgs, hgz⟩ := server_run (H := Server.RetZeroFor j)
    (fun _ _ _ _ hs h he => (h.server hs he).1) hr hg
  calc (answered j tr).flatten
      = sentDown key sid (serverTrace tr) ++ (s.server.stream j).sendQ.buf.flatten := by
        rw [answered, (Server.ledger_run hgs j).send, List.flatten_append, sentDown_eq hr hg,
          Server.handed_run hgs hgz]
    _ = readBack tr ++ s.comingBack j := by
        rw [(carried_run hr).down, client_keeps hfs hfg hh, comingBack, readBack]
        simp only [List.append_assoc]

end Duplex
end TransportProxy.Slipstream
