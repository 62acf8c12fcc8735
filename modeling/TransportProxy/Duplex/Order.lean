import TransportProxy.Client.OwnStream
import TransportProxy.DrainRefinement
import TransportProxy.Duplex.Machine
import Mathlib.Data.List.Flatten

/-! # Nothing is repeated or reordered on the way

Whatever is refused, dropped or reset on the way, and whatever ends first, what the task at one end
reads is what the tasks at the other end have put into their queues, with some of it left out: each
of the places that the bytes pass takes them from the one before in order. The one thing that is
assumed is that the client's calls succeed, since a failed one may let a later chunk overtake.

A connection may open several streams at the server, one after the other. `heardOn` and `answeredOn`
are what their tasks have read and written, in that order.
-/
namespace TransportProxy.Slipstream
open Foundations
set_option autoImplicit false

theorem flatten_flatMap {α β : Type} (l : List α) (f : α → List (List β)) :
    (l.flatMap f).flatten = l.flatMap fun a => (f a).flatten := by
  simp only [← List.flatMap_id, List.flatMap_assoc]

/-- The client's calls of `picoquic_add_to_stream` return zero. -/
def DuplexEvent.RetZero : DuplexEvent → Prop
  | .client e => e.RetZero
  | _ => True

instance DuplexEvent.RetZero.decidable : ∀ e : DuplexEvent, Decidable e.RetZero
  | .client e => inferInstanceAs (Decidable e.RetZero)
  | .server _ | .deliverUp _ | .deliverDown _ => .isTrue trivial

theorem Server.delivered_step {s s' : Server} {e : ServerEvent} {out : List ServerObs}
    (h : machine.step s e = some (s', out)) (j : ℕ) :
    delivered j out = ((s.about j e).bind StreamCallback.data).getD [] := by
  rw [delivered, (step_cases h).callbacks]
  cases s.about j e with
  | none => rfl
  | some cb => cases hd : cb.data <;> simp [hd]

theorem Server.delivered_append (j : ℕ) (t u : List ServerObs) :
    delivered j (t ++ u) = delivered j t ++ delivered j u := by
  simp [delivered]

/-- The bytes that have been brought to the server on a connection, to a stream or not. -/
def Server.brought (key : CnxPtr) (tr : List ServerObs) : Bytes :=
  ((callbacksOf key tr).filterMap StreamCallback.data).flatten

theorem Server.brought_append (key : CnxPtr) (t u : List ServerObs) :
    brought key (t ++ u) = brought key t ++ brought key u := by
  simp [brought]

theorem Server.brought_step {s s' : Server} {e : ServerEvent} {out : List ServerObs}
    (h : machine.step s e = some (s', out)) (key : CnxPtr) : brought key out = e.brought key := by
  rw [brought]
  obtain ⟨hcb, -, -, hne⟩ | ⟨cb, rfl, hc, hcb, -⟩ := (step_cases h).entry key
  · rw [hcb]
    cases e with
    | stream cb => exact (if_neg (hne cb rfl)).symm
    | app | accept | loop | resume => rfl
  · rw [hcb, ServerEvent.brought, if_pos hc]
    cases hd : cb.data <;> simp [hd]

/-- What is delivered to the streams of a connection has been brought on it. -/
theorem Server.delivered_sublist {s : Server} {es : List ServerEvent} {tr : List ServerObs}
    (hr : machine.run init es = some (s, tr)) (key : CnxPtr) :
    ((acceptedOf key tr).flatMap fun j => delivered j tr).Sublist (brought key tr) := by
  have hsub := ((callbacksOf_run hr key).filterMap StreamCallback.data).flatten
  rwa [List.filterMap_flatMap, flatten_flatMap] at hsub

theorem Client.delivered_step {s s' : Client} {e : ClientEvent} {out : List ClientObs}
    (h : machine.step s e = some (s', out)) :
    delivered out = (e.callback.bind StreamCallback.data).getD [] := by
  rw [delivered, (step_cases h).callbacks]
  cases e.callback with
  | none => rfl
  | some cb => cases hd : cb.data <;> simp [hd]

/-- What the client offers in a run, as the callbacks show it and as the events bring it. -/
theorem Client.pushes_eq {s t : Client} {es : List ClientEvent} {tr : List ClientObs}
    (hr : machine.run s es = some (t, tr)) : pushes tr = es.filterMap ClientEvent.push := by
  refine Machine.run_events (fun _ es tr => pushes tr = es.filterMap ClientEvent.push) ?_ hr
    (Machine.Along.true _ _) rfl
  rintro s es tr e s' out hi - hs
  rw [pushes_append, hi, (step_cases hs).pushes, List.filterMap_append, filterMap_cons_toList,
    List.filterMap_nil, List.append_nil]

namespace AddToStream
variable {sid : UInt64}

theorem carried_append (cs ds : List AddToStream) :
    carried sid (cs ++ ds) = carried sid cs ++ carried sid ds := by
  simp [carried]

/-- Where all calls are for the stream, it carries what they hand over. -/
theorem carried_of_streamId {cs : List AddToStream} (h : ∀ c ∈ cs, c.streamId = sid) :
    carried sid cs = (handedOver (cs.map entry)).flatten := by
  induction cs with
  | nil => rfl
  | cons c cs ih =>
    rw [List.forall_mem_cons] at h
    have hc : carried sid [c] = if c.ret = 0 then c.data else [] := by
      by_cases hz : c.ret = 0 <;> simp [carried, h.1, hz]
    rw [← List.singleton_append, carried_append, ih h.2, hc, List.map_append, handedOver_append,
      List.flatten_append]
    by_cases hz : c.ret = 0 <;> simp [hz]

end AddToStream

namespace Duplex
variable {key : CnxPtr} {sid : UInt64} {s s' : Duplex} {e : DuplexEvent} {es : List DuplexEvent}
  {tr out : List DuplexObs}

/-- What the tasks of the connection's streams have read, and what they have put into the send
queues. -/
def heardOn (key : CnxPtr) (tr : List DuplexObs) : Bytes :=
  (streams key tr).flatMap fun j => heard j tr

def answeredOn (key : CnxPtr) (tr : List DuplexObs) : Bytes :=
  (streams key tr).flatMap fun j => (answered j tr).flatten

theorem sentUp_append (sid : UInt64) (t u : List ClientObs) :
    sentUp sid (t ++ u) = sentUp sid t ++ sentUp sid u := by
  rw [sentUp, Client.adds_append, AddToStream.carried_append]
  rfl

theorem sentDown_append (key : CnxPtr) (sid : UInt64) (t u : List ServerObs) :
    sentDown key sid (t ++ u) = sentDown key sid t ++ sentDown key sid u := by
  rw [sentDown, Server.addsOn_append, AddToStream.carried_append]
  rfl

/-- What was handed over is brought to the other end or on its way. -/
structure Carried (key : CnxPtr) (sid : UInt64) (s : Duplex) (tr : List DuplexObs) : Prop where
  up : sentUp sid (clientTrace tr) = Server.brought key (serverTrace tr) ++ s.up
  down : sentDown key sid (serverTrace tr) = Client.delivered (clientTrace tr) ++ s.down

theorem Carried.init : Carried key sid init [] := ⟨rfl, rfl⟩

theorem Step.carried (h : Step key sid s e s' out) (hi : Carried key sid s tr) :
    Carried key sid s' (tr ++ out) := by
  cases h with
  | client ce cout he hs hout hserver hid hup hdown =>
    subst hout
    constructor
    · rw [serverTrace_append, serverTrace_map_client, List.append_nil, clientTrace_append,
        clientTrace_map_client, sentUp_append, hup, ← List.append_assoc, hi.up]
    · rw [serverTrace_append, serverTrace_map_client, List.append_nil, clientTrace_append,
        clientTrace_map_client, Client.delivered_append, Client.delivered_step hs,
        List.append_assoc, ← hdown]
      exact hi.down
  | server se sout he hs hout hclient hid hdown hup =>
    subst hout
    constructor
    · rw [clientTrace_append, clientTrace_map_server, List.append_nil, serverTrace_append,
        serverTrace_map_server, Server.brought_append, Server.brought_step hs, List.append_assoc,
        ← hup]
      exact hi.up
    · rw [clientTrace_append, clientTrace_map_server, List.append_nil, serverTrace_append,
        serverTrace_map_server, sentDown_append, hi.down, hdown, List.append_assoc]

theorem carried_run (hr : (machine key sid).run init es = some (s, tr)) : Carried key sid s tr :=
  Machine.run_trace (Carried key sid) (fun _ _ _ _ _ hi _ hs => (step_cases hs).carried hi) hr
    (Machine.Along.true _ _) .init

theorem givesId_of_clientEvent {ce : ClientEvent} {r : Duplex × List DuplexObs}
    (hs : (machine key sid).step s e = some r) (he : s.clientEvent sid e = some ce) :
    ce.GivesId sid := by
  cases step_cases hs with
  | client ce' cout he' hs hout hserver hid =>
    rw [he, Option.some.injEq] at he'
    exact he' ▸ hid
  | server se sout he' =>
    cases e with
    | client | deliverDown => cases he'
    | server | deliverUp => cases he

theorem givesId_of_serverEvent {se : ServerEvent} {r : Duplex × List DuplexObs}
    (hs : (machine key sid).step s e = some r) (he : s.serverEvent key sid e = some se) :
    se.GivesId key sid := by
  cases step_cases hs with
  | server se' sout he' hs hout hclient hid =>
    rw [he, Option.some.injEq] at he'
    exact he' ▸ hid
  | client ce cout he' =>
    cases e with
    | client | deliverDown => cases he
    | server | deliverUp => cases he'

/-- All that the client hands over is on the stream. -/
theorem sentUp_run (hr : (machine key sid).run init es = some (s, tr)) :
    sentUp sid (clientTrace tr) = (Client.handed (clientTrace tr)).flatten := by
  obtain ⟨fs, hfs, hfg⟩ := client_run (G := fun _ _ => True) (H := fun _ e => e.GivesId sid)
    (fun _ _ _ _ hs _ he => givesId_of_clientEvent hs he) hr (Machine.Along.true _ _)
  exact AddToStream.carried_of_streamId (Client.streamId_run hfs hfg)

theorem sentDown_run (hr : (machine key sid).run init es = some (s, tr)) :
    sentDown key sid (serverTrace tr) =
      (handedOver ((Server.addsOn key (serverTrace tr)).map AddToStream.entry)).flatten := by
  obtain ⟨gs, hgs, hgg⟩ := server_run (G := fun _ _ => True) (H := fun _ e => e.GivesId key sid)
    (fun _ _ _ _ hs _ he => givesId_of_serverEvent hs he) hr (Machine.Along.true _ _)
  exact AddToStream.carried_of_streamId (Server.streamId_run hgs hgg)

/-! ## Inside the two ends -/

theorem retZero_of_clientEvent {ce : ClientEvent} (hz : e.RetZero)
    (he : s.clientEvent sid e = some ce) : ce.RetZero := by
  cases e with
  | client e =>
    obtain rfl := Option.some.inj he
    exact hz
  | deliverDown n =>
    obtain rfl := Option.some.inj he
    trivial
  | server | deliverUp => cases he

/-- What the client hands over is the front of what its task has written. -/
theorem handed_front {fs : List ClientEvent} {c : Client} {ctr : List ClientObs}
    (hr : Client.machine.run .init fs = some (c, ctr))
    (hz : Client.machine.Along (fun _ e => e.RetZero) .init fs) :
    (Client.handed ctr).flatten <+: (Client.enqueued ctr).flatten := by
  have hg : Client.Granted c ctr := Client.granted_run hr hz .init
  exact ⟨c.unsent.flatten, by rw [hg.enqueued, List.flatten_append]⟩

theorem reads_sublist_client {fs : List ClientEvent} {c : Client} {ctr : List ClientObs}
    (hr : Client.machine.run .init fs = some (c, ctr)) :
    (reads (Client.bridgeTrace ctr)).flatten.Sublist (Client.delivered ctr) := by
  have hrecv := Client.received_sublist_run hr
  rw [← Client.pushes_eq hr] at hrecv
  rw [← Client.pushes_flatten]
  refine List.Sublist.trans ?_ hrecv.flatten
  rw [(Client.ledger_run hr).recv]
  exact List.sublist_append_left _ _

theorem reads_sublist_server {fs : List ServerEvent} {u : Server} {str : List ServerObs}
    (hr : Server.machine.run .init fs = some (u, str)) (j : ℕ) :
    (reads (Server.bridgeTrace j str)).flatten.Sublist (Server.delivered j str) := by
  have hrecv := Server.received_sublist_run hr j
  rw [← Server.pushes_flatten]
  refine List.Sublist.trans ?_ hrecv.flatten
  rw [List.flatten_append, (Server.ledger_run hr j).recv, List.append_assoc]
  exact List.sublist_append_left _ _

/-- Some calls fail, and the entries they are for are gone. -/
theorem handed_sublist {fs : List ServerEvent} {u : Server} {str : List ServerObs}
    (hr : Server.machine.run .init fs = some (u, str)) (j : ℕ) :
    (handedOver (Server.calls j str)).flatten.Sublist
      (queued (Server.bridgeTrace j str)).flatten := by
  refine List.Sublist.flatten ?_
  rw [(Server.ledger_run hr j).send, Server.popped_run hr j, handedOver]
  exact (List.filter_sublist.map Prod.fst).trans (List.sublist_append_left _ _)

/-- What is handed over on a connection is handed over for its streams, one after the other. -/
theorem handedOn_run {fs : List ServerEvent} {u : Server} {str : List ServerObs}
    (hr : Server.machine.run .init fs = some (u, str)) (key : CnxPtr) :
    (handedOver ((Server.addsOn key str).map AddToStream.entry)).flatten =
      (Server.acceptedOf key str).flatMap fun j => (handedOver (Server.calls j str)).flatten := by
  rw [Server.addsOn_run hr, List.map_flatMap, handedOver, List.filter_flatMap, List.map_flatMap,
    flatten_flatMap]
  rfl

/-- What is handed over on the stream is the front of what was written. -/
theorem sentUp_front (hr : (machine key sid).run init es = some (s, tr))
    (hz : (machine key sid).Along (fun _ e => e.RetZero) init es) :
    sentUp sid (clientTrace tr) <+: (written tr).flatten := by
  obtain ⟨fs, hfs, hfz⟩ := client_run (H := fun _ e => e.RetZero)
    (fun _ _ _ _ _ => retZero_of_clientEvent) hr hz
  rw [sentUp_run hr]
  exact handed_front hfs hfz

theorem heard_sublist (hr : (machine key sid).run init es = some (s, tr))
    (hz : (machine key sid).Along (fun _ e => e.RetZero) init es) :
    (heardOn key tr).Sublist (written tr).flatten := by
  obtain ⟨gs, hgs⟩ := serverView.run hr
  have hreads : (heardOn key tr).Sublist
      ((streams key tr).flatMap fun j => Server.delivered j (serverTrace tr)) :=
    List.Sublist.flatMap_right _ fun j _ => reads_sublist_server hgs j
  calc (heardOn key tr).Sublist (Server.brought key (serverTrace tr)) :=
      hreads.trans (Server.delivered_sublist hgs key)
    List.Sublist _ (sentUp sid (clientTrace tr)) := by
      rw [(carried_run hr).up]
      exact List.sublist_append_left _ _
    List.Sublist _ (written tr).flatten := (sentUp_front hr hz).sublist

theorem sentDown_sublist (hr : (machine key sid).run init es = some (s, tr)) :
    (sentDown key sid (serverTrace tr)).Sublist (answeredOn key tr) := by
  obtain ⟨gs, hgs⟩ := serverView.run hr
  rw [sentDown_run hr]
  refine (handedOn_run hgs key).symm ▸ ?_
  exact List.Sublist.flatMap_right _ fun j _ => handed_sublist hgs j

theorem readBack_sublist (hr : (machine key sid).run init es = some (s, tr)) :
    (readBack tr).Sublist (answeredOn key tr) := by
  obtain ⟨fs, hfs⟩ := clientView.run hr
  calc (readBack tr).Sublist (Client.delivered (clientTrace tr)) := reads_sublist_client hfs
    List.Sublist _ (sentDown key sid (serverTrace tr)) := by
      rw [(carried_run hr).down]
      exact List.sublist_append_left _ _
    List.Sublist _ (answeredOn key tr) := sentDown_sublist hr

end Duplex
end TransportProxy.Slipstream
