import TransportProxy.Duplex.Conservation
import TransportProxy.Server.Accept

/-! # Where the end of the stream comes

A task may take several events for the end of its stream, and some that are no event at all: that
the packet loop has given up its side. When these come in good order, after everything that the
other side has handed over and after its end, a task that reads an end has read before it exactly
what the task at the other end put into its queue before its own end.
-/
namespace TransportProxy.Slipstream
open Foundations
set_option autoImplicit false

/-- An event that the reader of the client takes for the end, or after which it finds one. -/
def ClientEvent.EndsStream : ClientEvent → Prop
  | .stream cb _ _ => cb.clientPush = some []
  | .loopReturn => True
  | _ => False

instance ClientEvent.EndsStream.decidable : ∀ e : ClientEvent, Decidable e.EndsStream
  | .stream cb _ _ => inferInstanceAs (Decidable (cb.clientPush = some []))
  | .loopReturn => .isTrue trivial
  | .app _ | .loop _ _ _ | .resume _ => .isFalse id

/-- And one of the reader of stream `j` of the server. -/
def Server.EndsStream (s : Server) (j : ℕ) : ServerEvent → Prop
  | .stream cb => s.ownStream cb = some j ∧ cb.event = .streamFin ∨
      s.unlinked cb ≠ none ∧ (s.streamOf cb.cnx).map ServerStream.index = some j
  | _ => False

instance Server.EndsStream.decidable (s : Server) (j : ℕ) : ∀ e, Decidable (s.EndsStream j e)
  | .stream _ => inferInstanceAs (Decidable (_ ∧ _ ∨ _ ≠ _ ∧ _))
  | .app _ _ | .accept | .loop _ _ _ | .resume _ => .isFalse id

/-! ## A read that finds the end -/

namespace Bridge

theorem end_read {b b' : Bridge} {op : BridgeOp} {out : List BridgeObs}
    (hs : machine.step b op = some (b', out)) (hm : [] ∈ reads out) :
    b.owner = .held ∧ received out = [] ∧ b'.recvQ.sender = b.recvQ.sender := by
  cases receive_cases hs with
  | @read remaining data half q ho hr =>
    have hends := (b.recvHalf.pollRead_ends b.recvQ remaining).2
    rw [hr] at hends
    exact ⟨ho, rfl, hends⟩
  | readPending => cases hm
  | @push v =>
    obtain ⟨-, _, hv⟩ | ⟨-, hv⟩ := b.recvTrySend_cases v
    · rw [hv] at hm
      cases hm
    · rw [hv] at hm
      cases hm
  | untouched hu =>
    rw [hu.reads] at hm
    cases hm

/-- The reads before an end are as complete as what was pushed before it. -/
theorem MarkedLedger.finished {b b' : Bridge} {op : BridgeOp} {t out : List BridgeObs}
    {sent pushed next : List Bytes} (hl : b'.MarkedLedger (t ++ out))
    (hs : machine.step b op = some (b', out)) (hm : [] ∈ reads out) (ho : b.Owned)
    (hfed : b.recvQ.receiver = true → received t ++ next = pushed)
    (hnext : b.recvQ.sender = false → next = [])
    (hend : [] ∈ pushed ∨ b.recvQ.sender = false → Finished sent pushed) :
    Finished sent (reads (t ++ out)) := by
  obtain ⟨hheld, hrecv, hsender⟩ := end_read hs hm
  have hpushed := hfed (ho.recv.mpr hheld)
  have hread : [] ∈ reads (t ++ out) := by
    rw [reads_append]
    exact List.mem_append_right _ hm
  have hr : received (t ++ out) = received t := by rw [received_append, hrecv, List.append_nil]
  have hbefore : beforeEnd (reads (t ++ out)) = beforeEnd (received t) := by
    obtain ⟨k, he, -⟩ := hl
    rw [hr] at he
    have hends := beforeEnd_prefix he
    exact (hends.2 hread).trans (symbolsBeforeEnd_marks _)
  by_cases hq : [] ∈ received t
  · obtain ⟨front, hf, hfm, hfe⟩ := hend (.inl (hpushed ▸ List.mem_append_left _ hq))
    refine ⟨front, hf, hfm, ?_⟩
    rw [hbefore, ← hfe, ← hpushed, beforeEnd_append_of_mem hq]
  · -- no marker was queued, so the sender is gone
    have hgone : b.recvQ.sender = false := by
      by_contra hc
      exact hl.nil_not_mem_reads (hsender.trans (by simpa using hc)) (hr ▸ hq) hread
    obtain ⟨front, hf, hfm, hfe⟩ := hend (.inr hgone)
    rw [hnext hgone, List.append_nil] at hpushed
    exact ⟨front, hf, hfm, by rw [hbefore, hpushed, hfe]⟩

end Bridge

/-! ## The events that end a stream -/

namespace Client
variable {s s' : Client} {e : ClientEvent} {out : List ClientObs}

theorem Step.sender_kept (h : Step s e s' out) (hn : e ≠ .loopReturn) :
    s'.bridge.recvQ.sender = s.bridge.recvQ.sender := by
  cases h with
  | app h => exact (Bridge.app_cases h).loopEnds.1
  | @chunk _ _ _ v => exact ((s.bridge.loop_step (.recvTrySend v)).loopEnds rfl).1
  | wakeFirst | wakeLast => exact ((s.bridge.loop_step .wakeTrySend).loopEnds rfl).1
  | peeked hp hr hn hb | drained hp hb =>
    obtain ⟨-, rfl⟩ := Bridge.sendTryRecv_ok hb
    rfl
  | dropWakeTx => simp [Bridge.dropWakeTx]
  | loopReturn => exact absurd rfl hn
  | _ => rfl

theorem Step.push_closed (h : Step s e s' out) (he : LoopEnds s)
    (hc : s.bridge.recvQ.sender = false) : e.push = none := by
  obtain ⟨-, -, hn⟩ | ⟨op, hop, -⟩ := h.bridge_op
  · exact hn
  · cases op with
    | app op =>
      rw [show e = .app op from hop]
      rfl
    | loop op =>
      cases op with
      | recvTrySend v =>
        have hlive := he.recv.mpr (by rw [LoopPc.dropped_of_calm hop.2]; exact Nat.zero_lt_one)
        rw [hc] at hlive
        cases hlive
      | _ => exact hop

theorem Step.ends (h : Step s e s' out) (hs : s.bridge.recvQ.sender = true)
    (he : e.push = some [] ∨ s'.bridge.recvQ.sender = false) : e.EndsStream := by
  obtain he | he := he
  · cases e with
    | stream cb => exact he
    | app | loop | resume | loopReturn => cases he
  · by_contra hn
    rw [h.sender_kept (by rintro rfl; exact hn trivial), hs] at he
    cases he

end Client

theorem ClientEvent.EndsStream.push {e : ClientEvent} (h : e.EndsStream) :
    ∀ v ∈ e.push.toList, v = [] := by
  cases e with
  | stream cb =>
    intro v hv
    rw [Option.mem_toList, ClientEvent.push, ClientEvent.callback, Option.bind_some] at hv
    exact Option.some.inj (hv.symm.trans h)
  | loopReturn => simp [ClientEvent.push, ClientEvent.callback]
  | app | loop | resume => cases h

namespace Server
variable {s s' : Server} {e : ServerEvent} {out : List ServerObs} {j : ℕ}

theorem pushes_step (h : Step s e s' out) (j : ℕ) :
    pushes j out = ((s.about j e).bind StreamCallback.serverPush).toList := by
  rw [pushes, h.callbacks]
  cases s.about j e with
  | none => rfl
  | some cb => cases hp : cb.serverPush <;> simp [hp]

theorem live_of_about {cb : StreamCallback} (h : s.about j e = some cb) : s.Live j := by
  cases e with
  | stream cb' =>
    simp only [about, Option.ite_none_right_eq_some] at h
    obtain ⟨st, hst, hi⟩ | ⟨hj, -⟩ := own_cases h.1
    · exact .inl ⟨_, st, hst, hi⟩
    · exact .inr hj.ge
  | app | accept | loop | resume => cases h

theorem Step.pushes_closed (h : Step s e s' out) (he : LoopEnds s j)
    (hc : (s.stream j).recvQ.sender = false) : Server.pushes j out = [] := by
  rw [pushes_step h]
  cases ha : s.about j e with
  | none => rfl
  | some cb =>
    have hlive := he.recv.mpr (live_of_about ha)
    rw [hc] at hlive
    cases hlive

theorem Step.live_kept (h : Step s e s' out) (hl : Linked s) (hi : s.Live j)
    (hn : ¬ s.EndsStream j e) : s'.Live j := by
  cases h with
  | openEmpty hp ho | openChunk hp ho => exact (live_of_opened ho (by rfl) (by simp) j).mpr hi
  | @unlink cb conns hp hc ho =>
    rw [Live, connected_of_unlinked (s := s) (t := { s with connections := conns }) hc ho]
    exact hi
  | @unlinkStream cb conns st hp hc hst =>
    have hij : j ≠ st.index := by
      rintro rfl
      exact hn (.inr ⟨by simp [hc], by rw [hst]; rfl⟩)
    rw [Live, hl.connected_of_unlinkStream
      (t := { connections := conns, streams := (loopAt s.streams st.index .dropRecvTx).1
              acceptQ := s.acceptQ, pc := .dropSendRx st.index }) hc hst j]
    exact hi.imp (fun hc => ⟨hc, hij⟩) (by simp)
  | _ => exact (live_of_streams (by rfl) (by simp) j).mpr hi

theorem Step.ends (h : Step s e s' out) (hl : Linked s) (he : LoopEnds s j) (he' : LoopEnds s' j)
    (hs : (s.stream j).recvQ.sender = true)
    (hend : [] ∈ Server.pushes j out ∨ (s'.stream j).recvQ.sender = false) :
    s.EndsStream j e := by
  obtain hm | hc := hend
  · rw [pushes_step h, Option.mem_toList, Option.bind_eq_some_iff] at hm
    obtain ⟨cb, ha, hp⟩ := hm
    cases e with
    | stream cb' =>
      simp only [about, Option.ite_none_right_eq_some, Option.some.injEq] at ha
      obtain ⟨hown, rfl⟩ := ha
      refine .inl ⟨hown, ?_⟩
      cases hev : cb'.event <;> simp only [StreamCallback.serverPush, hev, reduceCtorEq] at hp
      · exact absurd rfl (StreamCallback.chunk_ne_nil hp)
      · rfl
    | app | accept | loop | resume => cases ha
  · by_contra hn
    have hlive := he'.recv.mpr (h.live_kept hl (he.recv.mp hs) hn)
    rw [hc] at hlive
    cases hlive

theorem Step.pushes_ends (h : Step s e s' out) (he : s.EndsStream j e) :
    ∀ v ∈ Server.pushes j out, v = [] := by
  intro v hv
  rw [pushes_step h, Option.mem_toList, Option.bind_eq_some_iff] at hv
  obtain ⟨cb, ha, hp⟩ := hv
  cases e with
  | stream cb' =>
    simp only [about, Option.ite_none_right_eq_some, Option.some.injEq] at ha
    obtain ⟨hown, rfl⟩ := ha
    obtain ⟨-, hev⟩ | ⟨hu, -⟩ := he
    · simp only [StreamCallback.serverPush, hev, Option.some.injEq] at hp
      exact hp.symm
    · cases hev : cb'.event <;> simp [unlinked, hev, PicoquicCallBackEvent.closes] at hu <;>
        simp [StreamCallback.serverPush, hev] at hp
  | app | accept | loop | resume => cases ha

end Server

/-! ## One direction of the stream -/

/-- What was sent, pushed to the receiver and read there: once an end is pushed, or the sender is
gone, everything that was sent before the end has been pushed, and a read that finds the end comes
after all of it. -/
structure Ending (sent pushed read : List Bytes) (sender : Bool) : Prop where
  pushed : [] ∈ pushed ∨ sender = false → Finished sent pushed
  read : [] ∈ read → Finished sent read

namespace Ending
variable {sent sent' pushed read more new : List Bytes} {sender sender' : Bool}

theorem init : Ending [] [] [] true := ⟨by simp, nofun⟩

theorem sends (h : Ending sent pushed read sender) (hp : sent <+: sent') :
    Ending sent' pushed read sender :=
  ⟨fun he => (h.pushed he).sent hp, fun he => (h.read he).sent hp⟩

theorem receives (h : Ending sent pushed read sender) (hquiet : sender = false → more = [])
    (hends : sender = true → [] ∈ more ∨ sender' = false →
      (∀ v ∈ more, v = []) ∧ [] ∈ sent ∧ pushed.flatten = sent.flatten)
    (hread : [] ∈ new → Finished sent (read ++ new)) :
    Ending sent (pushed ++ more) (read ++ new) sender' where
  pushed he := by
    by_cases hgone : sender = false
    · rw [hquiet hgone, List.append_nil]
      exact h.pushed (.inr hgone)
    · by_cases hm : [] ∈ pushed
      · obtain ⟨front, hf, hfm, hfe⟩ := h.pushed (.inl hm)
        exact ⟨front, hf, hfm, by rw [beforeEnd_append_of_mem hm, hfe]⟩
      · obtain ⟨hall, hs, hflat⟩ := hends (by simpa using hgone)
          (he.imp (fun he => (List.mem_append.mp he).resolve_left hm) id)
        exact ⟨sent, List.prefix_rfl, hs, by rw [beforeEnd_append_ends hm hall, hflat]⟩
  read he := by
    by_cases hm : [] ∈ read
    · obtain ⟨front, hf, hfm, hfe⟩ := h.read hm
      exact ⟨front, hf, hfm, by rw [beforeEnd_append_of_mem hm, hfe]⟩
    · exact hread ((List.mem_append.mp he).resolve_left hm)

end Ending

/-- The FIN has been handed over on stream `sid`. -/
def AddToStream.Fins (sid : UInt64) (cs : List AddToStream) : Prop :=
  ∃ c ∈ cs, c.streamId = sid ∧ c.setFin = 1 ∧ c.ret = 0

instance AddToStream.Fins.decidable (sid : UInt64) (cs : List AddToStream) :
    Decidable (AddToStream.Fins sid cs) :=
  inferInstanceAs (Decidable (∃ c ∈ cs, _ ∧ _ ∧ _))

/-- The FIN goes with the end-of-file marker. -/
theorem AddToStream.Fins.marker {sid : UInt64} {cs : List AddToStream} (h : Fins sid cs)
    (hf : ∀ c ∈ cs, c.setFin = finOf c.data) : [] ∈ handedOver (cs.map entry) := by
  obtain ⟨c, hc, -, hfin, hret⟩ := h
  have hd : c.data = [] := finOf_eq_one.mp ((hf c hc).symm.trans hfin)
  rw [handedOver, List.mem_map]
  exact ⟨c.entry, List.mem_filter.mpr ⟨List.mem_map_of_mem hc, by simp [hret]⟩, hd⟩

namespace Duplex
variable {key : CnxPtr} {sid : UInt64} {j : ℕ} {s s' : Duplex} {e : DuplexEvent}
  {es : List DuplexEvent} {tr out : List DuplexObs}

/-- The connection goes on, or ends, in good order: calls of `picoquic_add_to_stream` for it return
zero, the readers have room in their buffers, what is pushed finds room in the queue, what comes on
the connection, but nothing else, goes to stream `j`, and an end comes when the other side has
handed over the FIN and all else that it handed over is delivered. -/
def Orderly (key : CnxPtr) (sid : UInt64) (j : ℕ) (s : Duplex) (tr : List DuplexObs) :
    DuplexEvent → Prop
  | .client e => e.RetZero ∧ e.RealRead ∧ s.client.Room (fun _ => true) e ∧
      (e.EndsStream → s.down = [] ∧ AddToStream.Fins sid (Server.addsOn key (serverTrace tr)))
  | .server e => (s.server.RetZeroFor j e ∧ s.server.Belongs key j e) ∧ e.RealRead j ∧
      s.server.Room (fun _ => true) j e ∧
      (s.server.EndsStream j e → s.up = [] ∧ AddToStream.Fins sid (Client.adds (clientTrace tr)))
  | .deliverUp n => s.server.Belongs key j (.stream (s.upCallback key sid n)) ∧
      (0 < n → s.server.ownStream (s.upCallback key sid n) ≠ none ∧
        (s.server.stream j).recvQ.buf.length < recvCapacity)
  | .deliverDown n => 0 < n → s.client.bridge.recvQ.buf.length < recvCapacity

instance Orderly.decidable (key : CnxPtr) (sid : UInt64) (j : ℕ) (s : Duplex)
    (tr : List DuplexObs) : ∀ e, Decidable (s.Orderly key sid j tr e)
  | .client _ => inferInstanceAs (Decidable (_ ∧ _ ∧ _ ∧ (_ → _)))
  | .server _ => inferInstanceAs (Decidable ((_ ∧ _) ∧ _ ∧ _ ∧ (_ → _)))
  | .deliverUp _ => inferInstanceAs (Decidable (_ ∧ (_ → _ ∧ _)))
  | .deliverDown _ => inferInstanceAs (Decidable (_ → _ < _))

theorem Orderly.isOpen (h : s.Orderly key sid j tr e) : s.Open key sid j e := by
  cases e with
  | client e => exact h.1
  | server e => exact h.1
  | deliverUp n => exact h
  | deliverDown n => exact h

theorem Orderly.client {ce : ClientEvent} (h : s.Orderly key sid j tr e)
    (he : s.clientEvent sid e = some ce) :
    (ce.RetZero ∧ ce.RealRead ∧ s.client.Room (fun _ => true) ce) ∧
      (ce.EndsStream →
        s.down = [] ∧ AddToStream.Fins sid (Server.addsOn key (serverTrace tr))) := by
  cases e with
  | client e =>
    obtain rfl := Option.some.inj he
    exact ⟨⟨h.1, h.2.1, h.2.2.1⟩, h.2.2.2⟩
  | deliverDown n =>
    obtain rfl := Option.some.inj he
    refine ⟨⟨trivial, trivial, fun v hv _ => ?_⟩,
      fun hend => absurd rfl (StreamCallback.chunk_ne_nil hend)⟩
    have hne : v ≠ [] := StreamCallback.chunk_ne_nil hv
    have hd : (s.downCallback sid n).data = some v := StreamCallback.data_of_clientPush hv hne
    exact h (pos_of_push rfl rfl hd (by simpa using hne))
  | server | deliverUp => cases he

theorem Orderly.server {se : ServerEvent} (h : s.Orderly key sid j tr e)
    (he : s.serverEvent key sid e = some se) :
    (s.server.RetZeroFor j se ∧ se.RealRead j ∧ s.server.Room (fun _ => true) j se) ∧
      (s.server.EndsStream j se →
        s.up = [] ∧ AddToStream.Fins sid (Client.adds (clientTrace tr))) := by
  cases e with
  | server e =>
    obtain rfl := Option.some.inj he
    exact ⟨⟨h.1.1, h.2.1, h.2.2.1⟩, h.2.2.2⟩
  | deliverUp n =>
    obtain rfl := Option.some.inj he
    refine ⟨⟨trivial, trivial, fun _ v hv _ => ?_⟩, ?_⟩
    · have hne : v ≠ [] := StreamCallback.chunk_ne_nil hv
      have hd : (s.upCallback key sid n).data = some v := StreamCallback.data_of_serverPush hv hne
      exact (h.2 (pos_of_push rfl rfl hd (by simpa using hne))).2
    · rintro (⟨-, hev⟩ | ⟨hu, -⟩)
      · cases hev
      · exact absurd rfl hu
  | client | deliverDown => cases he

/-- A run in good order, without regard to the trace. -/
def Kept (key : CnxPtr) (sid : UInt64) (j : ℕ) (tr : List DuplexObs) (s : Duplex) : Prop :=
  (machine key sid).Leads (fun s e => ∃ tr, s.Orderly key sid j tr e) init tr s

theorem Kept.client (h : Kept key sid j tr s) :
    ∃ fs, Client.machine.run .init fs = some (s.client, clientTrace tr) ∧
      Client.machine.Along (fun c e => e.RetZero ∧ e.RealRead ∧ c.Room (fun _ => true) e)
        .init fs := by
  obtain ⟨es, hr, hg⟩ := h
  exact client_run (fun _ _ _ _ _ ⟨_, h⟩ he => (h.client he).1) hr hg

theorem Kept.server (h : Kept key sid j tr s) :
    ∃ fs, Server.machine.run .init fs = some (s.server, serverTrace tr) ∧
      Server.machine.Along
        (fun v e => v.RetZeroFor j e ∧ e.RealRead j ∧ v.Room (fun _ => true) j e) .init fs := by
  obtain ⟨es, hr, hg⟩ := h
  exact server_run (fun _ _ _ _ _ ⟨_, h⟩ he => (h.server he).1) hr hg

theorem Kept.step (h : Kept key sid j tr s) (hs : (machine key sid).step s e = some (s', out))
    (ho : s.Orderly key sid j tr e) : Kept key sid j (tr ++ out) s' :=
  Machine.Leads.trans h (.single hs ⟨tr, ho⟩)

/-- When nothing is on its way, what was pushed is what was handed over. -/
theorem Kept.pushed_up (h : Kept key sid j tr s) (hu : s.up = []) :
    (Server.pushes j (serverTrace tr)).flatten = (Client.handed (clientTrace tr)).flatten := by
  obtain ⟨es, hr, hg⟩ := h
  have hall := carried_all hr (hg.mono fun _ _ ⟨_, h⟩ => h.isOpen)
  rw [hu, List.append_nil] at hall
  rw [Server.pushes_flatten, ← hall, sentUp_run hr]

theorem Kept.pushed_down (h : Kept key sid j tr s) (hd : s.down = []) :
    (Client.pushes (clientTrace tr)).flatten =
      (handedOver (Server.calls j (serverTrace tr))).flatten := by
  obtain ⟨es, hr, hg⟩ := h
  have hall := (carried_run hr).down
  rw [hd, List.append_nil] at hall
  rw [Client.pushes_flatten, ← hall, sentDown_eq hr (hg.mono fun _ _ ⟨_, h⟩ => h.isOpen)]

/-- Where the FIN was handed over, the marker was. -/
theorem Kept.fin_up (h : Kept key sid j tr s)
    (hf : AddToStream.Fins sid (Client.adds (clientTrace tr))) :
    [] ∈ Client.handed (clientTrace tr) := by
  obtain ⟨fs, hfs, -⟩ := h.client
  exact hf.marker (Client.setFin_run hfs)

theorem Kept.fin_down (h : Kept key sid j tr s)
    (hf : AddToStream.Fins sid (Server.addsOn key (serverTrace tr))) :
    [] ∈ handedOver (Server.calls j (serverTrace tr)) := by
  obtain ⟨es, hr, hg⟩ := h
  obtain ⟨gs, hgs, hgg⟩ := server_run (H := Server.Belongs key j)
    (fun _ _ _ _ hs ⟨_, h⟩ he => (h.isOpen.server hs he).2.2) hr hg
  rw [Server.belongs_run hgs hgg] at hf
  exact hf.marker (Server.setFin_run hgs j)

/-- The stream up and the stream down. -/
def EndingUp (j : ℕ) (s : Duplex) (tr : List DuplexObs) : Prop :=
  Ending (Client.handed (clientTrace tr)) (Server.pushes j (serverTrace tr))
    (reads (Server.bridgeTrace j (serverTrace tr))) (s.server.stream j).recvQ.sender

def EndingDown (j : ℕ) (s : Duplex) (tr : List DuplexObs) : Prop :=
  Ending (handedOver (Server.calls j (serverTrace tr))) (Client.pushes (clientTrace tr))
    (reads (Client.bridgeTrace (clientTrace tr))) s.client.bridge.recvQ.sender

theorem Step.endingUp (h : Step key sid s e s' out) (hk : Kept key sid j tr s)
    (hk' : Kept key sid j (tr ++ out) s') (ho : s.Orderly key sid j tr e) (hi : EndingUp j s tr) :
    EndingUp j s' (tr ++ out) := by
  unfold EndingUp at hi ⊢
  cases h with
  | client ce cout he hs hout hserver =>
    rw [hout, serverTrace_append, serverTrace_map_client, List.append_nil, hserver,
      clientTrace_append, Client.handed_append]
    exact hi.sends (List.prefix_append _ _)
  | server se sout he hs hout hclient =>
    subst hout
    obtain ⟨fs, hfs, hfg⟩ := hk.server
    obtain ⟨gs, hgs, hgg⟩ := hk'.server
    rw [serverTrace_append, serverTrace_map_server] at hgs ⊢
    rw [clientTrace_append, clientTrace_map_server, List.append_nil, Server.pushes_append,
      Server.bridgeTrace_append, reads_append]
    have hst := Server.step_cases hs
    have hl := Server.linked_run hfs
    have hends := Server.loopEnds_run hfs j
    refine hi.receives (hst.pushes_closed hends) (fun hsender hend => ?_) (fun hm => ?_)
    · have hev := hst.ends hl hends (Server.loopEnds_run hgs j) hsender hend
      obtain ⟨hu, hm⟩ := (ho.server he).2 hev
      exact ⟨hst.pushes_ends hev, hk.fin_up hm, hk.pushed_up hu⟩
    · obtain ⟨-, ht⟩ | ⟨op, -, hop⟩ := hst.bridge_op j
      · rw [ht] at hm
        cases hm
      · have hfed := (Server.fed_run hfs (hfg.mono fun _ _ h => h.2.2)).fed.all
        rw [List.filter_true, List.filter_true, List.filter_true] at hfed
        have hledger := Server.markedLedger_run hgs (hgg.mono fun _ _ h => h.2.1)
        rw [Server.bridgeTrace_append] at hledger
        rw [← reads_append]
        refine hledger.finished hop hm (Server.owned_run hfs j) hfed (fun hgone => ?_) hi.pushed
        -- while the first chunk waits the stream is connected
        unfold Server.firstOf
        cases hp : s.server.pc with
        | firstData i v =>
          by_cases hij : i = j
          · subst hij
            rw [hends.recv.mpr (.inl (hl.first hp))] at hgone
            cases hgone
          · exact if_neg hij
        | _ => rfl

theorem Step.endingDown (h : Step key sid s e s' out) (hk : Kept key sid j tr s)
    (hk' : Kept key sid j (tr ++ out) s') (ho : s.Orderly key sid j tr e) (hi : EndingDown j s tr) :
    EndingDown j s' (tr ++ out) := by
  unfold EndingDown at hi ⊢
  cases h with
  | server se sout he hs hout hclient =>
    rw [hout, clientTrace_append, clientTrace_map_server, List.append_nil, hclient,
      serverTrace_append, Server.calls_append, handedOver_append]
    exact hi.sends (List.prefix_append _ _)
  | client ce cout he hs hout hserver =>
    subst hout
    obtain ⟨fs, hfs, hfg⟩ := hk.client
    obtain ⟨gs, hgs, hgg⟩ := hk'.client
    rw [clientTrace_append, clientTrace_map_client] at hgs ⊢
    rw [serverTrace_append, serverTrace_map_client, List.append_nil, Client.pushes_append,
      Client.bridgeTrace_append, reads_append]
    have hst := Client.step_cases hs
    have hends := Client.loopEnds_run hfs
    rw [hst.pushes]
    refine hi.receives (fun hgone => by rw [hst.push_closed hends hgone]; rfl)
      (fun hsender hend => ?_) (fun hm => ?_)
    · have hev := hst.ends hsender (hend.imp Option.mem_toList.mp id)
      obtain ⟨hd, hm⟩ := (ho.client he).2 hev
      exact ⟨hev.push, hk.fin_down hm, hk.pushed_down hd⟩
    · obtain ⟨-, ht, -⟩ | ⟨op, -, hop⟩ := hst.bridge_op
      · rw [ht] at hm
        cases hm
      · have hfed := (Client.fed_run hfs (hfg.mono fun _ _ h => h.2.2)).all
        rw [List.filter_true, List.filter_true] at hfed
        have hledger := Client.markedLedger_run hgs (hgg.mono fun _ _ h => h.2.1)
        rw [Client.bridgeTrace_append] at hledger
        rw [← reads_append]
        exact hledger.finished hop hm (Client.owned_run hfs) hfed (fun _ => rfl) hi.pushed

theorem ending_run (hr : (machine key sid).run init es = some (s, tr))
    (hg : (machine key sid).AlongTrace (Orderly key sid j) init [] es) :
    Kept key sid j tr s ∧ EndingUp j s tr ∧ EndingDown j s tr := by
  have hinit : EndingUp j init [] := by
    have hnew : (init.server.stream j).recvQ.sender = true := by
      simp [init, Server.init, Server.stream, Bridge.new]
    rw [EndingUp, hnew]
    exact .init
  have hall := Machine.run_along_trace
    (fun s tr => Kept key sid j tr s ∧ EndingUp j s tr ∧ EndingDown j s tr) ?_ hr hg
    ⟨.refl _, hinit, .init⟩
  · exact hall
  · rintro s tr e s' out ⟨hk, hup, hdown⟩ ho hs
    have hk' := hk.step hs ho
    have hst := step_cases hs
    exact ⟨hk', hst.endingUp hk hk' ho hup, hst.endingDown hk hk' ho hdown⟩

/-- When a task has read an end, it has read all that the one at the other end queued before its
own. -/
theorem heard_end (hr : (machine key sid).run init es = some (s, tr))
    (hg : (machine key sid).AlongTrace (Orderly key sid j) init [] es)
    (hm : [] ∈ reads (Server.bridgeTrace j (serverTrace tr))) :
    Finished (written tr) (reads (Server.bridgeTrace j (serverTrace tr))) := by
  obtain ⟨hk, hup, -⟩ := ending_run hr hg
  obtain ⟨fs, hfs, hfg⟩ := hk.client
  have hgrant : Client.Granted s.client (clientTrace tr) :=
    Client.granted_run hfs (hfg.mono fun _ _ h => h.1) .init
  exact (hup.read hm).sent ⟨_, hgrant.enqueued.symm⟩

theorem readBack_end (hr : (machine key sid).run init es = some (s, tr))
    (hg : (machine key sid).AlongTrace (Orderly key sid j) init [] es)
    (hm : [] ∈ reads (Client.bridgeTrace (clientTrace tr))) :
    Finished (answered j tr) (reads (Client.bridgeTrace (clientTrace tr))) := by
  obtain ⟨hk, -, hdown⟩ := ending_run hr hg
  obtain ⟨gs, hgs, hgg⟩ := hk.server
  have hp : handedOver (Server.calls j (serverTrace tr)) <+: answered j tr := by
    rw [Server.handed_run hgs (hgg.mono fun _ _ h => h.1)]
    exact ⟨_, (Server.ledger_run hgs j).send.symm⟩
  exact (hdown.read hm).sent hp

end Duplex
end TransportProxy.Slipstream
