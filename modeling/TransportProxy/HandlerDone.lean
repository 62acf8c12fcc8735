import TransportProxy.EchoConservation

/-! # What the peer learns when a handler is done

A handler that has returned has dropped its halves, so nothing enters its send queue any more and
the next AFTER_* callback empties it: all that was accepted is handed over. The drain does not look
at why `try_recv` fails, so the peer is told of the end only by a marker that the handler itself
queued after its last bytes.
-/
namespace TransportProxy.Slipstream
open Foundations
set_option autoImplicit false

/-- A queue whose task has dropped the stream only shrinks. -/
theorem Bridge.closed_step {b b' : Bridge} {op : BridgeOp} {out : List BridgeObs} (hb : b.Owned)
    (ho : b.owner ≠ .held) (h : Bridge.machine.step b op = some (b', out)) :
    queued out = [] ∧ (b.sendQ.buf = [] → b'.sendQ.buf = []) := by
  have hq : queued out = [] := by
    by_contra hn
    exact ho (held_of_queued hb h hn)
  refine ⟨hq, fun hn => ?_⟩
  have hc := (step_conserves h).send
  rw [hn, hq, List.append_nil] at hc
  exact (List.append_eq_nil_iff.mp hc.symm).2

namespace Server

variable {j : ℕ}

/-- The entry that an event puts into the send queue of stream `j`. -/
def entry (j : ℕ) (s : Server) : ServerEvent → Option Bytes
  | .app i op => if i = j then (s.stream j).entry op else none
  | _ => none

theorem Step.queued {s s' : Server} {e : ServerEvent} {out : List ServerObs}
    (h : Step s e s' out) (j : ℕ) : queued (bridgeTrace j out) = (s.entry j e).toList := by
  cases e with
  | app i op =>
    cases h with
    | @app _ _ b b' bout hb ha h =>
      by_cases hij : i = j
      · subst hij
        rw [bridgeTrace_map_self, Server.entry, if_pos rfl, stream, (getD_of_getElem? hb).1]
        exact (Bridge.app_cases h).queued
      · rw [bridgeTrace_map_ne j hij, Server.entry, if_neg hij]
        rfl
  | accept | stream | loop | resume =>
    obtain ⟨-, hn⟩ | ⟨op, hc, hop⟩ := h.bridge_op j
    · rw [hn]
      rfl
    · cases op with
      | app op => cases hc
      | loop op => exact (Bridge.loop_cases (Option.some.inj hop)).queued

/-- The last entry that the handler of stream `j` got into its send queue. -/
def lastEntry (j : ℕ) (es : List ServerEvent) : Option Bytes := machine.last (entry j) init es

theorem lastEntry_run {es : List ServerEvent} {s : Server} {tr : List ServerObs}
    (hr : machine.run init es = some (s, tr)) (j : ℕ) :
    (Slipstream.queued (bridgeTrace j tr)).getLast? = lastEntry j es :=
  Machine.getLast_run (g := fun tr => Slipstream.queued (bridgeTrace j tr)) rfl
    (fun t u => by rw [bridgeTrace_append, queued_append])
    (fun _ _ _ _ hs => (step_cases hs).queued j) hr

/-! ## The drain of a dropped stream -/

/-- The stream was dropped, and its queue is empty or the callback in progress will come to it. -/
structure Closing (j : ℕ) (s : Server) : Prop where
  owned : (s.stream j).Owned
  dropped : (s.stream j).owner ≠ .held
  drained : (s.stream j).sendQ.buf = [] ∨ ∃ now ∈ s.pc.todo, now.2.index = j

theorem Step.closing {s s' : Server} {e : ServerEvent} {out : List ServerObs}
    (h : Step s e s' out) (hi : Closing j s) :
    Closing j s' ∧ Slipstream.queued (bridgeTrace j out) = [] := by
  have hqueue : Slipstream.queued (bridgeTrace j out) = [] ∧
      ((s.stream j).sendQ.buf = [] → (s'.stream j).sendQ.buf = []) := by
    obtain ⟨hb, hn⟩ | ⟨op, hop⟩ := h.bridge j
    · rw [hb, hn]
      exact ⟨rfl, id⟩
    · exact Bridge.closed_step hi.owned hi.dropped hop
  obtain ⟨hq, hkeep⟩ := hqueue
  refine ⟨⟨h.owned hi.owned, h.not_held hi.dropped, ?_⟩, hq⟩
  obtain he | ⟨now, hnow, hij⟩ := hi.drained
  · exact .inl (hkeep he)
  · cases h with
    | app | accept => exact .inr ⟨now, hnow, hij⟩
    | drained hp | token hp =>
      rw [hp] at hnow
      exact .inr ⟨now, hnow, hij⟩
    | @drainNext ret first todo hp hb =>
      rw [hp] at hnow
      obtain rfl | hmem := List.mem_cons.mp hnow
      · exact .inl (hij ▸ sendQ_nil hb)
      · exact .inr ⟨now, hmem, hij⟩
    | unlink hp | unlinkStream hp | openEmpty hp | openChunk hp | push hp | ignored hp | noop hp
    | drainStart hp | firstChunk hp | drainEnd hp | dropSendRx hp | dropWakeTx hp =>
      rw [hp] at hnow
      cases hnow

/-- An AFTER_* callback comes to every open stream. -/
theorem closing_of_drainStart {s s' : Server} {cbMode : ℤ} {arg : LoopArg} {order : List CnxPtr}
    {out : List ServerObs}
    (hm : cbMode = picoquicPacketLoopAfterReceive ∨ cbMode = picoquicPacketLoopAfterSend)
    (hb : (s.stream j).Owned) (hd : (s.stream j).owner ≠ .held) (hj : s.Connected j)
    (h : machine.step s (.loop cbMode arg order) = some (s', out)) :
    Closing j s' ∧ bridgeTrace j out = [] := by
  cases step_cases h with
  | noop _ hn => exact absurd hm hn
  | drainStart hp _ ho =>
    refine ⟨⟨hb, hd, .inr ?_⟩, rfl⟩
    obtain ⟨key, st, hst, hij⟩ := hj
    obtain ⟨state, hl, hs⟩ := streamOf_lookup hst
    refine ⟨(state.cnx, st), List.mem_filterMap.mpr ⟨key, ?_, ?_⟩, hij⟩
    · exact ho.mem_iff.mpr (AList.mem_keys.mp (AList.lookup_isSome.mp (by rw [hl]; rfl)))
    · simp [target, hl, hs]

theorem closing_run {s t : Server} {fs : List ServerEvent} {tr : List ServerObs}
    (hr : machine.run s fs = some (t, tr)) (hi : Closing j s) :
    Closing j t ∧ Slipstream.queued (bridgeTrace j tr) = [] :=
  Machine.run_trace (fun t tr => Closing j t ∧ Slipstream.queued (bridgeTrace j tr) = [])
    (fun t tr e t' out hi _ hs => by
      obtain ⟨hc, hq⟩ := (step_cases hs).closing hi.1
      refine ⟨hc, ?_⟩
      rw [bridgeTrace_append, queued_append, hi.2, hq, List.append_nil]) hr
    (Machine.Along.true _ _) ⟨hi, rfl⟩

/-- The peer was told: all that was accepted for this stream of the connection `key` has been handed
over, and after it a FIN on that very stream. The server itself never closes a connection. -/
def ToldPeer (key : CnxPtr) (st : ServerStream) (tr : List ServerObs) : Prop :=
  (handedOver (calls st.index tr)).flatten = (Slipstream.queued (bridgeTrace st.index tr)).flatten ∧
    (adds st.index tr).getLast? = some ⟨key, st.streamId, [], 1, 0⟩

instance ToldPeer.decidable (key : CnxPtr) (st : ServerStream) (tr : List ServerObs) :
    Decidable (ToldPeer key st tr) := inferInstanceAs (Decidable (_ ∧ _))

/-- Everything is handed over, and nothing more is accepted, once a callback after the drop is
through. -/
theorem handed_after_drop {es fs : List ServerEvent} {s s' t : Server}
    {tr out tr' : List ServerObs} {cbMode : ℤ} {arg : LoopArg} {order : List CnxPtr}
    (hr : machine.run init es = some (s, tr))
    (hg : machine.Along (RetZeroFor j) init es) (hj : s.Connected j)
    (hd : (s.stream j).owner = .gone)
    (hm : cbMode = picoquicPacketLoopAfterReceive ∨ cbMode = picoquicPacketLoopAfterSend)
    (hs : machine.step s (.loop cbMode arg order) = some (s', out))
    (hr' : machine.run s' fs = some (t, tr'))
    (hg' : machine.Along (RetZeroFor j) s' fs) (hp : t.pc = .idle) :
    (calls j (tr ++ out ++ tr')).map Prod.fst = Slipstream.queued (bridgeTrace j tr) ∧
      (∀ c ∈ calls j (tr ++ out ++ tr'), c.2 = true) ∧
      Slipstream.queued (bridgeTrace j (tr ++ out ++ tr')) =
        Slipstream.queued (bridgeTrace j tr) := by
  have hne : (s.stream j).owner ≠ .held := by rw [hd]; nofun
  obtain ⟨hc, hout⟩ := closing_of_drainStart hm (owned_run hr j) hne hj hs
  obtain ⟨hc, hq⟩ := closing_run hr' hc
  have hrun := Machine.run_append _ (Machine.run_step _ hr hs) hr'
  have hstep : machine.Along (RetZeroFor j) s [.loop cbMode arg order] :=
    ⟨trivial, by rw [hs]; trivial⟩
  have hguard := (hg.concat hr hstep).concat (Machine.run_step _ hr hs) hg'
  have hempty : (t.stream j).sendQ.buf = [] := by
    obtain h | ⟨now, hnow, -⟩ := hc.drained
    · exact h
    · rw [hp] at hnow
      cases hnow
  have hqueued : Slipstream.queued (bridgeTrace j (tr ++ out ++ tr')) =
      Slipstream.queued (bridgeTrace j tr) := by
    rw [bridgeTrace_append, bridgeTrace_append, hout, List.append_nil, queued_append, hq,
      List.append_nil]
  refine ⟨?_, ret_run hrun hguard, hqueued⟩
  have hl := (ledger_run hrun j).send
  rw [hempty, List.append_nil] at hl
  rw [← popped_run hrun j, ← hl, hqueued]

/-- The calls for an open stream, if they return zero, are those that its entries ask for. -/
theorem adds_of_calls {es : List ServerEvent} {s : Server} {tr : List ServerObs} {key : CnxPtr}
    {st : ServerStream} (hr : machine.run init es = some (s, tr))
    (hst : s.streamOf key = some st) {fs : List ServerEvent} {t : Server} {u : List ServerObs}
    (hr' : machine.run init fs = some (t, tr ++ u))
    (hz : ∀ c ∈ calls st.index (tr ++ u), c.2 = true) :
    adds st.index (tr ++ u) = ((calls st.index (tr ++ u)).map Prod.fst).map fun v =>
      ⟨key, st.streamId, v, finOf v, 0⟩ := by
  obtain ⟨cb, ho, hcnx, hid⟩ := (placed_run hr).entry hst
  rw [calls, List.map_map, List.map_map]
  conv_lhs => rw [← List.map_id (adds st.index (tr ++ u))]
  refine List.map_congr_left fun c hc => ?_
  obtain ⟨cb', ho', hcnx', hid', hfin⟩ := addsOwn_run hr' st.index c hc
  rw [opener_append ho u, Option.some.injEq] at ho'
  have hret : c.ret = 0 := by
    have := hz c.entry (List.mem_map_of_mem hc)
    simpa using this
  subst ho'
  obtain ⟨cnx, sid, data, fin, ret⟩ := c
  simp_all

/-- What picoquic is called with was accepted, whatever the calls return. -/
theorem mem_queued_of_adds {es : List ServerEvent} {s : Server} {tr : List ServerObs}
    (hr : machine.run init es = some (s, tr)) {c : AddToStream} (hc : c ∈ adds j tr) :
    c.data ∈ Slipstream.queued (bridgeTrace j tr) := by
  rw [(ledger_run hr j).send, popped_run hr j, calls, List.map_map]
  exact List.mem_append_left _ (List.mem_map_of_mem (f := Prod.fst ∘ AddToStream.entry) hc)

end Server

/-- Once the halves of a stream that is still open are dropped, the next AFTER_* callback tells the
peer if and only if the last entry that the handler got into its send queue was an end marker. The
echo handler queues none. -/
theorem told_peer_iff (key : CnxPtr) (st : ServerStream) :
    (∀ {es s tr cbMode arg order s' out fs t tr'},
      Server.machine.run Server.init es = some (s, tr) →
      Server.machine.Along (Server.RetZeroFor st.index) Server.init es →
      s.streamOf key = some st → (s.stream st.index).owner = .gone →
      cbMode = picoquicPacketLoopAfterReceive ∨ cbMode = picoquicPacketLoopAfterSend →
      Server.machine.step s (.loop cbMode arg order) = some (s', out) →
      Server.machine.run s' fs = some (t, tr') →
      Server.machine.Along (Server.RetZeroFor st.index) s' fs → t.pc = .idle →
      (Server.ToldPeer key st (tr ++ out ++ tr') ↔ Server.lastEntry st.index es = some [])) ∧
    ∀ {es s tr}, EchoServer.machine.run EchoServer.init es = some (s, tr) →
      ¬ Server.ToldPeer key st tr := by
  constructor
  · intro es s tr cbMode arg order s' out fs t tr' hr hg hst hd hm hs hr' hg' hp
    obtain ⟨hc, hz, hq⟩ := Server.handed_after_drop hr hg ⟨key, st, hst, rfl⟩ hd hm hs hr' hg' hp
    have hrun := Machine.run_append _ (Machine.run_step _ hr hs) hr'
    have hadds : Server.adds st.index (tr ++ out ++ tr') =
        (queued (Server.bridgeTrace st.index tr)).map fun v =>
          ⟨key, st.streamId, v, finOf v, 0⟩ := by
      rw [List.append_assoc tr] at hrun hz hc ⊢
      rw [Server.adds_of_calls hr hst hrun hz, hc]
    have hhanded : handedOver (Server.calls st.index (tr ++ out ++ tr')) =
        queued (Server.bridgeTrace st.index tr) := by
      rw [handedOver, List.filter_eq_self.mpr hz, hc]
    rw [Server.ToldPeer, hhanded, hq, and_iff_right rfl, ← Server.lastEntry_run hr st.index, hadds,
      List.getLast?_map]
    cases (queued (Server.bridgeTrace st.index tr)).getLast? with
    | none => simp
    | some v => by_cases hv : v = [] <;> simp [hv, finOf]
  · intro es s tr hr htold
    obtain ⟨fs, hfs⟩ := EchoServer.serverProjection.run hr
    have hobs : EchoServer.serverProjection.obs = some := rfl
    rw [hobs, List.filterMap_some] at hfs
    have hmem := Server.mem_queued_of_adds hfs (List.mem_of_getLast? htold.2)
    exact (EchoServer.echoInv_run hr st.index).clean hmem

/-- A handler that writes, shuts down and drops the stream. -/
def shutThenDrop : List ServerEvent :=
  [.stream ⟨1, 0, none, .ready⟩, .stream ⟨1, 4, some [1], .streamData⟩, .accept, .resume 0,
    .app 0 (.pollWrite [2]), .app 0 .pollShutdown, .app 0 .dropStream, .app 0 .dropStream,
    .app 0 .dropStream]

theorem told_peer_iff_shutThenDrop : ∃ s tr s' out t tr',
    Server.machine.run Server.init shutThenDrop = some (s, tr) ∧
      Server.machine.step s (.loop 3 .null [1]) = some (s', out) ∧
      Server.machine.run s' (List.replicate 6 (.resume 0)) = some (t, tr') ∧
      Server.ToldPeer 1 ⟨4, 0⟩ (tr ++ out ++ tr') := by
  obtain ⟨s, tr, s', out, t, tr', hr, hs, hr', hst, hd, hp, hg⟩ : ∃ s tr s' out t tr',
      Server.machine.run Server.init shutThenDrop = some (s, tr) ∧
      Server.machine.step s (.loop 3 .null [1]) = some (s', out) ∧
      Server.machine.run s' (List.replicate 6 (.resume 0)) = some (t, tr') ∧
      s.streamOf 1 = some ⟨4, 0⟩ ∧ (s.stream 0).owner = .gone ∧ t.pc = .idle ∧
      Server.machine.Along (Server.RetZeroFor 0) s' (List.replicate 6 (.resume 0)) :=
    ⟨_, _, _, _, _, _, rfl, rfl, rfl, rfl, rfl, rfl, by decide⟩
  have hiff := (told_peer_iff 1 ⟨4, 0⟩).1 hr (by decide) hst hd (.inr rfl) hs hr' hg hp
  exact ⟨s, tr, s', out, t, tr', hr, hs, hr', hiff.mpr (by decide)⟩

/-- The echo handler reads one chunk and the end, writes the chunk back and returns. -/
def echoToTheEnd : List EchoEvent :=
  [.server (.stream ⟨1, 0, none, .ready⟩), .server (.stream ⟨1, 4, some [1], .streamData⟩),
    .server .accept, .server (.resume 0), .server (.stream ⟨1, 4, none, .streamFin⟩), .poll 0,
    .poll 0, .poll 0, .poll 0, .poll 0, .poll 0, .poll 0, .server (.loop 3 .null [1]),
    .server (.resume 0), .server (.resume 0), .server (.resume 0), .server (.resume 0)]

/-- Its peer gets the chunk back and waits for an end that does not come. -/
theorem doneEcho_tells_no_end : ∃ s tr,
    EchoServer.machine.run EchoServer.init echoToTheEnd = some (s, tr) ∧
      s.task 0 = .returned ∧ (s.server.stream 0).owner = .gone ∧
      s.server.streamOf 1 = some ⟨4, 0⟩ ∧ s.server.pc = .idle ∧
      Server.adds 0 tr = [⟨1, 4, [1], 0, 0⟩] ∧ ¬ Server.ToldPeer 1 ⟨4, 0⟩ tr :=
  ⟨_, _, rfl, by decide, rfl, rfl, rfl, by decide, by decide⟩

end TransportProxy.Slipstream
