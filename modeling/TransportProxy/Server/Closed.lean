import TransportProxy.Server.Isolation
import TransportProxy.Server.Wake

/-! # A connection after its close event

The close event removes the entry of its connection, and the three ends in it are dropped one after
the other: `recv_tx`, `send_rx`, `wake_tx`. From the first drop on nothing more is queued for the
reader; after the last one the bridge is `Cut`, and every poll of its writer that is still to come
returns an error.
-/
namespace TransportProxy.Slipstream
open Foundations
set_option autoImplicit false

namespace Bridge

/-- The packet loop has dropped its ends. -/
structure Cut (b : Bridge) : Prop where
  recv : b.recvQ.sender = false
  send : b.sendQ.receiver = false
  wake : b.wakeQ.sender = false

/-- A poll of the writer has returned without an error. -/
def WriteReturns (out : List BridgeObs) : Prop := (∃ n, .wrote n ∈ out) ∨ .writePending ∈ out

variable {b b' : Bridge} {out : List BridgeObs}

theorem step_recvClosed {op : BridgeOp} (h : machine.step b op = some (b', out))
    (hc : b.recvQ.sender = false) : b'.recvQ.sender = false := by
  cases op with
  | app op => rw [(app_cases h).loopEnds.1, hc]
  | loop op =>
    have hl := loop_cases (Option.some.inj h)
    cases hl <;> first | exact hc | rfl

/-- The writer of a cut bridge gets an error, at the first `try_send` or for want of tokens. -/
theorem Cut.write (hc : b.Cut) {op : BridgeOp} (h : machine.step b op = some (b', out)) :
    ¬ WriteReturns out := by
  rintro (⟨n, hn⟩ | hn)
  · cases op with
    | app op =>
      cases app_cases h with
      | wrote hw hr =>
        rw [hc.send] at hr
        cases hr
      | _ => simp at hn
    | loop op =>
      cases loop_cases (Option.some.inj h) <;> simp at hn
  · cases op with
    | app op =>
      cases app_cases h with
      | wakeWait hw hb hs =>
        rw [hc.wake] at hs
        cases hs
      | _ => simp at hn
    | loop op =>
      cases loop_cases (Option.some.inj h) <;> simp at hn

theorem Cut.pollWrite (hc : b.Cut) {buf : Bytes} (h : b.app (.pollWrite buf) = some (b', out)) :
    out = [.writeError .brokenPipe] := by
  cases app_cases h with
  | writeClosed => rfl
  | wrote hw hr | writeFull hw hr =>
    rw [hc.send] at hr
    cases hr

/-! ## The reader of a closed bridge -/

/-- A closed channel leaves no read pending. -/
theorem step_readPending {op : BridgeOp} (h : machine.step b op = some (b', out))
    (hc : b.recvQ.sender = false) : .readPending ∉ out := by
  intro hm
  cases op with
  | app op =>
    cases app_cases h with
    | readPending ho hr =>
      have hs := (SlipstreamRecvHalf.pollRead_pending hr).2.2.1
      rw [hc] at hs
      cases hs
    | _ => simp at hm
  | loop op => cases loop_cases (Option.some.inj h) <;> simp at hm

/-- What is in the queue was the last to enter it. -/
theorem step_recvSuffix {op : BridgeOp} {tr : List BridgeObs}
    (h : machine.step b op = some (b', out)) (hi : b.recvQ.buf <:+ received tr) :
    b'.recvQ.buf <:+ received (tr ++ out) := by
  rw [received_append]
  cases receive_cases h with
  | @read remaining data half q ho hr | @readPending remaining half q ho hr =>
    have hq := b.recvHalf.pollRead_suffix b.recvQ remaining
    rw [hr] at hq
    simpa using hq.trans hi
  | @push v =>
    obtain ⟨-, _, hv⟩ | ⟨-, hv⟩ := b.recvTrySend_cases v <;> rw [hv]
    · obtain ⟨p, hp⟩ := hi
      refine ⟨p, ?_⟩
      rw [Channel.push_buf, ← List.append_assoc, hp]
      rfl
    · simpa using hi
  | untouched hu =>
    rw [hu.received, hu.recvQ, List.append_nil]
    exact hi

/-! ## Parked writers are woken -/

/-- A parked writer was woken after its last `Pending`, or it is still registered. Nobody is
registered at a closed wake queue. -/
structure Called (b : Bridge) (tr : List BridgeObs) : Prop where
  parked : b.writer = .parked → ∃ t u, tr = t ++ .writePending :: u ∧ .writePending ∉ u ∧
    (b.wakeQ.waker = true ∨ .woken ∈ u)
  closed : b.wakeQ.sender = false → b.wakeQ.waker = false

theorem step_wakeClosed {op : BridgeOp} (h : machine.step b op = some (b', out))
    (hi : b.wakeQ.sender = false → b.wakeQ.waker = false) :
    b'.wakeQ.sender = false → b'.wakeQ.waker = false := by
  cases op with
  | app op =>
    cases app_cases h with
    | wakeWait hw hb hs =>
      intro hc
      rw [Channel.wait_sender, hs] at hc
      cases hc
    | _ => exact hi
  | loop op => cases loop_cases (Option.some.inj h) <;> first | exact hi | exact fun _ => rfl

theorem Called.step {op : BridgeOp} {tr : List BridgeObs} {owed : Prop} (hi : Called b tr)
    (hw : b.WakeInv owed) (h : machine.step b op = some (b', out)) : Called b' (tr ++ out) := by
  refine ⟨fun hp => ?_, step_wakeClosed h hi.closed⟩
  have hkeep (hb : b.writer = .parked) (ho : .writePending ∉ out) :
      ∃ t u, tr ++ out = t ++ .writePending :: u ∧ .writePending ∉ u ∧
        (b'.wakeQ.waker = true ∨ .woken ∈ u) := by
    obtain ⟨t, u, rfl, hlast, hu⟩ := hi.parked hb
    refine ⟨t, u ++ out, by simp, by simp [hlast, ho], ?_⟩
    obtain hk | hk := hu
    · exact (step_waker h hw hk).imp_right (List.mem_append_right _)
    · exact .inr (List.mem_append_left _ hk)
  cases op with
  | app op =>
    have hs := app_cases h
    cases hs with
    | wakeWait => exact ⟨tr, [], rfl, List.not_mem_nil, .inl rfl⟩
    | wrote | writeClosed | writeFull | wakeToken | wakeClosed => cases hp
    | _ => exact hkeep hp (by simp)
  | loop op =>
    have hs := loop_cases (Option.some.inj h)
    rw [hs.writer.2] at hp
    exact hkeep hp (by cases hs <;> simp)

theorem Called.woken {tr : List BridgeObs} (h : Called b tr) (hc : b.wakeQ.sender = false)
    (hp : b.writer = .parked) :
    ∃ t u, tr = t ++ .writePending :: u ∧ .writePending ∉ u ∧ .woken ∈ u := by
  obtain ⟨t, u, ht, hlast, hw | hw⟩ := h.parked hp
  · rw [h.closed hc] at hw
    cases hw
  · exact ⟨t, u, ht, hlast, hw⟩

end Bridge

namespace Server
variable {j : ℕ} {key : CnxPtr}

/-! ## Nothing more is queued for the reader -/

theorem Step.received_closed {s s' : Server} {e : ServerEvent} {out : List ServerObs}
    (h : Step s e s' out) (hl : Linked s) (he : LoopEnds s j)
    (hc : (s.stream j).recvQ.sender = false) :
    received (bridgeTrace j out) = [] ∧ .readPending ∉ bridgeTrace j out := by
  obtain ⟨-, ht⟩ | ⟨op, hcause, hop⟩ := h.bridge_op j
  · rw [ht]
    exact ⟨rfl, List.not_mem_nil⟩
  · refine ⟨?_, Bridge.step_readPending hop hc⟩
    cases op with
    | app op => exact (Bridge.app_cases hop).received
    | loop op =>
      cases op with
      | recvTrySend v =>
        have hlive : s.Live j := by
          obtain ⟨cb, -, hv⟩ | hfirst := hcause
          · obtain ⟨st, hst, -, hi, -⟩ := hl.pushed_lt hv
            exact .inl ⟨cb.cnx, st, hst, hi⟩
          · exact .inl (hl.first hfirst)
        rw [he.recv.mpr hlive] at hc
        cases hc
      | _ => exact ((Bridge.loop_cases (Option.some.inj hop)).untouched (by simp)).received

theorem Step.recvClosed {s s' : Server} {e : ServerEvent} {out : List ServerObs}
    (h : Step s e s' out) (hc : (s.stream j).recvQ.sender = false) :
    (s'.stream j).recvQ.sender = false := by
  obtain ⟨hb, -⟩ | ⟨op, hop⟩ := h.bridge j
  · rwa [hb]
  · exact Bridge.step_recvClosed hop hc

theorem received_closed_run {s t : Server} {fs : List ServerEvent} {tr : List ServerObs}
    (hr : machine.run s fs = some (t, tr)) (hl : Linked s) (he : LoopEnds s j)
    (hc : (s.stream j).recvQ.sender = false) :
    (t.stream j).recvQ.sender = false ∧ received (bridgeTrace j tr) = [] ∧
      .readPending ∉ bridgeTrace j tr := by
  refine (Machine.run_trace (fun t tr => (Linked t ∧ LoopEnds t j) ∧
    (t.stream j).recvQ.sender = false ∧ received (bridgeTrace j tr) = [] ∧
      .readPending ∉ bridgeTrace j tr) ?_ hr (Machine.Along.true _ _)
    ⟨⟨hl, he⟩, hc, rfl, List.not_mem_nil⟩).2
  rintro t tr e t' out ⟨⟨hl, he⟩, hc, hn, hp⟩ - hs
  have hst := step_cases hs
  obtain ⟨hn', hp'⟩ := hst.received_closed hl he hc
  refine ⟨⟨hst.linked hl, hst.loopEnds hl he⟩, hst.recvClosed hc, ?_, ?_⟩
  · rw [bridgeTrace_append, received_append, hn, hn', List.append_nil]
  · rw [bridgeTrace_append, List.mem_append]
    exact not_or.mpr ⟨hp, hp'⟩

/-! ## No more calls for the connection -/

theorem Step.no_adds {s s' : Server} {e : ServerEvent} {out : List ServerObs}
    (h : Step s e s' out) (hk : Keyed s) (hn : s.connections.lookup key = none) :
    addsOf key out = [] := by
  cases h with
  | @drained ret now todo b data hp hb hd =>
    have hne : now.1 ≠ key := by
      rintro rfl
      have hst := hk.todo now (by rw [hp]; exact List.mem_cons_self)
      rw [streamOf, hn] at hst
      cases hst
    simp [hne]
  | noop hp hm ho => obtain rfl | rfl | ⟨d, rfl⟩ := ho <;> rfl
  | _ => simp

/-- Only a ready event makes an entry. -/
theorem Step.no_entry {s s' : Server} {e : ServerEvent} {out : List ServerObs}
    (h : Step s e s' out) (hn : s.connections.lookup key = none)
    (hg : ∀ cb, e = .stream cb → cb.cnx = key → cb.event ≠ .ready) :
    s'.connections.lookup key = none := by
  obtain ⟨-, -, hlook, -⟩ | ⟨cb, he, rfl, -, hentry⟩ := h.entry key
  · rw [hlook, hn]
  · cases hentry with
    | unlink hu =>
      simp only [unlinked, if_neg (hg cb he rfl), Option.ite_none_right_eq_some,
        Option.some.injEq] at hu
      rw [← hu.2, AList.lookup_erase]
    | opened ho =>
      have hl := (own_of_opened ho).2.2
      rw [hn] at hl
      cases hl
    | kept _ _ hc => rw [hc, hn]

/-- No new ready event of this connection. -/
def NotReady (key : CnxPtr) : ServerEvent → Prop
  | .stream cb => cb.cnx = key → cb.event ≠ .ready
  | _ => True

instance NotReady.decidable (key : CnxPtr) : ∀ e, Decidable (NotReady key e)
  | .stream _ => inferInstanceAs (Decidable (_ → _ ≠ _))
  | .app _ _ | .accept | .loop _ _ _ | .resume _ => .isTrue trivial

theorem no_adds_run {s t : Server} {fs : List ServerEvent} {tr : List ServerObs}
    (hr : machine.run s fs = some (t, tr)) (hg : machine.Along (fun _ e => NotReady key e) s fs)
    (hk : Keyed s) (hn : s.connections.lookup key = none) : addsOf key tr = [] := by
  refine (Machine.run_trace (fun t tr => (Keyed t ∧ t.connections.lookup key = none) ∧
    addsOf key tr = []) ?_ hr hg ⟨⟨hk, hn⟩, rfl⟩).2
  rintro t tr e t' out ⟨⟨hk, hn⟩, ha⟩ hg hs
  have hst := step_cases hs
  refine ⟨⟨hst.keyed hk, hst.no_entry hn fun cb he => ?_⟩, ?_⟩
  · rw [he] at hg
    exact hg
  · rw [addsOf_append, ha, hst.no_adds hk hn]
    rfl

/-! ## The close event -/

/-- What the event itself does: the entry is gone, and `recv_tx` with it. -/
theorem Step.closes {s s' : Server} {cb : StreamCallback} {st : ServerStream}
    {out : List ServerObs} (h : Step s (.stream cb) s' out) (hl : Linked s)
    (hst : s.streamOf cb.cnx = some st) (hc : cb.event.closes = true) :
    s'.connections.lookup cb.cnx = none ∧ s'.stream st.index = (s.stream st.index).dropRecvTx ∧
      addsOf cb.cnx out = [] ∧ bridgeTrace st.index out = [] := by
  have hnd : cb.event ≠ .streamData := by
    intro he
    rw [he] at hc
    cases hc
  have hnr : cb.event ≠ .ready := by
    intro he
    rw [he] at hc
    cases hc
  have hu : s.unlinked cb = some (s.connections.erase cb.cnx) := by
    rw [unlinked, if_neg hnr, if_pos hc]
  cases h with
  | unlink hp hc' hn =>
    rw [hst] at hn
    cases hn
  | @unlinkStream _ conns st' hp hc' hs =>
    rw [hst] at hs
    obtain rfl := Option.some.inj hs
    rw [hu] at hc'
    obtain rfl := Option.some.inj hc'
    obtain ⟨h₁, h₂⟩ := loopAt_self (l := s.streams) .dropRecvTx (hl.lt hst)
    exact ⟨AList.lookup_erase .., h₁, by simp, by simp [h₂, Bridge.loop]⟩
  | openEmpty hp ho | openChunk hp ho => exact absurd (own_of_opened ho).2.1 hnd
  | push hp hv =>
    rw [(quiet_of_pushed hv).1] at hu
    cases hu
  | ignored hp hu' =>
    rw [hu'] at hu
    cases hu

theorem cut_of_closed {t : Server} (he : LoopEnds t j) (hc : (t.stream j).recvQ.sender = false)
    (hp : t.pc.dropping ≠ some j) : (t.stream j).Cut := by
  have hdead : ¬ t.Live j := by
    intro hlive
    rw [he.recv.mpr hlive] at hc
    cases hc
  refine ⟨hc, ?_, ?_⟩
  · apply Bool.eq_false_iff.mpr
    intro hs
    obtain h | h := he.send.mp hs
    · exact hdead h
    · exact hp (by rw [h]; rfl)
  · apply Bool.eq_false_iff.mpr
    intro hs
    exact (he.wake.mp hs).elim hdead hp

theorem called_run {s : Server} {es : List ServerEvent} {tr : List ServerObs}
    (hr : machine.run init es = some (s, tr)) (j : ℕ) :
    (s.stream j).Called (bridgeTrace j tr) := by
  refine (Machine.run_trace (fun s tr => (Linked s ∧ WakeInv s j) ∧
    (s.stream j).Called (bridgeTrace j tr)) ?_ hr (Machine.Along.true _ _)
    ⟨⟨.init, .init j⟩, ?_⟩).2
  · rintro s tr e s' out ⟨⟨hl, hw⟩, hc⟩ - hs
    have hst := step_cases hs
    refine ⟨⟨hst.linked hl, hst.wakeInv hl hw⟩, ?_⟩
    rw [bridgeTrace_append]
    obtain ⟨hb, hn⟩ | ⟨op, hop⟩ := hst.bridge j
    · rw [hb, hn, List.append_nil]
      exact hc
    · exact hc.step hw.wake hop
  · constructor <;> simp [Server.init, stream, Bridge.new]

/-! ## What the reader gets -/

/-- The reads after a step give out what there was to read at that step. -/
theorem feed_run {s t : Server} {fs : List ServerEvent} {tr : List ServerObs}
    (hr : machine.run s fs = some (t, tr)) (hg : machine.Along (fun _ e => e.RealRead j) s fs)
    (hl : Linked s) (he : LoopEnds s j) :
    (t.stream j).MarkedLedger ((s.stream j).feed ++ bridgeTrace j tr) := by
  refine (Machine.run_trace (fun (t : Server) tr => (Linked t ∧ LoopEnds t j) ∧
    (t.stream j).MarkedLedger ((s.stream j).feed ++ bridgeTrace j tr)) ?_ hr hg
    ⟨⟨hl, he⟩, ?_⟩).2
  · rintro t tr e t' out ⟨⟨hl, he⟩, hm⟩ hreal hs
    have hst := step_cases hs
    rw [bridgeTrace_append, ← List.append_assoc]
    exact ⟨⟨hst.linked hl, hst.loopEnds hl he⟩, hst.markedLedger hl he hreal hm⟩
  · rw [bridgeTrace_nil, List.append_nil]
    exact Bridge.markedLedger_feed _

/-- The last bytes of a stream come before its end. -/
def FinLast (cbs : List StreamCallback) : Prop :=
  cbs.Pairwise fun cb cb' => cb.event = .streamFin → cb'.event ≠ .streamData

theorem endsLast_pushes {tr : List ServerObs} (h : FinLast (callbacks j tr)) :
    EndsLast (pushes j tr) := by
  refine List.pairwise_filterMap.mpr (h.imp ?_)
  rintro cb cb' hcb v hv w hw rfl
  have he : cb.event = .streamFin := by
    cases he : cb.event <;> simp only [StreamCallback.serverPush, he, reduceCtorEq] at hv
    · exact absurd rfl (StreamCallback.chunk_ne_nil hv)
    · rfl
  have hnd := hcb he
  cases he' : cb'.event <;> simp only [StreamCallback.serverPush, he', reduceCtorEq] at hw
  · exact absurd he' hnd
  · exact (Option.some.inj hw).symm

theorem endsLast_feed {es : List ServerEvent} {s : Server} {tr : List ServerObs}
    (hr : machine.run init es = some (s, tr)) (h : FinLast (callbacks j tr)) :
    EndsLast (received (s.stream j).feed) := by
  have hsub := (List.sublist_append_left _ _).trans (received_sublist_run hr j)
  have hsuf : (s.stream j).recvQ.buf <:+ received (bridgeTrace j tr) := by
    obtain ⟨ops, hops⟩ := (bridgeProjection j).run hr
    exact Machine.run_trace (fun (b : Bridge) tr => b.recvQ.buf <:+ received tr)
      (fun _ _ _ _ _ hi _ hs => Bridge.step_recvSuffix hs hi) hops (Machine.Along.true _ _)
      (by simp [bridgeProjection, Server.init, stream, Bridge.new])
  have hbuf : EndsLast (s.stream j).recvQ.buf :=
    (endsLast_pushes h).sublist (hsuf.sublist.trans hsub)
  unfold Bridge.feed
  rw [Bridge.received_map]
  by_cases hu : (s.stream j).recvHalf.unread = []
  · rwa [if_pos hu]
  · rw [if_neg hu]
    exact List.pairwise_cons.mpr ⟨fun w _ hn => absurd hn hu, hbuf⟩

/-- From its close event on a connection gets no more calls; once the event has been handled its
writers get errors and the parked one has been woken; and its reader gets what was left to read and
then the end, with nothing pending as long as its task has budget. -/
theorem after_close {s s' t : Server} {es fs : List ServerEvent} {tr out tr' : List ServerObs}
    {cb : StreamCallback} {st : ServerStream} (hr : machine.run init es = some (s, tr))
    (hst : s.streamOf cb.cnx = some st) (hc : cb.event.closes = true)
    (hs : machine.step s (.stream cb) = some (s', out)) (hf : machine.run s' fs = some (t, tr')) :
    (machine.Along (fun _ e => NotReady cb.cnx e) s' fs → addsOf cb.cnx (out ++ tr') = []) ∧
    (t.pc.dropping ≠ some st.index →
      (∀ buf u o, machine.step t (.app st.index (.pollWrite buf)) = some (u, o) →
        o = [.bridge st.index (.writeError .brokenPipe)]) ∧
      (∀ e u o, machine.step t e = some (u, o) →
        ¬ Bridge.WriteReturns (bridgeTrace st.index o)) ∧
      ((t.stream st.index).writer = .parked → ∃ a b,
        bridgeTrace st.index (tr ++ out ++ tr') = a ++ .writePending :: b ∧
          .writePending ∉ b ∧ .woken ∈ b)) ∧
    .readPending ∉ bridgeTrace st.index (out ++ tr') ∧
    (machine.Along (fun _ e => e.RealRead st.index) s' fs →
      beforeEnd (reads (bridgeTrace st.index tr')) <+:
        symbolsBeforeEnd (s.stream st.index).toRead ∧
      ([] ∈ reads (bridgeTrace st.index tr') → beforeEnd (reads (bridgeTrace st.index tr')) =
        symbolsBeforeEnd (s.stream st.index).toRead) ∧
      (FinLast (callbacks st.index tr) → EndsLast (reads (bridgeTrace st.index tr')))) := by
  have hl := linked_run hr
  have hstep := step_cases hs
  obtain ⟨hentry, hdrop, hadds, hsilent⟩ := hstep.closes hl hst hc
  have hl' := hstep.linked hl
  have hends := hstep.loopEnds hl (loopEnds_run hr st.index)
  have hclosed : (s'.stream st.index).recvQ.sender = false := by
    rw [hdrop]
    rfl
  obtain ⟨htclosed, hnone, hpend⟩ := received_closed_run hf hl' hends hclosed
  have hrun : machine.run init (es ++ .stream cb :: fs) = some (t, tr ++ (out ++ tr')) :=
    (Machine.run_append_iff ..).mpr ⟨s, tr, out ++ tr', hr,
      (Machine.run_cons_iff ..).mpr ⟨s', out, tr', hs, hf, rfl⟩, rfl⟩
  have htends := loopEnds_run hrun st.index
  refine ⟨fun hn => ?_, fun hp => ⟨?_, ?_, ?_⟩, ?_, fun hreal => ?_⟩
  · rw [addsOf_append, hadds, no_adds_run hf hn (hstep.keyed (keyed_run hr)) hentry]
    rfl
  · intro buf u o ho
    have hcut := cut_of_closed htends htclosed hp
    cases step_cases ho with
    | @app _ _ b b' bout hb ha happ =>
      obtain ⟨hg, -⟩ := getD_of_getElem? hb
      rw [stream, hg] at hcut
      rw [hcut.pollWrite happ]
      rfl
  · intro e u o ho
    have hcut := cut_of_closed htends htclosed hp
    obtain ⟨-, hn⟩ | ⟨op, hop⟩ := (step_cases ho).bridge st.index
    · rw [hn]
      simp [Bridge.WriteReturns]
    · exact hcut.write hop
  · intro hparked
    have hcalled := called_run hrun st.index
    rw [← List.append_assoc] at hcalled
    exact hcalled.woken (cut_of_closed htends htclosed hp).wake hparked
  · rw [bridgeTrace_append, hsilent, List.nil_append]
    exact hpend
  · obtain ⟨k, hk, -⟩ := feed_run hf hreal hl' hends
    have hfeed : (s'.stream st.index).feed = (s.stream st.index).feed := by
      rw [hdrop]
      rfl
    rw [received_append, hnone, reads_append, Bridge.reads_feed, List.append_nil, List.nil_append,
      hfeed] at hk
    have hmarks := hk
    rw [Bridge.marks_feed] at hmarks
    obtain ⟨hpre, hall⟩ := beforeEnd_prefix hmarks
    exact ⟨hpre, hall, fun hfin => (endsLast_feed hr hfin).reads (l := []) hk⟩

/-- Two of three bytes are read, an end marker and an entry of the writer are queued. -/
def beforeClose : List ServerEvent :=
  [.stream ⟨1, 0, none, .ready⟩, .stream ⟨1, 4, some [1, 2, 3], .streamData⟩, .resume 0, .accept,
    .app 0 (.pollRead 2), .stream ⟨1, 4, none, .streamFin⟩, .app 0 (.pollWrite [9])]

/-- The ends are dropped, and then the reader polls three times. -/
def readOut : List ServerEvent :=
  [.resume 0, .resume 0, .app 0 (.pollRead 8), .app 0 (.pollRead 8), .app 0 (.pollRead 8)]

theorem after_close_readOut : ∃ s tr s' out t tr', machine.run init beforeClose = some (s, tr) ∧
    machine.step s (.stream ⟨1, 0, none, .close⟩) = some (s', out) ∧
    machine.run s' readOut = some (t, tr') ∧ t.pc.dropping ≠ some 0 ∧
    addsOf 1 (out ++ tr') = [] ∧
    beforeEnd (reads (bridgeTrace 0 tr')) = [3] ∧ EndsLast (reads (bridgeTrace 0 tr')) ∧
    ∀ buf u o, machine.step t (.app 0 (.pollWrite buf)) = some (u, o) →
      o = [.bridge 0 (.writeError .brokenPipe)] := by
  obtain ⟨s, tr, s', out, t, tr', hr, hst, hs, hf, hleft, hread, hfin, hp, hn, hreal⟩ :
      ∃ s tr s' out t tr', machine.run init beforeClose = some (s, tr) ∧
        s.streamOf 1 = some ⟨4, 0⟩ ∧
        machine.step s (.stream ⟨1, 0, none, .close⟩) = some (s', out) ∧
        machine.run s' readOut = some (t, tr') ∧
        symbolsBeforeEnd (s.stream 0).toRead = [3] ∧ [] ∈ reads (bridgeTrace 0 tr') ∧
        FinLast (callbacks 0 tr) ∧ t.pc.dropping ≠ some 0 ∧
        machine.Along (fun _ e => NotReady 1 e) s' readOut ∧
        machine.Along (fun _ e => e.RealRead 0) s' readOut :=
    ⟨_, _, _, _, _, _, rfl, rfl, rfl, rfl, rfl, by decide, by unfold FinLast; decide, by decide,
      by decide, by decide⟩
  obtain ⟨hadds, hw, -, hrd⟩ := after_close hr hst rfl hs hf
  obtain ⟨-, hall, hlast⟩ := hrd hreal
  exact ⟨s, tr, s', out, t, tr', hr, hs, hf, hp, hadds hn, by rw [hall hread, hleft],
    hlast hfin, (hw hp).1⟩

end Server
end TransportProxy.Slipstream
