import TransportProxy.Client.Receive

/-! # Other streams of the connection

The client's `stream_callback` does not look at the stream id, so an event on any stream of the
connection reaches the one reader. A run is compared with the run without the events on other
streams: the reader sees the same in both exactly when those events bring nothing.
-/
namespace TransportProxy.Slipstream
open Foundations
set_option autoImplicit false

/-- An event of a stream, or a read with a non-empty buffer. -/
def ClientEvent.StreamLevel : ClientEvent → Prop
  | .stream cb _ _ => cb.event = .streamData ∨ cb.event = .streamFin ∨ cb.event = .streamReset
  | .app (.pollRead remaining) => 0 < remaining
  | _ => False

instance ClientEvent.StreamLevel.decidable : ∀ e : ClientEvent, Decidable e.StreamLevel
  | .stream cb _ _ =>
    inferInstanceAs (Decidable
      (cb.event = .streamData ∨ cb.event = .streamFin ∨ cb.event = .streamReset))
  | .app (.pollRead remaining) => inferInstanceAs (Decidable (0 < remaining))
  | .app (.pollWrite _) | .app .pollWriteWake | .app .pollWriteRetry | .app .pollFlush
  | .app .pollShutdown | .app .dropStream | .loop _ _ _ | .resume _ | .loopReturn => .isFalse id

/-- The event is not on another stream than `sid`. -/
def ClientEvent.own (sid : UInt64) : ClientEvent → Bool
  | .stream cb _ _ => cb.streamId == sid
  | _ => true

namespace Client

/-! ## Runs of stream events and reads -/

/-- No callback is in progress, and the stream has a reader. -/
structure Reading (s : Client) : Prop where
  calm : s.pc.calm = true
  held : s.bridge.owner = .held

theorem Step.reading {s s' : Client} {e : ClientEvent} {out : List ClientObs}
    (h : Step s e s' out) (he : e.StreamLevel) (hi : Reading s) : Reading s' := by
  cases h with
  | @app op b bout h =>
    cases op with
    | pollRead remaining =>
      have ha := Bridge.app_cases h
      refine ⟨hi.calm, ?_⟩
      cases ha with
      | read | readPending => exact hi.held
      | wrote hw | writeClosed hw | writeFull hw => exact absurd hw Bridge.not_offers_pollRead
    | _ => exact he.elim
  | readyFailed hp hr | ready hp hr => simp [ClientEvent.StreamLevel, hr] at he
  | @chunk _ _ _ v =>
    refine ⟨hi.calm, ?_⟩
    rw [← hi.held]
    exact (s.bridge.loop_step (.recvTrySend v)).owner
  | ignored => exact hi
  | _ => exact he.elim

theorem Reading.step {s : Client} {e : ClientEvent} (hi : Reading s) (he : e.StreamLevel) :
    ∃ s' out, machine.step s e = some (s', out) ∧ Reading s' := by
  obtain ⟨s', out, hs⟩ : ∃ s' out, machine.step s e = some (s', out) := by
    cases e with
    | app op =>
      cases op with
      | pollRead remaining =>
        have ha : s.bridge.app (.pollRead remaining) = some (s.bridge.pollRead remaining) :=
          if_pos hi.held
        exact ⟨_, _, congrArg (Option.map s.onBridge) ha⟩
      | _ => exact he.elim
    | stream cb nextId markRet => exact ⟨_, _, if_pos hi.calm⟩
    | loop | resume | loopReturn => exact he.elim
  exact ⟨s', out, hs, (step_cases hs).reading he hi⟩

theorem Reading.run {s : Client} {es : List ClientEvent} (hi : Reading s)
    (he : ∀ e ∈ es, e.StreamLevel) : ∃ t tr, machine.run s es = some (t, tr) ∧ Reading t := by
  induction es generalizing s with
  | nil => exact ⟨s, [], rfl, hi⟩
  | cons e es ih =>
    obtain ⟨s', out, hs, hi'⟩ := hi.step (he e List.mem_cons_self)
    obtain ⟨t, tr, hr, ht⟩ := ih hi' fun d hd => he d (List.mem_cons_of_mem _ hd)
    exact ⟨t, out ++ tr, (Machine.run_cons_iff ..).mpr ⟨s', out, tr, hs, hr, rfl⟩, ht⟩

theorem realRead_of_streamLevel {e : ClientEvent} (h : e.StreamLevel) : e.RealRead := by
  cases e with
  | app op => cases op <;> first | exact h | exact h.elim
  | stream | loop | resume | loopReturn => trivial

/-- What was to be read, and what is queued, is read or still to be read. -/
theorem marks_run {s t : Client} {es : List ClientEvent} {tr : List ClientObs}
    (hr : machine.run s es = some (t, tr)) (hl : LoopEnds s) (ht : Reading t)
    (hg : machine.Along (fun _ e => e.RealRead) s es) :
    s.bridge.toRead ++ marks (received (bridgeTrace tr)) =
      marks (reads (bridgeTrace tr)) ++ t.bridge.toRead := by
  have hrun : LoopEnds t ∧ t.bridge.MarkedLedger (s.bridge.feed ++ bridgeTrace tr) := by
    refine Machine.run_trace (fun (t : Client) tr => LoopEnds t ∧
      t.bridge.MarkedLedger (s.bridge.feed ++ bridgeTrace tr)) ?_ hr hg ⟨hl, ?_⟩
    · rintro t tr e t' out ⟨hl, hm⟩ hk hs
      have hst := step_cases hs
      rw [bridgeTrace_append, ← List.append_assoc]
      exact ⟨hst.loopEnds hl, hst.markedLedger hl hk hm⟩
    · rw [bridgeTrace_nil, List.append_nil]
      exact Bridge.markedLedger_feed _
  obtain ⟨hends, k, hk, hk0⟩ := hrun
  have hs : t.bridge.recvQ.sender = true := by
    apply hends.recv.mpr
    rw [LoopPc.dropped_of_calm ht.calm]
    exact Nat.zero_lt_one
  have h0 : k = 0 := by
    by_contra hn
    rw [(hk0 (Nat.pos_of_ne_zero hn)).2] at hs
    cases hs
  rw [h0, received_append, reads_append, Bridge.reads_feed, marks_append, Bridge.marks_feed] at hk
  simpa using hk

theorem Step.received_sublist {s s' : Client} {e : ClientEvent} {out : List ClientObs}
    (h : Step s e s' out) : (received (bridgeTrace out)).Sublist e.push.toList := by
  obtain ⟨-, ht, -⟩ | ⟨op, hc, hop⟩ := h.bridge_op
  · rw [ht]
    exact List.nil_sublist _
  · cases op with
    | app op =>
      rw [(Bridge.app_cases hop).received]
      exact List.nil_sublist _
    | loop op =>
      have hl := Bridge.loop_cases (Option.some.inj hop)
      cases op with
      | recvTrySend v =>
        rw [hc.1]
        generalize bridgeTrace out = t at hl
        generalize s'.bridge = b at hl
        cases hl with
        | received => exact List.Sublist.refl _
        | refused => exact List.nil_sublist _
      | _ =>
        rw [(hl.untouched (by simp)).received]
        exact List.nil_sublist _

theorem received_sublist_run {s t : Client} {es : List ClientEvent} {tr : List ClientObs}
    (hr : machine.run s es = some (t, tr)) :
    (received (bridgeTrace tr)).Sublist (es.filterMap ClientEvent.push) := by
  refine Machine.run_events (fun _ es tr =>
    (received (bridgeTrace tr)).Sublist (es.filterMap ClientEvent.push)) ?_ hr
    (Machine.Along.true _ _) (List.nil_sublist _)
  rintro s es tr e s' out hi - hs
  have hst := (step_cases hs).received_sublist
  rw [bridgeTrace_append, received_append, List.filterMap_append, filterMap_cons_toList]
  simpa using hi.append hst

/-- With room for all of it, all that is offered is queued. -/
theorem received_of_room {s t : Client} {es : List ClientEvent} {tr : List ClientObs}
    (hr : machine.run s es = some (t, tr)) (ho : s.bridge.Owned) (ht : Reading t)
    (hg : machine.Along (Room fun _ => true) s es) :
    received (bridgeTrace tr) = es.filterMap ClientEvent.push := by
  have hrun : t.bridge.Owned ∧
      Bridge.Fed (fun _ => true) t.bridge (bridgeTrace tr) (es.filterMap ClientEvent.push) [] := by
    refine Machine.run_events (fun (t : Client) es tr => t.bridge.Owned ∧ Bridge.Fed
      (fun _ => true) t.bridge (bridgeTrace tr) (es.filterMap ClientEvent.push) []) ?_ hr hg
      ⟨ho, List.prefix_rfl, fun _ => rfl⟩
    rintro s es tr e s' out ⟨ho, hf⟩ hk hs
    have hst := step_cases hs
    have hfed := hst.fed hf hk
    rw [hst.pushes, List.filter_true] at hfed
    rw [bridgeTrace_append, List.filterMap_append, filterMap_cons_toList, List.filterMap_nil,
      List.append_nil]
    exact ⟨hst.owned ho, hfed⟩
  have hall := hrun.2.all (hrun.1.recv.mpr ht.held)
  rwa [List.filter_true, List.append_nil] at hall

/-! ## Without the events on other streams -/

/-- What a stream event offers, in terms of the event. -/
theorem push_eq_none {cb : StreamCallback} {nextId : UInt64} {markRet : ℤ}
    (he : (ClientEvent.stream cb nextId markRet).StreamLevel) :
    (ClientEvent.stream cb nextId markRet).push = none ↔
      cb.event = .streamData ∧ cb.chunk = none := by
  obtain h | h | h := he <;>
    simp [ClientEvent.push, ClientEvent.callback, StreamCallback.clientPush, h]

theorem Step.skipped {s s' : Client} {e : ClientEvent} {out : List ClientObs} {sid : UInt64}
    (h : Step s e s' out) (he : e.StreamLevel) (ho : e.own sid = false) (hn : e.push = none) :
    s' = s ∧ bridgeTrace out = [] := by
  cases h with
  | app => cases ho
  | readyFailed hp hr | ready hp hr => simp [ClientEvent.StreamLevel, hr] at he
  | chunk hp hv =>
    rw [ClientEvent.push, ClientEvent.callback, Option.bind_some, hv] at hn
    cases hn
  | ignored => exact ⟨rfl, rfl⟩
  | _ => exact he.elim

/-- Events that offer nothing change nothing. -/
theorem own_run {s t : Client} {es : List ClientEvent} {tr : List ClientObs} {sid : UInt64}
    (hr : machine.run s es = some (t, tr)) (he : ∀ e ∈ es, e.StreamLevel)
    (hn : ∀ e ∈ es, e.own sid = false → e.push = none) :
    ∃ tr', machine.run s (es.filter (ClientEvent.own sid)) = some (t, tr') ∧
      bridgeTrace tr' = bridgeTrace tr := by
  induction es generalizing s tr with
  | nil => exact ⟨tr, hr, rfl⟩
  | cons e es ih =>
    obtain ⟨s', out, rest, hs, hr', rfl⟩ := (Machine.run_cons_iff ..).mp hr
    obtain ⟨tr', ht, htr⟩ := ih hr' (fun d hd => he d (List.mem_cons_of_mem _ hd))
      fun d hd => hn d (List.mem_cons_of_mem _ hd)
    cases ho : e.own sid with
    | true =>
      rw [List.filter_cons_of_pos ho]
      refine ⟨out ++ tr', (Machine.run_cons_iff ..).mpr ⟨s', out, tr', hs, ht, rfl⟩, ?_⟩
      rw [bridgeTrace_append, bridgeTrace_append, htr]
    | false =>
      obtain ⟨rfl, hout⟩ := (step_cases hs).skipped (he e List.mem_cons_self) ho
        (hn e List.mem_cons_self ho)
      rw [List.filter_cons_of_neg (by simp [ho]), bridgeTrace_append, hout]
      exact ⟨tr', ht, htr⟩

/-- The reader of a client with room in its queue sees the same without the events on other streams,
read and still to be read, if and only if none of these events brings a byte or an end. -/
theorem sees_own_stream_iff {es₀ es : List ClientEvent} {s : Client} {tr₀ : List ClientObs}
    (h₀ : machine.run Client.init es₀ = some (s, tr₀)) (hp : s.pc = .idle)
    (ho : s.bridge.owner = .held) (he : ∀ e ∈ es, e.StreamLevel)
    (hg : machine.Along (Room fun _ => true) s es) :
    ∃ t tr t' tr', machine.run s es = some (t, tr) ∧
      machine.run s (es.filter (ClientEvent.own s.ctx.streamId)) = some (t', tr') ∧
      ((reads (bridgeTrace tr) = reads (bridgeTrace tr') ∧ t.bridge.toRead = t'.bridge.toRead) ↔
        ∀ cb nextId markRet, .stream cb nextId markRet ∈ es → cb.streamId ≠ s.ctx.streamId →
          cb.event = .streamData ∧ cb.chunk = none) := by
  have hread : Reading s := ⟨by rw [hp]; rfl, ho⟩
  have hl := loopEnds_run h₀
  set own := ClientEvent.own s.ctx.streamId with hown
  have he' : ∀ e ∈ es.filter own, e.StreamLevel := fun e hm => he e (List.mem_of_mem_filter hm)
  obtain ⟨t, tr, hr, ht⟩ := hread.run he
  obtain ⟨t', tr', hr', ht'⟩ := hread.run he'
  refine ⟨t, tr, t', tr', hr, hr', ?_⟩
  have hreal : ∀ {l : List ClientEvent}, (∀ e ∈ l, e.StreamLevel) →
      machine.Along (fun _ e => e.RealRead) s l := fun h =>
    Machine.Along.of_forall fun e hm => realRead_of_streamLevel (h e hm)
  have hforeign : (∀ cb nextId markRet, .stream cb nextId markRet ∈ es →
      cb.streamId ≠ s.ctx.streamId → cb.event = .streamData ∧ cb.chunk = none) ↔
      ∀ e ∈ es, own e = false → e.push = none := by
    constructor
    · intro h e hm hn
      cases e with
      | stream cb nextId markRet =>
        exact (push_eq_none (he _ hm)).mpr (h cb nextId markRet hm (by simpa [hown,
          ClientEvent.own] using hn))
      | app | loop | resume | loopReturn => rfl
    · intro h cb nextId markRet hm hn
      exact (push_eq_none (he _ hm)).mp (h _ hm (by simpa [hown, ClientEvent.own] using hn))
  rw [hforeign]
  constructor
  · rintro ⟨hreads, hleft⟩
    have hm := marks_run hr hl ht (hreal he)
    have hm' := marks_run hr' hl ht' (hreal he')
    rw [hreads, hleft, ← hm', received_of_room hr (owned_run h₀) ht hg] at hm
    have hlen := congrArg List.length (List.append_cancel_left hm)
    have hle := length_marks_le (received_sublist_run hr')
    have hsum := length_marks_filter ClientEvent.push own es
    have hzero : (marks ((es.filter fun e => !own e).filterMap ClientEvent.push)).length = 0 := by
      omega
    intro e hm hn
    have hnil := marks_eq_nil.mp (List.length_eq_zero_iff.mp hzero)
    exact List.filterMap_eq_nil_iff.mp hnil e (List.mem_filter.mpr ⟨hm, by simp [hn]⟩)
  · intro hn
    obtain ⟨tr'', hr'', hbr⟩ := own_run hr he hn
    rw [hr'] at hr''
    obtain ⟨rfl, rfl⟩ := Prod.mk.inj (Option.some.inj hr'')
    exact ⟨by rw [hbr], rfl⟩

/-- The peer resets a stream that the client does not read. -/
def resetElsewhere : List ClientEvent :=
  [.stream ⟨1, 0, some [1], .streamData⟩ 0 0, .stream ⟨1, 3, none, .streamReset⟩ 0 0,
    .app (.pollRead 8), .app (.pollRead 8)]

/-- An empty event of another stream. -/
def emptyElsewhere : List ClientEvent :=
  [.stream ⟨1, 0, some [1], .streamData⟩ 0 0, .stream ⟨1, 3, none, .streamData⟩ 0 0,
    .stream ⟨1, 0, none, .streamFin⟩ 0 0, .app (.pollRead 8), .app (.pollRead 8)]

theorem sees_own_stream_iff_emptyElsewhere : ∃ s tr₀ t tr t' tr',
    machine.run Client.init [.stream ⟨1, 0, none, .ready⟩ 0 0] = some (s, tr₀) ∧
      machine.run s emptyElsewhere = some (t, tr) ∧
      machine.run s (emptyElsewhere.filter (ClientEvent.own s.ctx.streamId)) = some (t', tr') ∧
      reads (bridgeTrace tr) = reads (bridgeTrace tr') ∧ t.bridge.toRead = t'.bridge.toRead := by
  obtain ⟨s, tr₀, h₀, hp, ho, hg, hsid⟩ : ∃ s tr₀,
      machine.run Client.init [.stream ⟨1, 0, none, .ready⟩ 0 0] = some (s, tr₀) ∧ s.pc = .idle ∧
        s.bridge.owner = .held ∧ machine.Along (Room fun _ => true) s emptyElsewhere ∧
        s.ctx.streamId = 0 :=
    ⟨_, _, rfl, rfl, rfl, by decide, rfl⟩
  obtain ⟨t, tr, t', tr', hr, hr', hiff⟩ := sees_own_stream_iff h₀ hp ho (by decide) hg
  refine ⟨s, tr₀, t, tr, t', tr', h₀, hr, hr', hiff.mpr ?_⟩
  intro cb nextId markRet hm hne
  rw [hsid] at hne
  simp only [emptyElsewhere, List.mem_cons, List.not_mem_nil, or_false, ClientEvent.stream.injEq,
    reduceCtorEq] at hm
  obtain ⟨rfl, -⟩ | ⟨rfl, -⟩ | ⟨rfl, -⟩ := hm
  · exact absurd rfl hne
  · exact ⟨rfl, rfl⟩
  · exact absurd rfl hne

theorem resetElsewhere_ends_reads : ∃ s tr₀ t tr t' tr',
    machine.run Client.init [.stream ⟨1, 0, none, .ready⟩ 0 0] = some (s, tr₀) ∧
      s.streamReady = true ∧ s.ctx.streamId = 0 ∧
      machine.Along (Room fun _ => true) s resetElsewhere ∧
      machine.run s resetElsewhere = some (t, tr) ∧
      machine.run s (resetElsewhere.filter (ClientEvent.own 0)) = some (t', tr') ∧
      reads (bridgeTrace tr) = [[1], []] ∧ reads (bridgeTrace tr') = [[1]] :=
  ⟨_, _, _, _, _, _, rfl, by decide, rfl, by decide, rfl, rfl, by decide, by decide⟩

end Client
end TransportProxy.Slipstream
