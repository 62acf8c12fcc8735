import TransportProxy.StreamEnd

/-! # The two directions of a stream end independently

The client reads its peer's direction of the stream. A STOP_SENDING of the peer is about the other
direction, but `stream_callback` answers it with the same end marker as a stream_reset. `StopsLate`
is the condition that such a marker never gets into the queue before a real end.
-/
namespace TransportProxy.Slipstream
open Foundations
set_option autoImplicit false

namespace Client

/-- The peer has ended the stream or the connection. -/
def Ended (tr : List ClientObs) : Prop := ∃ cb ∈ callbacks tr, cb.event.ends = true

instance Ended.decidable (tr : List ClientObs) : Decidable (Ended tr) :=
  inferInstanceAs (Decidable (∃ _ ∈ _, _))

theorem Ended.append {t : List ClientObs} (h : Ended t) (u : List ClientObs) : Ended (t ++ u) := by
  obtain ⟨cb, hcb, he⟩ := h
  rw [Ended, callbacks_append]
  exact ⟨cb, List.mem_append_left _ hcb, he⟩

/-- The peer sends nothing after it has ended the stream or the connection. -/
def DataBeforeEnd (cbs : List StreamCallback) : Prop :=
  cbs.Pairwise fun cb cb' => cb.event.ends = true → cb'.event ≠ .streamData

instance DataBeforeEnd.decidable (cbs : List StreamCallback) : Decidable (DataBeforeEnd cbs) :=
  inferInstanceAs (Decidable (List.Pairwise _ _))

/-- A stop_sending comes after the end, or finds no room for its marker. -/
def StopsLate (s : Client) (tr : List ClientObs) : ClientEvent → Prop
  | .stream cb _ _ =>
    cb.event = .stopSending → Ended tr ∨ s.bridge.recvQ.buf.length = recvCapacity
  | _ => True

instance StopsLate.decidable (s : Client) (tr : List ClientObs) :
    ∀ e, Decidable (s.StopsLate tr e)
  | .stream _ _ _ => inferInstanceAs (Decidable (_ → _ ∨ _))
  | .app _ | .loop _ _ _ | .resume _ | .loopReturn => .isTrue trivial

/-- A marker is offered at an end or for a stop_sending. -/
theorem ends_of_clientPush {cb : StreamCallback} (h : cb.clientPush = some []) :
    cb.event.ends = true ∨ cb.event = .stopSending := by
  cases he : cb.event <;> simp only [StreamCallback.clientPush, he, reduceCtorEq] at h <;>
    first
      | exact absurd rfl (StreamCallback.chunk_ne_nil h)
      | exact .inl rfl
      | exact .inr rfl

theorem streamData_of_clientPush {cb : StreamCallback} {v : Bytes} (h : cb.clientPush = some v)
    (hv : v ≠ []) : cb.event = .streamData := by
  cases he : cb.event <;> simp only [StreamCallback.clientPush, he, reduceCtorEq,
    Option.some.injEq] at h <;> first
      | rfl
      | exact absurd h.symm hv

structure EndInv (s : Client) (tr : List ClientObs) : Prop where
  ends : LoopEnds s
  ledger : s.bridge.MarkedLedger (bridgeTrace tr)
  ended : [] ∈ received (bridgeTrace tr) → Ended tr
  last : DataBeforeEnd (callbacks tr) → EndsLast (received (bridgeTrace tr))

theorem EndInv.init : EndInv init [] := ⟨.init, .new, nofun, fun _ => List.Pairwise.nil⟩

/-- A step that queues nothing. -/
theorem EndInv.quiet {s s' : Client} {e : ClientEvent} {tr out : List ClientObs}
    (hi : EndInv s tr) (h : Step s e s' out) (hr : e.RealRead)
    (hn : received (bridgeTrace out) = []) : EndInv s' (tr ++ out) := by
  have hrec : received (bridgeTrace (tr ++ out)) = received (bridgeTrace tr) := by
    rw [bridgeTrace_append, received_append, hn, List.append_nil]
  refine ⟨h.loopEnds hi.ends, ?_, fun hm => ?_, fun hd => ?_⟩
  · rw [bridgeTrace_append]
    exact h.markedLedger hi.ends hr hi.ledger
  · rw [hrec] at hm
    exact (hi.ended hm).append out
  · rw [callbacks_append] at hd
    rw [hrec]
    exact hi.last (List.pairwise_append.mp hd).1

theorem EndInv.step {s s' : Client} {e : ClientEvent} {tr out : List ClientObs}
    (hi : EndInv s tr) (h : Step s e s' out) (hr : e.RealRead) (hk : s.StopsLate tr e) :
    EndInv s' (tr ++ out) := by
  obtain ⟨-, ht, -⟩ | ⟨op, hc, hop⟩ := h.bridge_op
  · exact hi.quiet h hr (by rw [ht]; rfl)
  · cases op with
    | app op => exact hi.quiet h hr (Bridge.app_cases hop).received
    | loop op =>
      cases op with
      | recvTrySend v =>
        obtain ⟨cb, he, hv⟩ := Option.bind_eq_some_iff.mp hc.1
        have hcbs : callbacks out = [cb] := by
          rw [h.callbacks, he]
          rfl
        obtain ⟨-, hroom, hpush⟩ | ⟨-, hpush⟩ := s.bridge.recvTrySend_cases v
        · have hout := (Prod.mk.inj (Option.some.inj (hop.symm.trans (congrArg some hpush)))).2
          have hrec : received (bridgeTrace (tr ++ out)) = received (bridgeTrace tr) ++ [v] := by
            rw [bridgeTrace_append, received_append, hout]
            rfl
          refine ⟨h.loopEnds hi.ends, ?_, fun hm => ?_, fun hd => ?_⟩
          · rw [bridgeTrace_append]
            exact h.markedLedger hi.ends hr hi.ledger
          · rw [hrec, List.mem_append, List.mem_singleton] at hm
            obtain hm | rfl := hm
            · exact (hi.ended hm).append out
            · obtain hend | hstop := ends_of_clientPush hv
              · refine ⟨cb, ?_, hend⟩
                rw [callbacks_append, hcbs]
                exact List.mem_append_right _ (List.mem_singleton_self _)
              · -- the marker of a stop_sending found room, so the end came before
                cases e with
                | stream cb' nextId markRet =>
                  obtain rfl := Option.some.inj he
                  refine Ended.append ((hk hstop).resolve_right fun hfull => ?_) out
                  omega
                | app | loop | resume | loopReturn => cases he
          · rw [callbacks_append, hcbs] at hd
            obtain ⟨hd, -, hcross⟩ := List.pairwise_append.mp hd
            rw [hrec]
            apply (hi.last hd).snoc
            by_cases hnil : v = []
            · exact .inr hnil
            · left
              intro hm
              obtain ⟨cb', hcb', hend⟩ := hi.ended hm
              exact hcross cb' hcb' cb (List.mem_singleton_self _) hend
                (streamData_of_clientPush hv hnil)
        · have hout := (Prod.mk.inj (Option.some.inj (hop.symm.trans (congrArg some hpush)))).2
          exact hi.quiet h hr (by rw [hout]; rfl)
      | _ =>
        have hu := (Bridge.loop_cases (Option.some.inj hop)).untouched (by simp)
        exact hi.quiet h hr hu.received

/-- If no stop_sending gets its marker into the queue before the end, a read is empty only after the
peer has ended the stream or the connection, or the packet loop is gone, and no byte follows it. -/
theorem no_premature_end {es : List ClientEvent} {s : Client} {tr : List ClientObs}
    (hr : machine.run Client.init es = some (s, tr))
    (hg : machine.AlongTrace (fun s tr e => e.RealRead ∧ s.StopsLate tr e) Client.init [] es) :
    ([] ∈ reads (bridgeTrace tr) → Ended tr ∨ 0 < s.pc.dropped) ∧
      (DataBeforeEnd (callbacks tr) → EndsLast (reads (bridgeTrace tr))) := by
  have hi : EndInv s tr := Machine.run_along_trace EndInv
    (fun _ _ _ _ _ hi hk hs => hi.step (step_cases hs) hk.1 hk.2) hr hg .init
  refine ⟨fun hm => ?_, fun hd => ?_⟩
  · by_cases hq : [] ∈ received (bridgeTrace tr)
    · exact .inl (hi.ended hq)
    · right
      by_contra h0
      have hs := hi.ends.recv.mpr (by omega)
      exact hi.ledger.nil_not_mem_reads hs hq hm
  · obtain ⟨k, hk, -⟩ := hi.ledger
    exact (hi.last hd).reads (l := []) hk

/-- The peer sends a chunk and a FIN, and then a STOP_SENDING. -/
def stopAfterFin : List ClientEvent :=
  [.stream ⟨1, 0, none, .ready⟩ 0 0, .stream ⟨1, 0, some [1, 2], .streamData⟩ 0 0,
    .stream ⟨1, 0, none, .streamFin⟩ 0 0, .stream ⟨1, 0, none, .stopSending⟩ 0 0,
    .app (.pollRead 8), .app (.pollRead 8), .app (.pollRead 8)]

theorem no_premature_end_stopAfterFin : ∃ s tr,
    machine.run Client.init stopAfterFin = some (s, tr) ∧
      reads (bridgeTrace tr) = [[1, 2], [], []] ∧ (Ended tr ∨ 0 < s.pc.dropped) ∧
      EndsLast (reads (bridgeTrace tr)) := by
  obtain ⟨s, tr, hr, hg, hrd, hd⟩ : ∃ s tr, machine.run Client.init stopAfterFin = some (s, tr) ∧
      machine.AlongTrace (fun s tr e => e.RealRead ∧ s.StopsLate tr e) Client.init []
        stopAfterFin ∧
      reads (bridgeTrace tr) = [[1, 2], [], []] ∧ DataBeforeEnd (callbacks tr) :=
    ⟨_, _, rfl, by decide, rfl, by decide⟩
  obtain ⟨hend, hlast⟩ := no_premature_end hr hg
  exact ⟨s, tr, hr, hrd, hend (by rw [hrd]; decide), hlast hd⟩

/-- A STOP_SENDING while the peer is still sending. -/
def stopWhileSending : List ClientEvent :=
  [.stream ⟨1, 0, none, .ready⟩ 0 0, .stream ⟨1, 0, none, .stopSending⟩ 0 0,
    .app (.pollRead 8), .stream ⟨1, 0, some [1, 2], .streamData⟩ 0 0, .app (.pollRead 8)]

theorem stopWhileSending_reads_end : ∃ s tr,
    machine.run Client.init stopWhileSending = some (s, tr) ∧
      machine.Along (fun _ e => e.RealRead) Client.init stopWhileSending ∧ s.pc = .idle ∧
      reads (bridgeTrace tr) = [[], [1, 2]] ∧ ¬ Ended tr :=
  ⟨_, _, rfl, by decide, rfl, by decide, by decide⟩

end Client
end TransportProxy.Slipstream
