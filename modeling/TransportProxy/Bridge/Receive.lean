import TransportProxy.Bridge.Ownership
import TransportProxy.Foundations.Marks

/-! # The receive path of a bridge

`Ledger` counts bytes. This module adds where the end of the stream lies among them. Write the
contents of the receive path as a stream of bytes with `none` for an end marker: a chunk stands for
its bytes and the empty chunk for `none` (`marks`). A read with a non-empty buffer that returns no
byte has either taken a marker or found the channel closed and empty, so the reads of a run spell
the stream that was queued, up to further empty reads at a closed channel (`MarkedLedger`).

`Fed` compares the chunks that were queued with those that a callback offered.
-/
namespace TransportProxy.Slipstream
open Foundations
set_option autoImplicit false

/-! ## One read -/

namespace SlipstreamRecvHalf

theorem take_ne_nil {half : SlipstreamRecvHalf} {remaining : ℕ}
    (hp : half.pendingOff < half.pending.length) (hn : 0 < remaining) :
    (half.take remaining).1 ≠ [] := by
  intro h
  have hl := congrArg List.length h
  simp only [take, List.length_take, List.length_drop, List.length_nil] at hl
  omega

/-- A read with a non-empty buffer moves what it returns from the front of the stream, unless the
channel is closed and everything has been read. -/
theorem pollRead_marks {half half' : SlipstreamRecvHalf} {q q' : Channel Bytes recvCapacity}
    {remaining : ℕ} {data : Bytes} (h : half.pollRead q remaining = (.ready data, half', q'))
    (hn : 0 < remaining) :
    half.unread.map some ++ marks q.buf = marked data ++ (half'.unread.map some ++ marks q'.buf) ∨
      (data = [] ∧ half.unread = [] ∧ q.buf = [] ∧ half' = half ∧ q' = q ∧ q.sender = false) := by
  unfold pollRead at h
  by_cases hp : half.pendingOff < half.pending.length
  · simp only [if_pos hp, Prod.mk.injEq, Poll.ready.injEq] at h
    obtain ⟨rfl, rfl, rfl⟩ := h
    left
    rw [marked_of_ne (take_ne_nil hp hn), ← List.append_assoc, ← List.map_append, take_unread]
  · have hu : half.unread = [] := List.drop_eq_nil_of_le (Nat.le_of_not_lt hp)
    rw [if_neg hp] at h
    obtain ⟨v, rest, hb, hq⟩ | ⟨hb, -, hq⟩ | ⟨hb, hs, hq⟩ := q.pollRecv_cases
    · left
      simp only [hq] at h
      by_cases hv : v = []
      · subst hv
        simp only [List.isEmpty_nil, if_true, Prod.mk.injEq, Poll.ready.injEq] at h
        obtain ⟨rfl, rfl, rfl⟩ := h
        simp [hb, marked, hu]
      · have hv' : v.isEmpty = false := by simpa using hv
        have hlen : (0 : ℕ) < v.length := List.length_pos_of_ne_nil hv
        simp only [hv', Bool.false_eq_true, if_false, Prod.mk.injEq, Poll.ready.injEq] at h
        obtain ⟨rfl, rfl, rfl⟩ := h
        have ht := (⟨v, 0⟩ : SlipstreamRecvHalf).take_unread remaining
        have hne : ((⟨v, 0⟩ : SlipstreamRecvHalf).take remaining).1 ≠ [] := take_ne_nil hlen hn
        rw [marked_of_ne hne, ← List.append_assoc, ← List.map_append, ht, hu, hb, marks_cons,
          marked_of_ne hv, Channel.pop_buf, hb]
        rfl
    · simp [hq] at h
    · simp only [hq, Prod.mk.injEq, Poll.ready.injEq] at h
      obtain ⟨rfl, rfl, rfl⟩ := h
      exact .inr ⟨rfl, hu, hb, rfl, rfl, hs⟩

/-- A pending read has found nothing and changes nothing but the waker. -/
theorem pollRead_pending {half half' : SlipstreamRecvHalf} {q q' : Channel Bytes recvCapacity}
    {remaining : ℕ} (h : half.pollRead q remaining = (.pending, half', q')) :
    half.unread = [] ∧ q.buf = [] ∧ q.sender = true ∧ half' = half ∧ q' = q.wait := by
  unfold pollRead at h
  by_cases hp : half.pendingOff < half.pending.length
  · simp [if_pos hp] at h
  · rw [if_neg hp] at h
    obtain ⟨v, rest, hb, hq⟩ | ⟨hb, hs, hq⟩ | ⟨hb, hs, hq⟩ := q.pollRecv_cases
    · simp only [hq] at h
      split at h <;> simp at h
    · simp only [hq, Prod.mk.injEq, true_and] at h
      exact ⟨List.drop_eq_nil_of_le (Nat.le_of_not_lt hp), hb, hs, h.1.symm, h.2.symm⟩
    · simp [hq] at h

theorem pollRead_suffix (half : SlipstreamRecvHalf)
    (q : Channel Bytes recvCapacity) (remaining : ℕ) :
    (half.pollRead q remaining).2.2.buf <:+ q.buf := by
  unfold pollRead
  by_cases hp : half.pendingOff < half.pending.length
  · rw [if_pos hp]
  · rw [if_neg hp]
    obtain ⟨v, rest, -, hq⟩ | ⟨-, -, hq⟩ | ⟨-, -, hq⟩ := q.pollRecv_cases
    · simp only [hq]
      split <;> exact List.tail_suffix _
    · simp only [hq]
      exact List.suffix_rfl
    · simp only [hq]
      exact List.suffix_rfl

end SlipstreamRecvHalf

namespace Bridge

/-- What a reader has still to read. -/
def toRead (b : Bridge) : List (Option UInt8) := b.recvHalf.unread.map some ++ marks b.recvQ.buf

@[simp] theorem toRead_new : Bridge.new.toRead = [] := rfl

/-- The buffer of a read is not empty, and chunks are queued by a live sender only. -/
def Proper (b : Bridge) : BridgeOp → Prop
  | .app (.pollRead remaining) => 0 < remaining
  | .loop (.recvTrySend _) => b.recvQ.sender = true
  | _ => True

/-- An operation that leaves the receive path alone. -/
structure Untouched (b b' : Bridge) (out : List BridgeObs) : Prop where
  recvQ : b'.recvQ.buf = b.recvQ.buf
  half : b'.recvHalf = b.recvHalf
  sender : b'.recvQ.sender = true → b.recvQ.sender = true
  receiver : b'.recvQ.receiver = true → b.recvQ.receiver = true
  received : received out = []
  reads : reads out = []

theorem Untouched.refl (b : Bridge) : Untouched b b [] := ⟨rfl, rfl, id, id, rfl, rfl⟩

theorem Untouched.toRead {b b' : Bridge} {out : List BridgeObs} (h : Untouched b b' out) :
    b'.toRead = b.toRead := by
  rw [Bridge.toRead, Bridge.toRead, h.recvQ, h.half]

/-- The receive path is touched by `poll_read` and `recv_tx.try_send` only. -/
theorem AppStep.untouched {b b' : Bridge} {op : AppOp} {out : List BridgeObs}
    (h : AppStep b op b' out) (hop : ∀ n, op ≠ .pollRead n) : Untouched b b' out := by
  cases h with
  | read | readPending => exact absurd rfl (hop _)
  | dropRecv => exact ⟨rfl, rfl, id, nofun, rfl, rfl⟩
  | _ => exact ⟨rfl, rfl, id, id, rfl, rfl⟩

theorem LoopStep.untouched {b b' : Bridge} {op : LoopOp} {out : List BridgeObs}
    (h : LoopStep b op b' out) (hop : ∀ v, op ≠ .recvTrySend v) : Untouched b b' out := by
  cases h with
  | received | refused => exact absurd rfl (hop _)
  | dropRecvTx => exact ⟨rfl, rfl, nofun, id, rfl, rfl⟩
  | _ => exact ⟨rfl, rfl, id, id, rfl, rfl⟩

/-- What a step does to the receive path. -/
inductive ReceiveStep (b : Bridge) : BridgeOp → Bridge → List BridgeObs → Prop where
  | read {remaining data half q} (ho : b.owner = .held)
      (hr : b.recvHalf.pollRead b.recvQ remaining = (.ready data, half, q)) :
      ReceiveStep b (.app (.pollRead remaining)) { b with recvHalf := half, recvQ := q }
        [.read data]
  | readPending {remaining half q} (ho : b.owner = .held)
      (hr : b.recvHalf.pollRead b.recvQ remaining = (.pending, half, q)) :
      ReceiveStep b (.app (.pollRead remaining)) { b with recvHalf := half, recvQ := q }
        [.readPending]
  | push {v} : ReceiveStep b (.loop (.recvTrySend v)) (b.recvTrySend v).1 (b.recvTrySend v).2
  | untouched {op b' out} (hu : Untouched b b' out) : ReceiveStep b op b' out

theorem receive_cases {b b' : Bridge} {op : BridgeOp} {out : List BridgeObs}
    (hs : machine.step b op = some (b', out)) : ReceiveStep b op b' out := by
  cases op with
  | app op =>
    have ha : AppStep b op b' out := app_cases hs
    cases op with
    | pollRead remaining =>
      cases ha with
      | read ho hr => exact .read ho hr
      | readPending ho hr => exact .readPending ho hr
      | wrote hw | writeClosed hw | writeFull hw => exact absurd hw not_offers_pollRead
    | _ => exact .untouched (ha.untouched (by simp))
  | loop op =>
    have hl : b.loop op = (b', out) := Option.some.inj hs
    cases op with
    | recvTrySend v =>
      have hpush : b.recvTrySend v = (b', out) := hl
      have hstep : ReceiveStep b (.loop (.recvTrySend v)) (b.recvTrySend v).1
        (b.recvTrySend v).2 := .push
      rwa [hpush] at hstep
    | _ => exact .untouched ((loop_cases hl).untouched (by simp))

/-! ## Where the reads find the end -/

/-- The reads spell the stream that was queued, up to `k` empty reads at the closed channel. -/
def MarkedLedger (b : Bridge) (tr : List BridgeObs) : Prop :=
  ∃ k, marks (received tr) ++ List.replicate k none = marks (reads tr) ++ b.toRead ∧
    (0 < k → b.toRead = [] ∧ b.recvQ.sender = false)

theorem MarkedLedger.new : MarkedLedger Bridge.new [] := ⟨0, rfl, nofun⟩

theorem MarkedLedger.untouched {b b' : Bridge} {tr out : List BridgeObs} (h : MarkedLedger b tr)
    (hu : Untouched b b' out) : MarkedLedger b' (tr ++ out) := by
  obtain ⟨k, he, hk⟩ := h
  refine ⟨k, ?_, ?_⟩
  · rw [received_append, reads_append, hu.received, hu.reads, List.append_nil, List.append_nil,
      hu.toRead]
    exact he
  · intro h0
    obtain ⟨ht, hs⟩ := hk h0
    refine ⟨by rw [hu.toRead, ht], ?_⟩
    cases hs' : b'.recvQ.sender with
    | false => rfl
    | true =>
      rw [hu.sender hs'] at hs
      cases hs

theorem MarkedLedger.read {b b' : Bridge} {tr out : List BridgeObs} {remaining : ℕ}
    (h : MarkedLedger b tr) (hs : AppStep b (.pollRead remaining) b' out) (hn : 0 < remaining) :
    MarkedLedger b' (tr ++ out) := by
  obtain ⟨k, he, hk⟩ := h
  cases hs with
  | @read _ data half q ho hr =>
    have hends := (b.recvHalf.pollRead_ends b.recvQ remaining).2
    rw [hr] at hends
    have hrecv : received (tr ++ [.read data]) = received tr := by simp
    have hread : marks (reads (tr ++ [.read data])) = marks (reads tr) ++ marked data := by simp
    rw [toRead] at he
    obtain hm | ⟨rfl, hu, hb, rfl, rfl, hs⟩ := SlipstreamRecvHalf.pollRead_marks hr hn
    · refine ⟨k, ?_, ?_⟩
      · rw [hrecv, hread, he, hm, List.append_assoc]
        rfl
      · intro h0
        obtain ⟨ht, hs⟩ := hk h0
        rw [toRead, hm] at ht
        exact ⟨(List.append_eq_nil_iff.mp ht).2, by rw [← hs]; exact hends⟩
    · refine ⟨k + 1, ?_, fun _ => ⟨by simp [toRead, hu, hb], hs⟩⟩
      rw [hrecv, hread, List.replicate_succ', ← List.append_assoc, he]
      simp [toRead, hu, hb, marked]
  | @readPending _ half q ho hr =>
    obtain ⟨hu, hb, hs, rfl, rfl⟩ := SlipstreamRecvHalf.pollRead_pending hr
    exact ⟨k, by simpa [toRead] using he, fun h0 => hk h0⟩
  | wrote hw | writeClosed hw | writeFull hw => exact absurd hw not_offers_pollRead

theorem MarkedLedger.push {b : Bridge} {tr : List BridgeObs} (h : MarkedLedger b tr) (v : Bytes)
    (hs : b.recvQ.sender = true) :
    MarkedLedger (b.recvTrySend v).1 (tr ++ (b.recvTrySend v).2) := by
  obtain ⟨k, he, hk⟩ := h
  have hk0 : k = 0 := by
    by_contra h0
    rw [(hk (Nat.pos_of_ne_zero h0)).2] at hs
    cases hs
  subst hk0
  obtain ⟨-, hb, hv⟩ | ⟨-, hv⟩ := b.recvTrySend_cases v
  · rw [hv]
    refine ⟨0, ?_, nofun⟩
    simp only [List.replicate_zero, List.append_nil] at he
    simp [toRead, he]
  · rw [hv]
    exact ⟨0, by simpa using he, nofun⟩

theorem MarkedLedger.step {b b' : Bridge} {op : BridgeOp} {tr out : List BridgeObs}
    (h : MarkedLedger b tr) (hp : b.Proper op) (hs : machine.step b op = some (b', out)) :
    MarkedLedger b' (tr ++ out) := by
  cases receive_cases hs with
  | read ho hr => exact h.read (.read ho hr) hp
  | readPending ho hr => exact h.read (.readPending ho hr) hp
  | @push v => exact h.push v hp
  | untouched hu => exact h.untouched hu

/-- A history of chunks that leaves a bridge with what it has to read. -/
def feed (b : Bridge) : List BridgeObs :=
  (if b.recvHalf.unread = [] then b.recvQ.buf else b.recvHalf.unread :: b.recvQ.buf).map .received

theorem received_map (vs : List Bytes) : received (vs.map .received) = vs := by
  induction vs with
  | nil => rfl
  | cons v vs ih => simp [ih]

theorem reads_feed (b : Bridge) : reads b.feed = [] := by
  unfold feed
  induction (if b.recvHalf.unread = [] then b.recvQ.buf
    else b.recvHalf.unread :: b.recvQ.buf) with
  | nil => rfl
  | cons v vs ih => simp [ih]

theorem marks_feed (b : Bridge) : marks (received b.feed) = b.toRead := by
  unfold feed
  rw [received_map, toRead]
  by_cases hu : b.recvHalf.unread = []
  · rw [if_pos hu, hu]
    rfl
  · rw [if_neg hu, marks_cons, marked_of_ne hu]

theorem markedLedger_feed (b : Bridge) : b.MarkedLedger b.feed := by
  refine ⟨0, ?_, nofun⟩
  rw [reads_feed, marks_feed]
  simp

/-- Once a read has found the end, the reads before it returned what was queued before the end. -/
theorem MarkedLedger.beforeEnd_reads {b : Bridge} {tr : List BridgeObs} (h : MarkedLedger b tr)
    (hr : [] ∈ reads tr) (hq : [] ∈ received tr) :
    beforeEnd (reads tr) = beforeEnd (received tr) := by
  obtain ⟨k, he, -⟩ := h
  have hs := congrArg symbolsBeforeEnd he
  rwa [symbolsBeforeEnd_append (none_mem_marks.mpr hr), symbolsBeforeEnd_marks,
    symbolsBeforeEnd_append (none_mem_marks.mpr hq), symbolsBeforeEnd_marks, eq_comm] at hs

/-- Without a marker and with a live sender, no read finds the end. -/
theorem MarkedLedger.nil_not_mem_reads {b : Bridge} {tr : List BridgeObs} (h : MarkedLedger b tr)
    (hs : b.recvQ.sender = true) (hq : [] ∉ received tr) : [] ∉ reads tr := by
  obtain ⟨k, he, hk⟩ := h
  have hk0 : k = 0 := by
    by_contra h0
    rw [(hk (Nat.pos_of_ne_zero h0)).2] at hs
    cases hs
  rw [hk0, List.replicate_zero, List.append_nil] at he
  intro hm
  refine hq (none_mem_marks.mp ?_)
  rw [he]
  exact List.mem_append_left _ (none_mem_marks.mpr hm)

/-! ## An end on its way to the reader -/

/-- The reader has an end before it: a marker is queued, or the sender is gone. -/
def EndAhead (b : Bridge) : Prop := [] ∈ b.recvQ.buf ∨ b.recvQ.sender = false

end Bridge

theorem SlipstreamRecvHalf.pollRead_marker {half half' : SlipstreamRecvHalf}
    {q q' : Channel Bytes recvCapacity} {remaining : ℕ} {r : Poll Bytes}
    (h : half.pollRead q remaining = (r, half', q')) (hm : [] ∈ q.buf) :
    [] ∈ q'.buf ∨ r = .ready [] := by
  unfold pollRead at h
  by_cases hp : half.pendingOff < half.pending.length
  · simp only [if_pos hp, Prod.mk.injEq] at h
    rw [← h.2.2]
    exact .inl hm
  · rw [if_neg hp] at h
    obtain ⟨v, rest, hb, hq⟩ | ⟨hb, -, hq⟩ | ⟨hb, -, hq⟩ := q.pollRecv_cases
    · simp only [hq] at h
      by_cases hv : v = []
      · subst hv
        simp only [List.isEmpty_nil, if_true, Prod.mk.injEq] at h
        exact .inr h.1.symm
      · have hv' : v.isEmpty = false := by simpa using hv
        simp only [hv', Bool.false_eq_true, if_false, Prod.mk.injEq] at h
        have hr : [] ∈ rest := by
          rw [hb] at hm
          exact (List.mem_cons.mp hm).resolve_left (Ne.symm hv)
        rw [← h.2.2, Channel.pop_buf, hb]
        exact .inl hr
    all_goals
      rw [hb] at hm
      cases hm

namespace Bridge

/-- An end stays ahead until a read returns nothing. -/
theorem EndAhead.step {b b' : Bridge} {op : BridgeOp} {out : List BridgeObs} (h : EndAhead b)
    (hs : machine.step b op = some (b', out)) : EndAhead b' ∨ [] ∈ reads out := by
  cases receive_cases hs with
  | @read remaining data half q ho hr =>
    have hsend := (b.recvHalf.pollRead_ends b.recvQ remaining).2
    rw [hr] at hsend
    obtain hm | hd := h
    · refine (SlipstreamRecvHalf.pollRead_marker hr hm).imp .inl fun hd => ?_
      cases hd
      simp
    · exact .inl (.inr (hsend.trans hd))
  | readPending ho hr =>
    obtain ⟨-, hb, hlive, -, -⟩ := SlipstreamRecvHalf.pollRead_pending hr
    obtain hm | hd := h
    · rw [hb] at hm
      cases hm
    · rw [hlive] at hd
      cases hd
  | @push v =>
    obtain ⟨-, _, hv⟩ | ⟨-, hv⟩ := b.recvTrySend_cases v <;> rw [hv]
    · exact .inl (h.imp (fun hm => by simp [hm]) id)
    · exact .inl h
  | untouched hu =>
    refine .inl (h.imp (fun hm => by rwa [hu.recvQ]) fun hd => ?_)
    cases hs' : b'.recvQ.sender with
    | false => rfl
    | true =>
      rw [hu.sender hs'] at hd
      cases hd

theorem step_pollRead {b : Bridge} (ho : b.owner = .held) (n : ℕ) :
    machine.step b (.app (.pollRead n)) = some (b.pollRead n) := if_pos ho

theorem reads_run {b : Bridge} (ho : b.owner = .held) (ns : List ℕ) :
    ∃ b' tr, machine.run b (ns.map fun n => .app (.pollRead n)) = some (b', tr) := by
  induction ns generalizing b with
  | nil => exact ⟨b, [], rfl⟩
  | cons n ns ih =>
    have hs := step_pollRead ho n
    have ho' : (b.pollRead n).1.owner = .held := by
      unfold pollRead
      split <;> exact ho
    obtain ⟨b', tr, hr⟩ := ih ho'
    exact ⟨b', _, (Machine.run_cons_iff ..).mpr ⟨_, _, tr, hs, hr, rfl⟩⟩

/-- A reader with an end ahead gets it after the bytes before it, and meets no pending read on the
way: as many reads as there are bytes, and one more, are always enough, not counting those that
tokio turns away for want of budget. -/
theorem EndAhead.drain {b : Bridge} (h : EndAhead b) (ho : b.owner = .held) {ns : List ℕ}
    (hn : ∀ n ∈ ns, 0 < n) (hl : (symbolsBeforeEnd b.toRead).length < ns.length) :
    ∃ b' tr, machine.run b (ns.map fun n => .app (.pollRead n)) = some (b', tr) ∧
      [] ∈ reads tr ∧ beforeEnd (reads tr) = symbolsBeforeEnd b.toRead := by
  induction ns generalizing b with
  | nil => exact absurd hl (Nat.not_lt_zero _)
  | cons n ns ih =>
    have hn0 : 0 < n := hn n List.mem_cons_self
    rcases hr : b.recvHalf.pollRead b.recvQ n with ⟨data | -, half, q⟩
    · have hs : machine.step b (.app (.pollRead n)) =
          some ({ b with recvHalf := half, recvQ := q }, [.read data]) := by
        rw [step_pollRead ho, pollRead, hr]
      by_cases hd : data = []
      · -- this is the end
        subst hd
        obtain ⟨b', tr, hrun⟩ :=
          reads_run (b := { b with recvHalf := half, recvQ := q }) ho ns
        refine ⟨b', _, (Machine.run_cons_iff ..).mpr ⟨_, _, tr, hs, hrun, rfl⟩, by simp, ?_⟩
        have he : symbolsBeforeEnd b.toRead = [] := by
          obtain hm | ⟨-, hu, hb, -⟩ := SlipstreamRecvHalf.pollRead_marks hr hn0
          · rw [toRead, hm]
            rfl
          · simp [toRead, hu, hb, symbolsBeforeEnd]
        rw [he]
        simp [beforeEnd]
      · obtain hm | ⟨hd', -⟩ := SlipstreamRecvHalf.pollRead_marks hr hn0
        · have hsym : symbolsBeforeEnd b.toRead = data ++
              symbolsBeforeEnd ({ b with recvHalf := half, recvQ := q } : Bridge).toRead := by
            rw [toRead, hm, marked_of_ne hd, symbolsBeforeEnd_map_some]
            rfl
          have hahead : EndAhead { b with recvHalf := half, recvQ := q } := by
            apply (h.step hs).resolve_right
            simpa using Ne.symm hd
          have hpos : 0 < data.length := List.length_pos_of_ne_nil hd
          rw [hsym, List.length_append, List.length_cons] at hl
          obtain ⟨b', tr, hrun, hmem, hbe⟩ := ih hahead ho
            (fun m hm => hn m (List.mem_cons_of_mem _ hm)) (by omega)
          refine ⟨b', _, (Machine.run_cons_iff ..).mpr ⟨_, _, tr, hs, hrun, rfl⟩, ?_, ?_⟩
          · simp [hmem]
          · rw [hsym, ← hbe]
            simp [beforeEnd, hd]
        · exact absurd hd' hd
    · obtain ⟨-, hb, hs, -⟩ := SlipstreamRecvHalf.pollRead_pending hr
      obtain hm | hm := h
      · rw [hb] at hm
        cases hm
      · rw [hs] at hm
        cases hm

/-- The reader, if there still is one, has an end before it or has read one. -/
def EndSeen (b : Bridge) (tr : List BridgeObs) : Prop :=
  b.owner = .held → b.EndAhead ∨ [] ∈ reads tr

theorem EndSeen.step {b b' : Bridge} {op : BridgeOp} {tr out : List BridgeObs} (h : EndSeen b tr)
    (hs : machine.step b op = some (b', out)) : EndSeen b' (tr ++ out) := by
  intro ho
  have hb : b.owner = .held := by
    by_contra hn
    exact not_held_step hn hs ho
  rw [reads_append]
  obtain ha | hr := h hb
  · exact (ha.step hs).imp_right (List.mem_append_right _)
  · exact .inr (List.mem_append_left _ hr)

theorem EndSeen.run {b b' : Bridge} {ops : List BridgeOp} {tr out : List BridgeObs}
    (h : EndSeen b tr) (hr : machine.run b ops = some (b', out)) : EndSeen b' (tr ++ out) :=
  Machine.run_induction EndSeen (fun _ _ _ _ _ hi _ hs => hi.step hs) hr (Machine.Along.true _ _) h

/-- A marker gets into the queue when there is room for it. -/
theorem recvTrySend_end {b : Bridge} (hr : b.recvQ.receiver = true) :
    (b.recvTrySend []).1.EndAhead ↔ b.recvQ.buf.length < recvCapacity ∨ b.EndAhead := by
  obtain ⟨-, hb, hv⟩ | ⟨hf, hv⟩ := b.recvTrySend_cases []
  · rw [hv]
    exact ⟨fun _ => .inl hb, fun _ => .inl (by simp)⟩
  · have hn : ¬ b.recvQ.buf.length < recvCapacity := by
      obtain hf | hf := hf
      · rw [hr] at hf
        cases hf
      · omega
    rw [hv]
    exact ⟨.inr, fun h => h.resolve_left hn⟩

theorem endSeen_push {b : Bridge} {tr out : List BridgeObs} (hb : b.Owned) (hn : reads out = []) :
    EndSeen (b.recvTrySend []).1 (tr ++ out) ↔
      (b.owner = .held → b.recvQ.buf.length < recvCapacity ∨ b.EndAhead ∨ [] ∈ reads tr) := by
  have ho := (b.loop_step (.recvTrySend [])).owner
  rw [loop] at ho
  rw [EndSeen, ho, reads_append, hn, List.append_nil]
  apply imp_congr_right
  intro hh
  rw [recvTrySend_end (hb.recv.mpr hh), or_assoc]

/-! ## What the callbacks offer is what is queued -/

/-- Of the chunks that were offered, those that `keep` selects were queued, in order, apart from
`next`; once the receiver is dropped, a front of them. -/
structure Fed (keep : Bytes → Bool) (b : Bridge) (tr : List BridgeObs)
    (offered next : List Bytes) : Prop where
  front : (received tr).filter keep <+: offered
  all : b.recvQ.receiver = true → (received tr).filter keep ++ next = offered

variable {keep : Bytes → Bool} {b b' : Bridge} {tr out : List BridgeObs}
  {offered next : List Bytes}

theorem Fed.new : Fed keep Bridge.new [] [] [] := ⟨List.prefix_rfl, fun _ => rfl⟩

theorem Fed.quiet (h : Fed keep b tr offered next) (hr : received out = [])
    (hd : b'.recvQ.receiver = true → b.recvQ.receiver = true) :
    Fed keep b' (tr ++ out) offered next := by
  have he : received (tr ++ out) = received tr := by rw [received_append, hr, List.append_nil]
  exact ⟨by rw [he]; exact h.front, fun hb => by rw [he]; exact h.all (hd hb)⟩

theorem Fed.app {op : AppOp} (h : Fed keep b tr offered next) (hs : AppStep b op b' out) :
    Fed keep b' (tr ++ out) offered next := by
  cases hs with
  | @read remaining data half q ho hr | @readPending remaining half q ho hr =>
    have he := (b.recvHalf.pollRead_ends b.recvQ remaining).1
    rw [hr] at he
    apply h.quiet rfl
    intro hb
    rw [← he]
    exact hb
  | dropRecv => exact h.quiet rfl nofun
  | _ => exact h.quiet rfl id

theorem AppStep.received {op : AppOp} (h : AppStep b op b' out) : received out = [] := by
  cases h <;> rfl

theorem AppStep.recvQ_nil {op : AppOp} (h : AppStep b op b' out) (hq : b.recvQ.buf = []) :
    b'.recvQ.buf = [] := by
  cases h with
  | @read remaining data half q ho hr | @readPending remaining half q ho hr =>
    have hb : (b.recvHalf.pollRead b.recvQ remaining).2.2.buf = [] := by
      unfold SlipstreamRecvHalf.pollRead
      obtain ⟨v, rest, hc, -⟩ | ⟨-, -, hc⟩ | ⟨-, -, hc⟩ := b.recvQ.pollRecv_cases
      · rw [hq] at hc
        cases hc
      · rw [hc]
        split <;> simp [hq]
      · rw [hc]
        split <;> simp [hq]
    rw [hr] at hb
    exact hb
  | _ => exact hq

theorem Fed.untouched (h : Fed keep b tr offered next) (hu : Untouched b b' out) :
    Fed keep b' (tr ++ out) offered next := h.quiet hu.received hu.receiver

theorem Fed.offer (h : Fed keep b tr offered []) (v : Bytes) :
    Fed keep b tr (offered ++ [v].filter keep) ([v].filter keep) where
  front := h.front.trans (List.prefix_append _ _)
  all hb := by rw [← h.all hb, List.append_nil]

/-- The chunk on offer is queued, if it is one that counts and there is room. -/
theorem Fed.push {v : Bytes} (h : Fed keep b tr offered ([v].filter keep))
    (hr : keep v = true → b.recvQ.buf.length < recvCapacity) :
    Fed keep (b.recvTrySend v).1 (tr ++ (b.recvTrySend v).2) offered [] := by
  obtain ⟨hb, _, hv⟩ | ⟨hf, hv⟩ := b.recvTrySend_cases v
  · have he : (received (tr ++ [.received v])).filter keep = offered := by
      rw [← h.all hb]
      simp
    rw [hv]
    exact ⟨by rw [he], fun _ => by rw [List.append_nil, he]⟩
  · have he : received (tr ++ [.refused v]) = received tr := by simp
    rw [hv]
    refine ⟨by rw [he]; exact h.front, fun hb => ?_⟩
    -- with the receiver alive the queue was full, so this chunk does not count
    have hk : keep v ≠ true := by
      intro hk
      have hroom := hr hk
      obtain hf | hf := hf
      · rw [hb] at hf
        cases hf
      · omega
    have ha := h.all hb
    simpa [hk] using ha

end Bridge
end TransportProxy.Slipstream
