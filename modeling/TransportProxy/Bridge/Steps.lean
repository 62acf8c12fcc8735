import TransportProxy.Bridge.Halves

/-! # What one operation of a bridge can do

`AppStep` lists the paths through the polls of the async side and `LoopStep` those through the
operations of the packet loop; `app_cases` and `loop_cases` show that there are no others.
-/
namespace TransportProxy.Slipstream
open Foundations
set_option autoImplicit false

namespace Bridge

/-- The chunk that a step of `poll_write` is about to put into the send queue. -/
def Offers (b : Bridge) (op : AppOp) (toSend : Bytes × ℕ) : Prop :=
  (∃ buf, op = .pollWrite buf ∧ b.owner = .held ∧ b.writer.returned = true ∧
    toSend = b.sendHalf.pendingSend.getD (buf, buf.length)) ∨
  (op = .pollWriteRetry ∧ b.writer = .retry toSend)

theorem not_offers_pollRead {b : Bridge} {remaining : ℕ} {toSend : Bytes × ℕ} :
    ¬ b.Offers (.pollRead remaining) toSend := by
  rintro (⟨buf, h, -⟩ | ⟨h, -⟩) <;> cases h

inductive AppStep (b : Bridge) : AppOp → Bridge → List BridgeObs → Prop where
  | read {remaining data half q} (ho : b.owner = .held)
      (hr : b.recvHalf.pollRead b.recvQ remaining = (.ready data, half, q)) :
      AppStep b (.pollRead remaining) { b with recvHalf := half, recvQ := q } [.read data]
  | readPending {remaining half q} (ho : b.owner = .held)
      (hr : b.recvHalf.pollRead b.recvQ remaining = (.pending, half, q)) :
      AppStep b (.pollRead remaining) { b with recvHalf := half, recvQ := q } [.readPending]
  | wrote {op toSend} (hw : b.Offers op toSend) (hr : b.sendQ.receiver = true)
      (hb : b.sendQ.buf.length < sendCapacity) :
      AppStep b op
        { b with sendQ := b.sendQ.push toSend.1 hb, sendHalf := ⟨none⟩, writer := .idle }
        [.queued toSend.1, .wrote toSend.2]
  | writeClosed {op toSend} (hw : b.Offers op toSend) (hr : b.sendQ.receiver = false) :
      AppStep b op { b with sendHalf := ⟨none⟩, writer := .idle } [.writeError .brokenPipe]
  | writeFull {op toSend} (hw : b.Offers op toSend) (hr : b.sendQ.receiver = true)
      (hb : b.sendQ.buf.length = sendCapacity) :
      AppStep b op { b with sendHalf := ⟨some toSend⟩, writer := .full } []
  | wakeToken {toSend rest} (hw : b.writer = .full) (hp : b.sendHalf.pendingSend = some toSend)
      (hb : b.wakeQ.buf = () :: rest) :
      AppStep b .pollWriteWake
        { b with wakeQ := b.wakeQ.pop, sendHalf := ⟨none⟩, writer := .retry toSend } []
  | wakeClosed (hw : b.writer = .full) (hb : b.wakeQ.buf = []) (hs : b.wakeQ.sender = false) :
      AppStep b .pollWriteWake { b with writer := .idle } [.writeError .connectionReset]
  | wakeWait (hw : b.writer = .full) (hb : b.wakeQ.buf = []) (hs : b.wakeQ.sender = true) :
      AppStep b .pollWriteWake { b with wakeQ := b.wakeQ.wait, writer := .parked } [.writePending]
  | flush (ho : b.owner = .held) (hw : b.writer.returned = true) :
      AppStep b .pollFlush b [.flushed]
  | shutdown (ho : b.owner = .held) (hw : b.writer.returned = true)
      (hr : b.sendQ.receiver = true) (hb : b.sendQ.buf.length < sendCapacity) :
      AppStep b .pollShutdown { b with sendQ := b.sendQ.push [] hb } [.queued [], .shutdown]
  | shutdownLost (ho : b.owner = .held) (hw : b.writer.returned = true)
      (hr : b.sendQ.receiver = false ∨ b.sendQ.buf.length = sendCapacity) :
      AppStep b .pollShutdown b [.shutdown]
  | dropRecv (hw : b.writer.returned = true) (ho : b.owner = .held) :
      AppStep b .dropStream { b with recvQ := b.recvQ.dropReceiver, owner := .recvDropped } []
  | dropSend (hw : b.writer.returned = true) (ho : b.owner = .recvDropped) :
      AppStep b .dropStream { b with sendQ := b.sendQ.dropSender, owner := .sendDropped } []
  | dropWake (hw : b.writer.returned = true) (ho : b.owner = .sendDropped) :
      AppStep b .dropStream { b with wakeQ := b.wakeQ.dropReceiver, owner := .gone } []

theorem writeTrySend_cases {b : Bridge} {op : AppOp} {toSend : Bytes × ℕ}
    (hw : b.Offers op toSend) :
    AppStep b op (b.writeTrySend toSend).1 (b.writeTrySend toSend).2 := by
  unfold writeTrySend
  obtain ⟨hr, h⟩ | ⟨hr, hb, h⟩ | ⟨hr, hb, h⟩ := b.sendQ.trySend_cases toSend.1
  · rw [h]
    exact .writeClosed hw hr
  · rw [h]
    exact .wrote hw hr hb
  · rw [h]
    exact .writeFull hw hr hb

theorem pollWriteWake_cases {b b' : Bridge} {out : List BridgeObs} (hw : b.writer = .full)
    (h : b.pollWriteWake = some (b', out)) : AppStep b .pollWriteWake b' out := by
  unfold pollWriteWake at h
  obtain ⟨u, rest, hb, hq⟩ | ⟨hb, hs, hq⟩ | ⟨hb, hs, hq⟩ := b.wakeQ.pollRecv_cases
  · cases u
    simp only [hq, Option.map_eq_some_iff, Prod.mk.injEq] at h
    obtain ⟨toSend, hp, rfl, rfl⟩ := h
    exact .wakeToken hw hp hb
  · simp only [hq, Option.some.injEq, Prod.mk.injEq] at h
    obtain ⟨rfl, rfl⟩ := h
    exact .wakeWait hw hb hs
  · simp only [hq, Option.some.injEq, Prod.mk.injEq] at h
    obtain ⟨rfl, rfl⟩ := h
    exact .wakeClosed hw hb hs

theorem pollShutdown_cases {b : Bridge} (ho : b.owner = .held) (hw : b.writer.returned = true) :
    AppStep b .pollShutdown b.pollShutdown.1 b.pollShutdown.2 := by
  unfold pollShutdown
  obtain ⟨hr, h⟩ | ⟨hr, hb, h⟩ | ⟨hr, hb, h⟩ := b.sendQ.trySend_cases []
  · rw [h]
    exact .shutdownLost ho hw (.inl hr)
  · rw [h]
    exact .shutdown ho hw hr hb
  · rw [h]
    exact .shutdownLost ho hw (.inr hb)

theorem app_cases {b b' : Bridge} {op : AppOp} {out : List BridgeObs}
    (h : b.app op = some (b', out)) : AppStep b op b' out := by
  cases op with
  | pollRead remaining =>
    simp only [app, Option.ite_none_right_eq_some, Option.some.injEq, pollRead] at h
    obtain ⟨ho, h⟩ := h
    rcases hr : b.recvHalf.pollRead b.recvQ remaining with ⟨data | -, half, q⟩
    · simp only [hr, Prod.mk.injEq] at h
      obtain ⟨rfl, rfl⟩ := h
      exact .read ho hr
    · simp only [hr, Prod.mk.injEq] at h
      obtain ⟨rfl, rfl⟩ := h
      exact .readPending ho hr
  | pollWrite buf =>
    simp only [app, Option.ite_none_right_eq_some, Option.some.injEq] at h
    obtain ⟨⟨ho, hw⟩, h⟩ := h
    have hs := writeTrySend_cases (b := b) (.inl ⟨buf, rfl, ho, hw, rfl⟩)
    rwa [← pollWrite, h] at hs
  | pollWriteWake =>
    simp only [app, Option.ite_none_right_eq_some] at h
    exact pollWriteWake_cases h.1 h.2
  | pollWriteRetry =>
    cases hw : b.writer <;> simp only [app, hw, reduceCtorEq, Option.some.injEq] at h
    have hs := writeTrySend_cases (b := b) (.inr ⟨rfl, hw⟩)
    rwa [h] at hs
  | pollFlush =>
    simp only [app, Option.ite_none_right_eq_some, Option.some.injEq, Prod.mk.injEq] at h
    obtain ⟨⟨ho, hw⟩, rfl, rfl⟩ := h
    exact .flush ho hw
  | pollShutdown =>
    simp only [app, Option.ite_none_right_eq_some, Option.some.injEq] at h
    have hs := pollShutdown_cases h.1.1 h.1.2
    rwa [h.2] at hs
  | dropStream =>
    simp only [app, Option.ite_none_right_eq_some, dropStream] at h
    obtain ⟨hw, h⟩ := h
    cases ho : b.owner <;> simp only [ho, Option.some.injEq, Prod.mk.injEq, reduceCtorEq] at h <;>
      obtain ⟨rfl, rfl⟩ := h
    · exact .dropRecv hw ho
    · exact .dropSend hw ho
    · exact .dropWake hw ho

/-! ## The packet-loop side -/

theorem recvTrySend_cases (b : Bridge) (v : Bytes) :
    (b.recvQ.receiver = true ∧ ∃ h : b.recvQ.buf.length < recvCapacity,
      b.recvTrySend v = ({ b with recvQ := b.recvQ.push v h }, [.received v])) ∨
    ((b.recvQ.receiver = false ∨ b.recvQ.buf.length = recvCapacity) ∧
      b.recvTrySend v = (b, [.refused v])) := by
  unfold recvTrySend
  obtain ⟨hr, h⟩ | ⟨hr, hb, h⟩ | ⟨hr, hb, h⟩ := b.recvQ.trySend_cases v
  · exact .inr ⟨.inl hr, by rw [h]⟩
  · exact .inl ⟨hr, hb, by rw [h]⟩
  · exact .inr ⟨.inr hb, by rw [h]⟩

theorem sendTryRecv_cases (b : Bridge) :
    (∃ v rest, b.sendQ.buf = v :: rest ∧
      b.sendTryRecv = (.ok v, { b with sendQ := b.sendQ.pop }, [.popped v])) ∨
    (b.sendQ.buf = [] ∧ b.sendQ.sender = true ∧ b.sendTryRecv = (.error .empty, b, [])) ∨
    (b.sendQ.buf = [] ∧ b.sendQ.sender = false ∧
      b.sendTryRecv = (.error .disconnected, b, [])) := by
  unfold sendTryRecv
  obtain ⟨v, rest, hb, h⟩ | ⟨hb, hs, h⟩ | ⟨hb, hs, h⟩ := b.sendQ.tryRecv_cases
  · exact .inl ⟨v, rest, hb, by rw [h]⟩
  · exact .inr (.inl ⟨hb, hs, by rw [h]⟩)
  · exact .inr (.inr ⟨hb, hs, by rw [h]⟩)

theorem sendTryRecv_of_buf {b : Bridge} {v : Bytes} (h : b.sendQ.buf = v :: b.sendQ.buf.tail) :
    b.sendTryRecv = (.ok v, { b with sendQ := b.sendQ.pop }, [.popped v]) := by
  obtain ⟨w, rest, hb, hw⟩ | ⟨hb, -⟩ | ⟨hb, -⟩ := b.sendTryRecv_cases
  · rw [h] at hb
    rw [hw, (List.cons.inj hb).1]
  all_goals
    rw [h] at hb
    cases hb

/-- Conversely, the result of `try_recv` tells what the queue was. -/
theorem sendTryRecv_ok {b b' : Bridge} {v : Bytes} {out : List BridgeObs}
    (h : b.sendTryRecv = (.ok v, b', out)) :
    b.sendQ.buf = v :: b.sendQ.buf.tail ∧ b' = { b with sendQ := b.sendQ.pop } := by
  obtain ⟨w, rest, hb, hw⟩ | ⟨-, -, hw⟩ | ⟨-, -, hw⟩ := b.sendTryRecv_cases
  · rw [hw] at h
    simp only [Prod.mk.injEq, Except.ok.injEq] at h
    obtain ⟨rfl, rfl, -⟩ := h
    exact ⟨by rw [hb, List.tail_cons], rfl⟩
  all_goals
    rw [hw] at h
    simp at h

theorem sendTryRecv_disconnected {b : Bridge}
    (h : b.sendTryRecv.1 = .error .disconnected) : b.sendQ.buf = [] ∧ b.sendQ.sender = false := by
  obtain ⟨w, rest, -, hw⟩ | ⟨-, -, hw⟩ | ⟨hb, hs, -⟩ := b.sendTryRecv_cases
  · rw [hw] at h
    cases h
  · rw [hw] at h
    cases h
  · exact ⟨hb, hs⟩

theorem sendTryRecv_empty {b : Bridge} (h : b.sendTryRecv.1 = .error .empty) :
    b.sendQ.buf = [] := by
  obtain ⟨w, rest, -, hw⟩ | ⟨hb, -⟩ | ⟨hb, -⟩ := b.sendTryRecv_cases
  · rw [hw] at h
    cases h
  · exact hb
  · exact hb

theorem wakeTrySend_cases (b : Bridge) :
    (b.wakeQ.receiver = true ∧ ∃ h : b.wakeQ.buf.length < wakeCapacity,
      b.wakeTrySend = ({ b with wakeQ := b.wakeQ.push () h },
        .token :: if b.wakeQ.waker then [.woken] else [])) ∨
    ((b.wakeQ.receiver = false ∨ b.wakeQ.buf.length = wakeCapacity) ∧
      b.wakeTrySend = (b, [])) := by
  unfold wakeTrySend
  obtain ⟨hr, h⟩ | ⟨hr, hb, h⟩ | ⟨hr, hb, h⟩ := b.wakeQ.trySend_cases ()
  · exact .inr ⟨.inl hr, by rw [h]⟩
  · exact .inl ⟨hr, hb, by rw [h]⟩
  · exact .inr ⟨.inr hb, by rw [h]⟩

inductive LoopStep (b : Bridge) : LoopOp → Bridge → List BridgeObs → Prop where
  | received {v} (hr : b.recvQ.receiver = true) (hb : b.recvQ.buf.length < recvCapacity) :
      LoopStep b (.recvTrySend v) { b with recvQ := b.recvQ.push v hb } [.received v]
  | refused {v} (hr : b.recvQ.receiver = false ∨ b.recvQ.buf.length = recvCapacity) :
      LoopStep b (.recvTrySend v) b [.refused v]
  | taken {v rest} (hb : b.sendQ.buf = v :: rest) :
      LoopStep b .sendTryRecv { b with sendQ := b.sendQ.pop } [.popped v]
  | empty (hb : b.sendQ.buf = []) : LoopStep b .sendTryRecv b []
  | token (hr : b.wakeQ.receiver = true) (hb : b.wakeQ.buf.length < wakeCapacity)
      (hw : b.wakeQ.waker = false) :
      LoopStep b .wakeTrySend { b with wakeQ := b.wakeQ.push () hb } [.token]
  | tokenWoken (hr : b.wakeQ.receiver = true) (hb : b.wakeQ.buf.length < wakeCapacity)
      (hw : b.wakeQ.waker = true) :
      LoopStep b .wakeTrySend { b with wakeQ := b.wakeQ.push () hb } [.token, .woken]
  | tokenLost (hr : b.wakeQ.receiver = false ∨ b.wakeQ.buf.length = wakeCapacity) :
      LoopStep b .wakeTrySend b []
  | dropRecvTx : LoopStep b .dropRecvTx b.dropRecvTx []
  | dropSendRx : LoopStep b .dropSendRx b.dropSendRx []
  | dropWakeTx (hw : b.wakeQ.waker = false) : LoopStep b .dropWakeTx b.dropWakeTx.1 []
  | dropWakeTxWoken (hw : b.wakeQ.waker = true) :
      LoopStep b .dropWakeTx b.dropWakeTx.1 [.woken]

/-- The packet loop takes the steps of the list, and no others. -/
theorem loop_cases {b b' : Bridge} {op : LoopOp} {out : List BridgeObs}
    (h : b.loop op = (b', out)) : LoopStep b op b' out := by
  cases op with
  | recvTrySend v =>
    obtain ⟨hr, hb, hv⟩ | ⟨hr, hv⟩ := b.recvTrySend_cases v
    · rw [loop, hv] at h
      obtain ⟨rfl, rfl⟩ := Prod.mk.inj h
      exact .received hr hb
    · rw [loop, hv] at h
      obtain ⟨rfl, rfl⟩ := Prod.mk.inj h
      exact .refused hr
  | sendTryRecv =>
    obtain ⟨v, rest, hb, hv⟩ | ⟨hb, -, hv⟩ | ⟨hb, -, hv⟩ := b.sendTryRecv_cases
    · rw [loop, hv] at h
      obtain ⟨rfl, rfl⟩ := Prod.mk.inj h
      exact .taken hb
    · rw [loop, hv] at h
      obtain ⟨rfl, rfl⟩ := Prod.mk.inj h
      exact .empty hb
    · rw [loop, hv] at h
      obtain ⟨rfl, rfl⟩ := Prod.mk.inj h
      exact .empty hb
  | wakeTrySend =>
    obtain ⟨hr, hb, hv⟩ | ⟨hr, hv⟩ := b.wakeTrySend_cases
    · rw [loop, hv] at h
      obtain ⟨rfl, rfl⟩ := Prod.mk.inj h
      cases hw : b.wakeQ.waker with
      | true => exact .tokenWoken hr hb hw
      | false => exact .token hr hb hw
    · rw [loop, hv] at h
      obtain ⟨rfl, rfl⟩ := Prod.mk.inj h
      exact .tokenLost hr
  | dropRecvTx =>
    obtain ⟨rfl, rfl⟩ := Prod.mk.inj h
    exact .dropRecvTx
  | dropSendRx =>
    obtain ⟨rfl, rfl⟩ := Prod.mk.inj h
    exact .dropSendRx
  | dropWakeTx =>
    obtain ⟨rfl, rfl⟩ := Prod.mk.inj h
    cases hw : b.wakeQ.waker with
    | true => exact .dropWakeTxWoken hw
    | false => exact .dropWakeTx hw

theorem loop_step (b : Bridge) (op : LoopOp) : LoopStep b op (b.loop op).1 (b.loop op).2 :=
  loop_cases rfl

end Bridge
end TransportProxy.Slipstream
