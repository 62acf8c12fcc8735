import TransportProxy.Bridge.Steps

/-! # What goes in and comes out of a bridge

Both queues are first in, first out, and `poll_read` only cuts chunks, so in any run of a bridge, in
any order of its two sides:

* the entries put into the send queue are those taken out of it, followed by those still in it;
* the bytes put into the receive queue are those read, followed by the unread rest of `pending`,
  followed by those still queued.

Nothing is assumed of the run. What the code may lose, it loses outside of the channels: a refused
`try_send` on one side, an entry that the packet loop took and did not hand over on the other.
-/
namespace TransportProxy.Slipstream
open Foundations
set_option autoImplicit false

/-! ## Reading a trace -/

@[simp] def BridgeObs.queued? : BridgeObs → Option Bytes
  | .queued v => some v
  | _ => none

@[simp] def BridgeObs.popped? : BridgeObs → Option Bytes
  | .popped v => some v
  | _ => none

@[simp] def BridgeObs.received? : BridgeObs → Option Bytes
  | .received v => some v
  | _ => none

@[simp] def BridgeObs.read? : BridgeObs → Option Bytes
  | .read data => some data
  | _ => none

/-- The entries that entered the send queue. -/
def queued (tr : List BridgeObs) : List Bytes := tr.filterMap BridgeObs.queued?

/-- The entries the packet loop took from the send queue. -/
def popped (tr : List BridgeObs) : List Bytes := tr.filterMap BridgeObs.popped?

/-- The chunks that entered the receive queue. -/
def received (tr : List BridgeObs) : List Bytes := tr.filterMap BridgeObs.received?

/-- What the completed reads returned, one entry a read. -/
def reads (tr : List BridgeObs) : List Bytes := tr.filterMap BridgeObs.read?

@[simp] theorem queued_nil : queued [] = [] := rfl
@[simp] theorem popped_nil : popped [] = [] := rfl
@[simp] theorem received_nil : received [] = [] := rfl
@[simp] theorem reads_nil : reads [] = [] := rfl

section Cons
variable (o : BridgeObs) (t : List BridgeObs)

@[simp] theorem queued_cons : queued (o :: t) = o.queued?.toList ++ queued t :=
  filterMap_cons_toList ..

@[simp] theorem popped_cons : popped (o :: t) = o.popped?.toList ++ popped t :=
  filterMap_cons_toList ..

@[simp] theorem received_cons : received (o :: t) = o.received?.toList ++ received t :=
  filterMap_cons_toList ..

@[simp] theorem reads_cons : reads (o :: t) = o.read?.toList ++ reads t :=
  filterMap_cons_toList ..

end Cons

@[simp] theorem queued_append (t u : List BridgeObs) : queued (t ++ u) = queued t ++ queued u :=
  List.filterMap_append ..

@[simp] theorem popped_append (t u : List BridgeObs) : popped (t ++ u) = popped t ++ popped u :=
  List.filterMap_append ..

@[simp] theorem received_append (t u : List BridgeObs) :
    received (t ++ u) = received t ++ received u := List.filterMap_append ..

@[simp] theorem reads_append (t u : List BridgeObs) : reads (t ++ u) = reads t ++ reads u :=
  List.filterMap_append ..

/-! ## One step -/

theorem SlipstreamRecvHalf.take_unread (half : SlipstreamRecvHalf) (remaining : ℕ) :
    (half.take remaining).1 ++ (half.take remaining).2.unread = half.unread := by
  simp only [take, unread]
  set n := min (half.pending.length - half.pendingOff) remaining with hn
  by_cases h : half.pending.length ≤ half.pendingOff + n
  · have hall : (half.pending.drop half.pendingOff).length ≤ n := by
      rw [List.length_drop]
      omega
    rw [if_pos h, List.take_of_length_le hall]
    simp
  · rw [if_neg h, ← List.drop_drop, List.take_append_drop]

/-- Every read moves bytes from the front of what is unread to the reader. -/
theorem SlipstreamRecvHalf.pollRead_conserves (half : SlipstreamRecvHalf)
    (q : Channel Bytes recvCapacity) (remaining : ℕ) :
    match half.pollRead q remaining with
    | (.ready data, half', q') =>
      half.unread ++ q.buf.flatten = data ++ (half'.unread ++ q'.buf.flatten)
    | (.pending, half', q') => half'.unread ++ q'.buf.flatten = half.unread ++ q.buf.flatten := by
  unfold pollRead
  by_cases hp : half.pendingOff < half.pending.length
  · simp only [if_pos hp]
    rw [← half.take_unread remaining, List.append_assoc]
  · have hu : half.unread = [] := List.drop_eq_nil_of_le (Nat.le_of_not_lt hp)
    obtain ⟨v, rest, hb, hq⟩ | ⟨hb, -, hq⟩ | ⟨hb, -, hq⟩ := q.pollRecv_cases
    · simp only [if_neg hp, hq]
      by_cases hv : v = []
      · subst hv
        simp [hb]
      · have htake := (⟨v, 0⟩ : SlipstreamRecvHalf).take_unread remaining
        have hv' : v.isEmpty = false := by simpa using hv
        simp only [hv', Bool.false_eq_true, if_false, hu, List.nil_append, hb, List.flatten_cons,
          Channel.pop_buf, List.tail_cons]
        rw [← List.append_assoc, htake]
        rfl
    · simp [if_neg hp, hq]
    · simp [if_neg hp, hq]

namespace Bridge

/-- The bytes that are still to be read: the rest of `pending`, then the queue. -/
def unread (b : Bridge) : Bytes := b.recvHalf.unread ++ b.recvQ.buf.flatten

@[simp] theorem unread_new : new.unread = [] := rfl

/-- What a step does to the two queues, seen from outside. -/
structure Conserves (b b' : Bridge) (out : List BridgeObs) : Prop where
  send : b.sendQ.buf ++ queued out = popped out ++ b'.sendQ.buf
  recv : b.unread ++ (received out).flatten = (reads out).flatten ++ b'.unread

theorem Conserves.of_eq {b b' : Bridge} {out : List BridgeObs} (hs : b'.sendQ.buf = b.sendQ.buf)
    (hr : b'.recvQ.buf = b.recvQ.buf) (hh : b'.recvHalf = b.recvHalf) (hq : queued out = [])
    (hp : popped out = []) (hv : received out = []) (hd : reads out = []) :
    Conserves b b' out := by
  constructor
  · simp [hq, hp, hs]
  · simp [hv, hd, unread, hr, hh]

theorem AppStep.conserves {b b' : Bridge} {op : AppOp} {out : List BridgeObs}
    (h : AppStep b op b' out) : Conserves b b' out := by
  cases h with
  | @read remaining data half q ho hr =>
    have h := b.recvHalf.pollRead_conserves b.recvQ remaining
    rw [hr] at h
    exact ⟨by simp, by simpa [unread] using h⟩
  | @readPending remaining half q ho hr =>
    have h := b.recvHalf.pollRead_conserves b.recvQ remaining
    rw [hr] at h
    exact ⟨by simp, by simpa [unread] using h.symm⟩
  | wrote | shutdown => exact ⟨rfl, by simp [unread]⟩
  | writeClosed | writeFull | wakeToken | wakeClosed | wakeWait | flush | shutdownLost
  | dropRecv | dropSend | dropWake => exact .of_eq rfl rfl rfl rfl rfl rfl rfl

theorem LoopStep.conserves {b b' : Bridge} {op : LoopOp} {out : List BridgeObs}
    (h : LoopStep b op b' out) : Conserves b b' out := by
  cases h with
  | received hr hb => exact ⟨by simp, by simp [unread]⟩
  | taken hb => exact ⟨by simp [hb], by simp [unread]⟩
  | _ => exact .of_eq rfl rfl rfl rfl rfl rfl rfl

theorem step_conserves {b b' : Bridge} {op : BridgeOp} {out : List BridgeObs}
    (h : machine.step b op = some (b', out)) : Conserves b b' out := by
  cases op with
  | app op => exact (app_cases h).conserves
  | loop op => exact (loop_cases (Option.some.inj h)).conserves

/-! Only `try_recv` takes from the send queue. -/

theorem AppStep.popped {b b' : Bridge} {op : AppOp} {out : List BridgeObs}
    (h : AppStep b op b' out) : popped out = [] := by
  cases h <;> rfl

theorem LoopStep.popped {b b' : Bridge} {op : LoopOp} {out : List BridgeObs}
    (h : LoopStep b op b' out) (hop : op ≠ .sendTryRecv) : popped out = [] := by
  cases h with
  | taken | empty => exact absurd rfl hop
  | _ => rfl

/-! Only the task puts into it, and only the task reads. -/

theorem LoopStep.queued {b b' : Bridge} {op : LoopOp} {out : List BridgeObs}
    (h : LoopStep b op b' out) : queued out = [] := by
  cases h <;> rfl

theorem LoopStep.reads {b b' : Bridge} {op : LoopOp} {out : List BridgeObs}
    (h : LoopStep b op b' out) : reads out = [] := by
  cases h <;> rfl

/-- The entry that a poll puts into the send queue, if it finds room there. -/
def entry (b : Bridge) (op : AppOp) : Option Bytes :=
  if b.sendQ.receiver = true ∧ b.sendQ.buf.length < sendCapacity then
    match op, b.writer with
    | .pollWrite buf, _ => some (b.sendHalf.pendingSend.getD (buf, buf.length)).1
    | .pollWriteRetry, .retry toSend => some toSend.1
    | .pollShutdown, _ => some []
    | _, _ => none
  else none

theorem Offers.entry {b : Bridge} {op : AppOp} {toSend : Bytes × ℕ} (h : b.Offers op toSend)
    (hr : b.sendQ.receiver = true) (hb : b.sendQ.buf.length < sendCapacity) :
    b.entry op = some toSend.1 := by
  unfold Bridge.entry
  rw [if_pos ⟨hr, hb⟩]
  obtain ⟨buf, rfl, -, -, rfl⟩ | ⟨rfl, hw⟩ := h
  · rfl
  · rw [hw]

theorem entry_of_no_room {b : Bridge} {op : AppOp}
    (h : b.sendQ.receiver = false ∨ b.sendQ.buf.length = sendCapacity) : b.entry op = none := by
  unfold entry
  rw [if_neg]
  rintro ⟨hr, hb⟩
  obtain h | h := h
  · rw [hr] at h
    cases h
  · omega

theorem AppStep.queued {b b' : Bridge} {op : AppOp} {out : List BridgeObs}
    (h : AppStep b op b' out) : queued out = (b.entry op).toList := by
  cases h with
  | wrote hw hr hb => simp [hw.entry hr hb]
  | writeClosed hw hr => simp [entry_of_no_room (.inl hr)]
  | writeFull hw hr hb => simp [entry_of_no_room (.inr hb)]
  | shutdown ho hw hr hb => simp [entry, hr, hb]
  | shutdownLost ho hw hr => simp [entry_of_no_room hr]
  | _ => simp [entry]

/-! ## A whole run -/

/-- The ledger of a bridge: its trace accounts for its queues. -/
structure Ledger (b : Bridge) (tr : List BridgeObs) : Prop where
  send : queued tr = popped tr ++ b.sendQ.buf
  recv : (received tr).flatten = (reads tr).flatten ++ b.unread

theorem Ledger.new : Ledger Bridge.new [] := ⟨rfl, rfl⟩

theorem Ledger.step {b b' : Bridge} {tr out : List BridgeObs} (hl : Ledger b tr)
    (hc : Conserves b b' out) : Ledger b' (tr ++ out) := by
  constructor
  · calc queued (tr ++ out) = popped tr ++ (b.sendQ.buf ++ queued out) := by
          rw [queued_append, hl.send, List.append_assoc]
      _ = popped (tr ++ out) ++ b'.sendQ.buf := by
          rw [hc.send, popped_append, List.append_assoc]
  · calc (received (tr ++ out)).flatten
        = (reads tr).flatten ++ (b.unread ++ (received out).flatten) := by
          rw [received_append, List.flatten_append, hl.recv, List.append_assoc]
      _ = (reads (tr ++ out)).flatten ++ b'.unread := by
          rw [hc.recv, reads_append, List.flatten_append, List.append_assoc]

theorem ledger_run {b : Bridge} {ops : List BridgeOp} {tr : List BridgeObs}
    (h : machine.run new ops = some (b, tr)) : Ledger b tr :=
  Machine.run_induction Ledger (fun _ _ _ _ _ hl _ hs => hl.step (step_conserves hs)) h
    (Machine.Along.true _ _) Ledger.new

end Bridge
end TransportProxy.Slipstream
