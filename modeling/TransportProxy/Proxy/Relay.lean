import TransportProxy.Bridge.Ledger
import TransportProxy.Foundations.Marks

/-! # The task of a relayed connection

`relay_bidirectional` (`lib.rs`) joins a TCP stream to a stream of the transport: at the client for
a connection that it has accepted, at the server for one to the upstream. It is tokio's
`copy_bidirectional`, taken here at what its documentation promises, whatever the size of its
buffers and whenever it polls: it reads from each side and writes what it has read to the other one,
in order; when a side has ended and all of it is written, it shuts the other one down; it returns
when it has shut both down, or when an operation fails. Both streams are dropped then.

`RelayTask` is what it holds between two operations. A write that has returned `Pending` is repeated
with all that is left, which may have grown in the meantime.
-/
namespace TransportProxy.Slipstream
open Foundations
set_option autoImplicit false

/-- One of the two directions. -/
structure Copying where
  /-- read, and not accepted by the writer yet -/
  rest : Bytes
  /-- the reader has reported its end -/
  ended : Bool
  /-- the writer has been shut down -/
  shut : Bool
  deriving DecidableEq, Repr

structure RelayTask where
  toStream : Copying
  toTcp : Copying
  /-- finished or failed -/
  returned : Bool
  deriving DecidableEq, Repr

inductive RelayEvent where
  /-- a read of the TCP stream returned these bytes; at its end it returns none -/
  | tcpRead (data : Bytes)
  /-- the TCP stream accepted this many bytes -/
  | tcpWrite (n : ℕ)
  | tcpShutdown
  | tcpFails
  | read (remaining : ℕ)
  /-- the next channel operation of `poll_write` -/
  | write
  | flush
  | shutdown
  | finish
  /-- the next field of the stream is dropped -/
  | drop
  deriving DecidableEq, Repr

/-- What happens to the TCP stream. -/
inductive TcpObs where
  | read (data : Bytes)
  | wrote (data : Bytes)
  | shutdown
  deriving DecidableEq, Repr

namespace RelayTask

def init : RelayTask := ⟨⟨[], false, false⟩, ⟨[], false, false⟩, false⟩

/-- An operation on the TCP stream, or on none. -/
def tcp (task : RelayTask) : RelayEvent → Option (RelayTask × List TcpObs)
  | .tcpRead data =>
    if task.returned = false ∧ task.toStream.ended = false then
      some ({ task with
        toStream.rest := task.toStream.rest ++ data
        toStream.ended := data.isEmpty }, [.read data])
    else none
  | .tcpWrite n =>
    if task.returned = false ∧ 0 < n ∧ n ≤ task.toTcp.rest.length then
      some ({ task with toTcp.rest := task.toTcp.rest.drop n }, [.wrote (task.toTcp.rest.take n)])
    else none
  | .tcpShutdown =>
    if task.returned = false ∧ task.toTcp.ended = true ∧ task.toTcp.rest = [] ∧
        task.toTcp.shut = false then
      some ({ task with toTcp.shut := true }, [.shutdown])
    else none
  | .tcpFails => if task.returned = false then some ({ task with returned := true }, []) else none
  | .finish =>
    if task.toStream.shut = true ∧ task.toTcp.shut = true then
      some ({ task with returned := true }, [])
    else none
  | .read _ | .write | .flush | .shutdown | .drop => none

/-- The operation on the bridged stream that an event is. -/
def op (task : RelayTask) (writer : Writer) : RelayEvent → Option AppOp
  | .read remaining =>
    if task.returned = false ∧ task.toTcp.ended = false ∧ 0 < remaining then
      some (.pollRead remaining)
    else none
  | .write =>
    if task.returned = false ∧ task.toStream.rest ≠ [] then
      match writer with
      | .idle | .parked => some (.pollWrite task.toStream.rest)
      | .full => some .pollWriteWake
      | .retry _ => some .pollWriteRetry
    else none
  | .flush => if task.returned = false then some .pollFlush else none
  | .shutdown =>
    if task.returned = false ∧ task.toStream.ended = true ∧ task.toStream.rest = [] ∧
        task.toStream.shut = false then
      some .pollShutdown
    else none
  | .drop => if task.returned = true then some .dropStream else none
  | .tcpRead _ | .tcpWrite _ | .tcpShutdown | .tcpFails | .finish => none

/-- How the task goes on after what its operation returned. -/
def next (task : RelayTask) (out : List BridgeObs) : RelayTask :=
  match out.getLast? with
  | some (.read data) =>
    { task with toTcp.rest := task.toTcp.rest ++ data, toTcp.ended := data.isEmpty }
  | some (.wrote n) =>
    -- `copy_bidirectional` takes a write of nothing for an error
    if n = 0 then { task with returned := true }
    else { task with toStream.rest := task.toStream.rest.drop n }
  | some (.writeError _) => { task with returned := true }
  | some .shutdown => { task with toStream.shut := true }
  | _ => task

end RelayTask

/-! ## Reading a trace -/

@[simp] def TcpObs.read? : TcpObs → Option Bytes
  | .read data => some data
  | _ => none

@[simp] def TcpObs.wrote? : TcpObs → Option Bytes
  | .wrote data => some data
  | _ => none

/-- What the reads of the TCP stream returned, and what the writes put into it. -/
def tcpReads (u : List TcpObs) : List Bytes := u.filterMap TcpObs.read?

def tcpWrites (u : List TcpObs) : List Bytes := u.filterMap TcpObs.wrote?

def tcpIn (u : List TcpObs) : Bytes := (tcpReads u).flatten

def tcpOut (u : List TcpObs) : Bytes := (tcpWrites u).flatten

@[simp] theorem tcpReads_nil : tcpReads [] = [] := rfl
@[simp] theorem tcpWrites_nil : tcpWrites [] = [] := rfl

@[simp] theorem tcpReads_cons (o : TcpObs) (u : List TcpObs) :
    tcpReads (o :: u) = o.read?.toList ++ tcpReads u := filterMap_cons_toList ..

@[simp] theorem tcpWrites_cons (o : TcpObs) (u : List TcpObs) :
    tcpWrites (o :: u) = o.wrote?.toList ++ tcpWrites u := filterMap_cons_toList ..

@[simp] theorem tcpReads_append (u v : List TcpObs) :
    tcpReads (u ++ v) = tcpReads u ++ tcpReads v := List.filterMap_append ..

@[simp] theorem tcpWrites_append (u v : List TcpObs) :
    tcpWrites (u ++ v) = tcpWrites u ++ tcpWrites v := List.filterMap_append ..

/-! ## What is copied -/

namespace RelayTask

/-- The private copy that `poll_write` keeps is a front of what is left to be written. -/
def Holds (task : RelayTask) (toSend : Bytes × ℕ) : Prop :=
  toSend.1 ≠ [] ∧ toSend.2 = toSend.1.length ∧ toSend.1 <+: task.toStream.rest

/-- The task in step with its streams: `t` is what happened at the bridge, and `u` at the TCP
stream. -/
structure InStep (task : RelayTask) (b : Bridge) (t : List BridgeObs) (u : List TcpObs) : Prop where
  parked : ∀ x, b.sendHalf.pendingSend = some x → task.Holds x
  retry : ∀ x, b.writer = .retry x → task.Holds x
  sent : (queued t).flatten ++ task.toStream.rest = tcpIn u
  got : (reads t).flatten = tcpOut u ++ task.toTcp.rest
  /-- there is a marker only after a shutdown, and it is the last entry -/
  fin : ∃ marker, EndMarked (queued t) marker ∧ (marker = true → task.toStream.shut = true)
  shut : task.toStream.shut = true → task.toStream.ended = true ∧ task.toStream.rest = []
  heard : EndMarked (reads t) task.toTcp.ended
  ended : EndMarked (tcpReads u) task.toStream.ended
  told : .shutdown ∈ u → task.toTcp.ended = true ∧ task.toTcp.rest = []

theorem InStep.init : RelayTask.init.InStep .new [] [] where
  parked := nofun
  retry := nofun
  sent := rfl
  got := rfl
  fin := ⟨false, .nil, nofun⟩
  shut := nofun
  heard := .nil
  ended := .nil
  told := nofun

variable {task task' : RelayTask} {b b' : Bridge} {t out : List BridgeObs} {u tout : List TcpObs}
  {e : RelayEvent}

/-- What is read meanwhile comes behind the private copy. -/
theorem Holds.append {toSend : Bytes × ℕ} (h : task.Holds toSend) {more : Bytes}
    (hr : task'.toStream.rest = task.toStream.rest ++ more) : task'.Holds toSend :=
  ⟨h.1, h.2.1, hr ▸ h.2.2.trans (List.prefix_append _ _)⟩

/-- An operation on the TCP stream. -/
theorem InStep.tcp (h : task.InStep b t u) (hs : task.tcp e = some (task', tout)) :
    task'.InStep b t (u ++ tout) := by
  cases e with
  | tcpRead data =>
    simp only [RelayTask.tcp, Option.ite_none_right_eq_some, Option.some.injEq, Prod.mk.injEq] at hs
    obtain ⟨⟨-, he⟩, rfl, rfl⟩ := hs
    have hopen : task.toStream.shut ≠ true := fun hc => by simp [(h.shut hc).1] at he
    have hended := h.ended
    rw [he] at hended
    refine { h with
      parked := fun x hx => (h.parked x hx).append rfl
      retry := fun x hx => (h.retry x hx).append rfl
      sent := ?_, got := by simpa [tcpOut] using h.got, shut := fun hc => absurd hc hopen
      ended := by simpa using hended.snoc data, told := by simpa using h.told }
    have hsent := congrArg (· ++ data) h.sent
    simpa [tcpIn] using hsent
  | tcpWrite n =>
    simp only [RelayTask.tcp, Option.ite_none_right_eq_some, Option.some.injEq, Prod.mk.injEq] at hs
    obtain ⟨⟨-, hn, hle⟩, rfl, rfl⟩ := hs
    refine { h with
      sent := by simpa [tcpIn] using h.sent, got := by simpa [tcpOut] using h.got
      ended := by simpa using h.ended, told := fun hm => ?_ }
    obtain ⟨he, hr⟩ := h.told (by simpa using hm)
    simp only [hr, List.length_nil] at hle
    omega
  | tcpShutdown =>
    simp only [RelayTask.tcp, Option.ite_none_right_eq_some, Option.some.injEq, Prod.mk.injEq] at hs
    obtain ⟨⟨-, he, hr, -⟩, rfl, rfl⟩ := hs
    exact { h with
      sent := by simpa [tcpIn] using h.sent, got := by simpa [tcpOut] using h.got
      ended := by simpa using h.ended, told := fun _ => ⟨he, hr⟩ }
  | tcpFails | finish =>
    simp only [RelayTask.tcp, Option.ite_none_right_eq_some, Option.some.injEq, Prod.mk.injEq] at hs
    obtain ⟨-, rfl, rfl⟩ := hs
    rw [List.append_nil]
    exact { h with }
  | read | write | flush | shutdown | drop => cases hs

/-- A step at the bridge in which the task neither reads nor puts anything into the queue. -/
theorem InStep.quiet (h : task.InStep b t u)
    (hs : ∀ x, b'.sendHalf.pendingSend = some x → b.sendHalf.pendingSend = some x)
    (hw : ∀ x, b'.writer = .retry x → b.writer = .retry x) (hr : reads out = [])
    (hq : queued out = []) : task.InStep b' (t ++ out) u := by
  have hreads : reads (t ++ out) = reads t := by rw [reads_append, hr, List.append_nil]
  have hqueued : queued (t ++ out) = queued t := by rw [queued_append, hq, List.append_nil]
  exact { h with
    parked := fun x hx => h.parked x (hs x hx)
    retry := fun x hx => h.retry x (hw x hx)
    sent := by rw [hqueued]; exact h.sent
    got := by rw [hreads]; exact h.got
    fin := by rw [hqueued]; exact h.fin
    heard := by rw [hreads]; exact h.heard }

theorem InStep.fails (h : task.InStep b t u) :
    { task with returned := true }.InStep b t u := { h with }

/-- Before its shutdown the task has queued no marker. -/
theorem InStep.unmarked (h : task.InStep b t u) (hs : task.toStream.shut ≠ true) :
    EndMarked (queued t) false := by
  obtain ⟨marker, hm, hshut⟩ := h.fin
  cases marker with
  | false => exact hm
  | true => exact absurd (hshut rfl) hs

/-- When the task makes an operation on the bridged stream. -/
inductive Polls (task : RelayTask) : AppOp → Prop where
  | read {n} (hn : 0 < n) (he : task.toTcp.ended = false) : Polls task (.pollRead n)
  | write (hr : task.toStream.rest ≠ []) : Polls task (.pollWrite task.toStream.rest)
  | wake : Polls task .pollWriteWake
  | retry : Polls task .pollWriteRetry
  | flush : Polls task .pollFlush
  | shutdown (he : task.toStream.ended = true) (hr : task.toStream.rest = [])
      (hs : task.toStream.shut = false) : Polls task .pollShutdown
  | drop : Polls task .dropStream

theorem op_cases {writer : Writer} {aop : AppOp} (h : task.op writer e = some aop) :
    task.Polls aop := by
  cases e with
  | read n =>
    simp only [op, Option.ite_none_right_eq_some, Option.some.injEq] at h
    obtain ⟨⟨-, he, hn⟩, rfl⟩ := h
    exact .read hn he
  | write =>
    simp only [op, Option.ite_none_right_eq_some] at h
    obtain ⟨⟨-, hr⟩, h⟩ := h
    cases writer <;> obtain rfl := Option.some.inj h
    · exact .write hr
    · exact .write hr
    · exact .wake
    · exact .retry
  | flush =>
    simp only [op, Option.ite_none_right_eq_some, Option.some.injEq] at h
    obtain ⟨-, rfl⟩ := h
    exact .flush
  | shutdown =>
    simp only [op, Option.ite_none_right_eq_some, Option.some.injEq] at h
    obtain ⟨⟨-, he, hr, hs⟩, rfl⟩ := h
    exact .shutdown he hr hs
  | drop =>
    simp only [op, Option.ite_none_right_eq_some, Option.some.injEq] at h
    obtain ⟨-, rfl⟩ := h
    exact .drop
  | tcpRead | tcpWrite | tcpShutdown | tcpFails | finish => cases h

/-- What `poll_write` offers is a front of what is left, also when it is the private copy. -/
theorem InStep.offers {aop : AppOp} {toSend : Bytes × ℕ} (h : task.InStep b t u)
    (hp : task.Polls aop) (hw : b.Offers aop toSend) : task.Holds toSend := by
  obtain ⟨buf, rfl, -, -, rfl⟩ | ⟨rfl, hw⟩ := hw
  · cases hp with
    | write hr =>
      cases hs : b.sendHalf.pendingSend with
      | none => exact ⟨hr, rfl, List.prefix_rfl⟩
      | some x => exact h.parked x hs
  · exact h.retry toSend hw

/-- Part of what is left has been put into the send queue. -/
theorem InStep.wrote {toSend : Bytes × ℕ} (h : task.InStep b t u) (hh : task.Holds toSend)
    (hs : b'.sendHalf.pendingSend = none) (hw : b'.writer = .idle) :
    (task.next [.queued toSend.1, .wrote toSend.2]).InStep b'
      (t ++ [.queued toSend.1, .wrote toSend.2]) u := by
  obtain ⟨hne, hlen, hfront⟩ := hh
  have hopen : task.toStream.shut ≠ true := by
    intro hc
    rw [(h.shut hc).2, List.prefix_nil] at hfront
    exact hne hfront
  have hpos : ¬ toSend.2 = 0 := by
    rw [hlen]
    exact (List.length_pos_of_ne_nil hne).ne'
  have hnext : task.next [.queued toSend.1, .wrote toSend.2] =
      { task with toStream.rest := task.toStream.rest.drop toSend.2 } := if_neg hpos
  have hrest : toSend.1 ++ task.toStream.rest.drop toSend.1.length = task.toStream.rest := by
    obtain ⟨rest, hr⟩ := hfront
    rw [← hr, List.drop_left]
  rw [hnext]
  refine { h with
    parked := fun x hx => ?_, retry := fun x hx => ?_, sent := ?_, got := by simpa using h.got
    fin := ⟨_, by simpa using (h.unmarked hopen).snoc toSend.1,
      fun he => absurd (List.isEmpty_iff.mp he) hne⟩
    shut := fun hc => absurd hc hopen, heard := by simpa using h.heard }
  · rw [hs] at hx
    cases hx
  · rw [hw] at hx
    cases hx
  · have hsent := h.sent
    rw [← hrest] at hsent
    simpa [hlen] using hsent

/-- An operation on the bridged stream. -/
theorem InStep.polled {aop : AppOp} (h : task.InStep b t u) (hp : task.Polls aop)
    (hs : Bridge.AppStep b aop b' out) : (task.next out).InStep b' (t ++ out) u := by
  cases hs with
  | @read n data half q ho hr =>
    cases hp with
    | read hn he =>
      have hheard := h.heard
      rw [he] at hheard
      have hnext : task.next [.read data] = { task with
        toTcp.rest := task.toTcp.rest ++ data, toTcp.ended := data.isEmpty } := rfl
      rw [hnext]
      refine { h with
        sent := by simpa using h.sent, got := ?_, fin := by simpa using h.fin
        heard := by simpa using hheard.snoc data, told := fun hm => ?_ }
      · have hgot := congrArg (· ++ data) h.got
        simpa using hgot
      · have hend := (h.told hm).1
        rw [he] at hend
        cases hend
  | wrote hw => exact h.wrote (h.offers hp hw) rfl rfl
  | writeClosed =>
    refine InStep.fails (h.quiet (fun x hx => ?_) (fun x hx => ?_) rfl rfl) <;> cases hx
  | wakeClosed =>
    refine InStep.fails (h.quiet (fun _ => id) (fun x hx => ?_) rfl rfl)
    cases hx
  | wakeWait =>
    refine h.quiet (fun _ => id) (fun x hx => ?_) rfl rfl
    cases hx
  | writeFull hw =>
    have hh := h.offers hp hw
    rw [List.append_nil]
    refine { h with parked := fun x hx => ?_, retry := nofun }
    obtain rfl := Option.some.inj hx
    exact hh
  | wakeToken hw hx =>
    rw [List.append_nil]
    refine { h with parked := nofun, retry := fun x hx' => ?_ }
    obtain rfl := Writer.retry.inj hx'
    exact h.parked _ hx
  | shutdown =>
    cases hp with
    | shutdown he hr hs =>
      have hopen : task.toStream.shut ≠ true := by simp [hs]
      exact { h with
        sent := by simpa [next] using h.sent, got := by simpa [next] using h.got
        fin := ⟨true, by simpa using (h.unmarked hopen).snoc [], fun _ => rfl⟩
        shut := fun _ => ⟨he, hr⟩, heard := by simpa [next] using h.heard }
  | shutdownLost =>
    cases hp with
    | shutdown he hr hs =>
      obtain ⟨marker, hm, -⟩ := h.fin
      exact { h with
        sent := by simpa [next] using h.sent, got := by simpa [next] using h.got
        fin := ⟨marker, by simpa [next] using hm, fun _ => rfl⟩, shut := fun _ => ⟨he, hr⟩
        heard := by simpa [next] using h.heard }
  | readPending | flush | dropRecv | dropSend | dropWake =>
    exact h.quiet (fun _ => id) (fun _ => id) rfl rfl

end RelayTask
end TransportProxy.Slipstream
