import TransportProxy.Server.Accept

/-! # The echo handler

`handle_connection` (`lib.rs`) without an upstream: read up to 8192 bytes, write them all, flush,
until a read returns nothing or a call fails; then the stream is dropped. `write_all` calls
`poll_write` with what is left until nothing is.

`EchoTask` is the state of the handler between two polls, and `EchoServer.machine` runs one handler
for each accepted stream over the server bridge. Polling a handler makes the one channel operation
that its state asks for; the result says how it goes on. A handler may be polled at any moment.
-/
namespace TransportProxy.Slipstream
open Foundations
set_option autoImplicit false

def echoBufferSize : ℕ := 8192

/-- Where the echo loop of `handle_connection` stands. -/
inductive EchoTask where
  /-- at `stream.read(&mut buf).await` -/
  | reading
  /-- at `stream.write_all(&buf[..n]).await`, with these bytes still to be written -/
  | writing (rest : Bytes)
  /-- at `stream.flush().await` -/
  | flushing
  /-- returned; the fields of the stream are dropped -/
  | returned
  deriving DecidableEq, Repr

namespace EchoTask

/-- The bytes read that `poll_write` has not accepted yet. -/
def rest : EchoTask → Bytes
  | .writing rest => rest
  | _ => []

/-- The next channel operation of the handler. -/
def op (task : EchoTask) (writer : Writer) : AppOp :=
  match task with
  | .reading => .pollRead echoBufferSize
  | .writing rest =>
    match writer with
    | .idle | .parked => .pollWrite rest
    | .full => .pollWriteWake
    | .retry _ => .pollWriteRetry
  | .flushing => .pollFlush
  | .returned => .dropStream

/-- `write_all` after `poll_write` has returned `n`; `n = 0` is its `WriteZero` error. -/
def afterWrite (rest : Bytes) (n : ℕ) : EchoTask :=
  if n = 0 then .returned
  else if rest.drop n = [] then .flushing
  else .writing (rest.drop n)

/-- How the handler goes on after what its operation returned. -/
def next (task : EchoTask) (out : List BridgeObs) : EchoTask :=
  match task, out.getLast? with
  | .reading, some (.read []) => .returned
  | .reading, some (.read (byte :: data)) => .writing (byte :: data)
  | .writing rest, some (.wrote n) => afterWrite rest n
  | .writing _, some (.writeError _) => .returned
  | .flushing, some .flushed => .reading
  | task, _ => task

end EchoTask

structure EchoServer where
  server : Server
  task : ℕ → EchoTask

inductive EchoEvent where
  /-- the handler of this stream is polled -/
  | poll (index : ℕ)
  | server (e : ServerEvent)
  deriving DecidableEq, Repr

/-- A step of the server that is not a handler's. -/
def ServerEvent.isLoop : ServerEvent → Bool
  | .app _ _ => false
  | _ => true

namespace EchoServer

def init : EchoServer := ⟨.init, fun _ => .reading⟩

/-- The operation that the handler of stream `i` makes when it is polled. -/
def opOf (s : EchoServer) (i : ℕ) : AppOp := (s.task i).op (s.server.stream i).writer

def step (s : EchoServer) : EchoEvent → Option (EchoServer × List ServerObs)
  | .poll i => (s.server.step (.app i (s.opOf i))).map fun r =>
    (⟨r.1, Function.update s.task i ((s.task i).next (Server.bridgeTrace i r.2))⟩, r.2)
  | .server e =>
    if e.isLoop then (s.server.step e).map fun r => (⟨r.1, s.task⟩, r.2) else none

/-- The echo server under every interleaving of its callbacks and handlers. -/
def machine : Machine EchoServer EchoEvent ServerObs := ⟨step⟩

/-- The event of the server bridge that an event is. -/
def serverEvent (s : EchoServer) : EchoEvent → ServerEvent
  | .poll i => .app i (s.opOf i)
  | .server e => e

theorem step_cases {s s' : EchoServer} {e : EchoEvent} {out : List ServerObs}
    (h : machine.step s e = some (s', out)) :
    Server.machine.step s.server (s.serverEvent e) = some (s'.server, out) ∧
      ((∃ i, e = .poll i ∧
        s'.task = Function.update s.task i ((s.task i).next (Server.bridgeTrace i out))) ∨
      ((s.serverEvent e).isLoop = true ∧ s'.task = s.task)) := by
  cases e with
  | poll i =>
    obtain ⟨r, hr, he⟩ := Option.map_eq_some_iff.mp h
    obtain ⟨rfl, rfl⟩ := Prod.mk.inj he
    exact ⟨hr, .inl ⟨i, rfl, rfl⟩⟩
  | server e =>
    simp only [machine, step, Option.ite_none_right_eq_some] at h
    obtain ⟨hl, h⟩ := h
    obtain ⟨r, hr, he⟩ := Option.map_eq_some_iff.mp h
    obtain ⟨rfl, rfl⟩ := Prod.mk.inj he
    exact ⟨hr, .inr ⟨hl, rfl⟩⟩

/-- Every run of the echo server is a run of the server bridge. -/
def serverProjection : Machine.Projection machine Server.machine where
  state := EchoServer.server
  obs := some
  sound s e s' out h :=
    ⟨[s.serverEvent e], by
      rw [List.filterMap_some]
      exact (Machine.run_single_iff ..).mpr (step_cases h).1⟩

end EchoServer

/-! ## One poll of the handler -/

namespace EchoTask

/-- The private copy that `poll_write` keeps is the chunk that is still to be written, and the
handler holds the stream until it returns. -/
def Agrees (task : EchoTask) (b : Bridge) : Prop :=
  match task with
  | .reading | .flushing =>
    b.owner = .held ∧ b.sendHalf.pendingSend = none ∧ b.writer = .idle
  | .writing rest =>
    b.owner = .held ∧ rest ≠ [] ∧
      (∀ x, b.sendHalf.pendingSend = some x → x = (rest, rest.length)) ∧
      ∀ x, b.writer = .retry x → x = (rest, rest.length)
  | .returned => b.writer = .idle

theorem Agrees.held {task : EchoTask} {b : Bridge} (h : task.Agrees b) (hn : task ≠ .returned) :
    b.owner = .held := by
  cases task with
  | reading | flushing => exact h.1
  | writing rest => exact h.1
  | returned => exact absurd rfl hn

theorem Agrees.congr {task : EchoTask} {b b' : Bridge} (h : task.Agrees b)
    (hs : b'.sendHalf = b.sendHalf) (hw : b'.writer = b.writer) (ho : b'.owner = b.owner) :
    task.Agrees b' := by
  cases task <;> simpa only [Agrees, hs, hw, ho] using h

/-- `write_all` offers all that is left, also when it is the private copy that is sent. -/
theorem Agrees.offers {rest : Bytes} {b : Bridge} {toSend : Bytes × ℕ}
    (h : (writing rest).Agrees b) (hw : b.Offers ((writing rest).op b.writer) toSend) :
    toSend = (rest, rest.length) := by
  obtain ⟨-, -, hp, hr⟩ := h
  obtain ⟨buf, hop, -, -, rfl⟩ | ⟨-, hw⟩ := hw
  · have hb : buf = rest := by
      cases hw : b.writer <;> simp only [op, hw, AppOp.pollWrite.injEq, reduceCtorEq] at hop <;>
        exact hop.symm
    cases hs : b.sendHalf.pendingSend with
    | none => rw [Option.getD_none, hb]
    | some x => rw [Option.getD_some, hp x hs]
  · exact hr toSend hw

theorem afterWrite_all {rest : Bytes} (h : rest ≠ []) :
    afterWrite rest rest.length = .flushing := by
  simp [afterWrite, h]

/-- What one poll of the handler does: the copy stays in step, the chunks it queues are not empty,
it returns for a reason, and unless it does, it has read what it queued and what it has still to
write. -/
structure Polled (task : EchoTask) (b b' : Bridge) (out : List BridgeObs) : Prop where
  agrees : (task.next out).Agrees b'
  clean : [] ∉ queued out
  copy : task.next out ≠ .returned →
    task.rest ++ (reads out).flatten = (queued out).flatten ++ (task.next out).rest
  reason : task.next out = .returned → task = .returned ∨ [] ∈ reads out ∨
    b.sendQ.receiver = false ∨ b.wakeQ.sender = false

theorem polled_writing {rest : Bytes} {b b' : Bridge} {aop : AppOp} {out : List BridgeObs}
    (h : (writing rest).Agrees b) (hop : (writing rest).op b.writer = aop)
    (hs : Bridge.AppStep b aop b' out) : Polled (writing rest) b b' out := by
  have hoffers {toSend : Bytes × ℕ} (hw : b.Offers aop toSend) : toSend = (rest, rest.length) :=
    h.offers (by rwa [hop])
  obtain ⟨ho, hne, hp, hr⟩ := h
  have hnot {aop' : AppOp} (h₁ : ∀ buf, aop' ≠ .pollWrite buf) (h₂ : aop' ≠ .pollWriteWake)
      (h₃ : aop' ≠ .pollWriteRetry) : (writing rest).op b.writer ≠ aop' := by
    cases b.writer <;> simp [op, Ne.symm (h₁ rest), Ne.symm h₂, Ne.symm h₃]
  cases hs with
  | wrote hw =>
    obtain rfl := hoffers hw
    have hnext : (writing rest).next [.queued rest, .wrote rest.length] = .flushing :=
      afterWrite_all hne
    refine ⟨?_, by simpa using Ne.symm hne, fun _ => ?_, fun hn => ?_⟩
    · rw [hnext]
      exact ⟨ho, rfl, rfl⟩
    · rw [hnext]
      simp [EchoTask.rest]
    · rw [hnext] at hn
      cases hn
  | writeClosed hw hq =>
    exact ⟨rfl, by simp, fun hn => absurd rfl hn, fun _ => .inr (.inr (.inl hq))⟩
  | writeFull hw =>
    obtain rfl := hoffers hw
    refine ⟨⟨ho, hne, ?_, nofun⟩, by simp, fun _ => by simp [next], nofun⟩
    intro x hx
    exact (Option.some.inj hx).symm
  | wakeToken hw hx =>
    refine ⟨⟨ho, hne, nofun, ?_⟩, by simp, fun _ => by simp [next], nofun⟩
    intro x hx'
    rw [← Writer.retry.inj hx']
    exact hp _ hx
  | wakeClosed hw hb hq =>
    exact ⟨rfl, by simp, fun hn => absurd rfl hn, fun _ => .inr (.inr (.inr hq))⟩
  | wakeWait => exact ⟨⟨ho, hne, hp, nofun⟩, by simp, fun _ => by simp [next], nofun⟩
  | _ => exact absurd hop (hnot nofun nofun nofun)

theorem polled {task : EchoTask} {b b' : Bridge} {out : List BridgeObs} (h : task.Agrees b)
    (hs : Bridge.AppStep b (task.op b.writer) b' out) : Polled task b b' out := by
  cases task with
  | reading =>
    obtain ⟨ho, hp, hw⟩ := h
    cases hs with
    | @read _ data half q _ hr =>
      cases data with
      | nil => exact ⟨hw, by simp, fun hn => absurd rfl hn, fun _ => .inr (.inl (by simp))⟩
      | cons byte data =>
        refine ⟨⟨ho, List.cons_ne_nil byte data, ?_, ?_⟩, by simp, fun _ => by simp [next, rest],
          nofun⟩
        · intro x hx
          rw [hp] at hx
          cases hx
        · intro x hx
          rw [hw] at hx
          cases hx
    | readPending => exact ⟨⟨ho, hp, hw⟩, by simp, fun _ => by simp [next, rest], nofun⟩
    | wrote hw | writeClosed hw | writeFull hw => exact absurd hw Bridge.not_offers_pollRead
  | writing rest => exact polled_writing h rfl hs
  | flushing =>
    cases hs with
    | flush => exact ⟨h, by simp, fun _ => by simp [next, rest], nofun⟩
    | wrote hw | writeClosed hw | writeFull hw => obtain ⟨_, ho, -⟩ | ⟨ho, -⟩ := hw <;> cases ho
  | returned =>
    cases hs with
    | dropRecv | dropSend | dropWake =>
      exact ⟨h, by simp, fun hn => absurd rfl hn, fun _ => .inl rfl⟩
    | wrote hw | writeClosed hw | writeFull hw => obtain ⟨_, ho, -⟩ | ⟨ho, -⟩ := hw <;> cases ho

/-- The poll with which the handler returns queues nothing. -/
theorem queued_of_returned {task : EchoTask} {b b' : Bridge} {out : List BridgeObs}
    (h : task.Agrees b) (hs : Bridge.AppStep b (task.op b.writer) b' out)
    (hn : task.next out = .returned) : queued out = [] := by
  generalize hop : task.op b.writer = aop at hs
  cases hs with
  | wrote hw =>
    cases task with
    | writing rest =>
      obtain rfl := h.offers (by rwa [hop])
      have hnext : (writing rest).next [.queued rest, .wrote rest.length] = .flushing :=
        afterWrite_all h.2.1
      rw [hnext] at hn
      cases hn
    | reading | flushing | returned =>
      obtain ⟨buf, rfl, -⟩ | ⟨rfl, -⟩ := hw <;> cases hop
  | shutdown =>
    cases task with
    | writing rest => cases hw : b.writer <;> rw [hw] at hop <;> cases hop
    | reading | flushing | returned => cases hop
  | _ => rfl

end EchoTask

/-! ## What a handler has read and written -/

namespace EchoServer

/-- A step polls the handler of stream `j`, or leaves it and its side of the bridge alone. -/
theorem step_view {s s' : EchoServer} {e : EchoEvent} {out : List ServerObs}
    (h : machine.step s e = some (s', out)) (j : ℕ) :
    (Bridge.AppStep (s.server.stream j) (s.opOf j) (s'.server.stream j)
        (Server.bridgeTrace j out) ∧
      s'.task j = (s.task j).next (Server.bridgeTrace j out)) ∨
    (s'.task j = s.task j ∧ (s'.server.stream j).sendHalf = (s.server.stream j).sendHalf ∧
      (s'.server.stream j).writer = (s.server.stream j).writer ∧
      (s'.server.stream j).owner = (s.server.stream j).owner ∧
      reads (Server.bridgeTrace j out) = [] ∧ queued (Server.bridgeTrace j out) = []) := by
  obtain ⟨hs, ⟨i, rfl, ht⟩ | ⟨hl, ht⟩⟩ := step_cases h
  · have hst := Server.step_cases hs
    rw [serverEvent] at hst
    obtain ⟨server', task'⟩ := s'
    simp only at hst ht ⊢
    cases hst with
    | @app _ _ b b' bout hb ha hop =>
      obtain ⟨hg, hi⟩ := Server.getD_of_getElem? hb
      subst ht
      by_cases hij : i = j
      · subst hij
        left
        rw [Server.bridgeTrace_map_self, Function.update_self, Server.stream, Server.stream, hg,
          Server.getD_set_self hi]
        exact ⟨Bridge.app_cases hop, rfl⟩
      · right
        rw [Server.bridgeTrace_map_ne j hij, Function.update_of_ne (Ne.symm hij), Server.stream,
          Server.stream, Server.getD_set_ne hij]
        exact ⟨rfl, rfl, rfl, rfl, rfl, rfl⟩
  · right
    rw [ht]
    obtain ⟨hb, hn⟩ | ⟨op, hc, hop⟩ := (Server.step_cases hs).bridge_op j
    · rw [hb, hn]
      exact ⟨rfl, rfl, rfl, rfl, rfl, rfl⟩
    · cases op with
      | app op =>
        rw [show s.serverEvent e = .app j op from hc] at hl
        cases hl
      | loop op =>
        have hloop := Bridge.loop_cases (Option.some.inj hop)
        exact ⟨rfl, hloop.writer.1, hloop.writer.2, hloop.owner, hloop.reads, hloop.queued⟩

/-- The handler of stream `j` in step with its bridge: its private copy agrees, it never queues a
FIN marker, and until it returns it has read what it queued and what it has still to write. -/
structure EchoInv (s : EchoServer) (j : ℕ) (t : List BridgeObs) : Prop where
  agrees : (s.task j).Agrees (s.server.stream j)
  clean : [] ∉ queued t
  copy : s.task j ≠ .returned → (reads t).flatten = (queued t).flatten ++ (s.task j).rest

theorem EchoInv.init (j : ℕ) : EchoInv init j [] where
  agrees := by simp [EchoServer.init, Server.init, Server.stream, EchoTask.Agrees, Bridge.new]
  clean := by simp
  copy _ := rfl

theorem EchoInv.step {s s' : EchoServer} {e : EchoEvent} {out : List ServerObs} {j : ℕ}
    {t : List BridgeObs} (hi : EchoInv s j t) (h : machine.step s e = some (s', out)) :
    EchoInv s' j (t ++ Server.bridgeTrace j out) := by
  obtain ⟨hop, ht⟩ | ⟨ht, hs, hw, ho, hr, hq⟩ := step_view h j
  · obtain ⟨ha, hc, hcopy, -⟩ := EchoTask.polled hi.agrees hop
    rw [← ht] at ha hcopy
    refine ⟨ha, ?_, fun hn => ?_⟩
    · rw [queued_append, List.mem_append]
      exact not_or.mpr ⟨hi.clean, hc⟩
    · have hn' : s.task j ≠ .returned := by
        intro hret
        rw [ht, hret] at hn
        exact hn (by simp [EchoTask.next])
      calc (reads (t ++ Server.bridgeTrace j out)).flatten
          = (queued t).flatten ++ ((s.task j).rest ++
              (reads (Server.bridgeTrace j out)).flatten) := by
            rw [reads_append, List.flatten_append, hi.copy hn', List.append_assoc]
        _ = (queued (t ++ Server.bridgeTrace j out)).flatten ++ (s'.task j).rest := by
            rw [hcopy hn, queued_append, List.flatten_append, List.append_assoc]
  · refine ⟨?_, ?_, fun hn => ?_⟩
    · rw [ht]
      exact hi.agrees.congr hs hw ho
    · rw [queued_append, hq, List.append_nil]
      exact hi.clean
    · rw [ht] at hn ⊢
      rw [reads_append, queued_append, hr, hq, List.append_nil, List.append_nil]
      exact hi.copy hn

theorem echoInv_run {es : List EchoEvent} {s : EchoServer} {tr : List ServerObs}
    (hr : machine.run EchoServer.init es = some (s, tr)) (j : ℕ) :
    EchoInv s j (Server.bridgeTrace j tr) :=
  Machine.run_trace (fun (s : EchoServer) tr => EchoInv s j (Server.bridgeTrace j tr))
    (fun s tr e s' out hi _ hs => by
      rw [Server.bridgeTrace_append]
      exact hi.step hs) hr (Machine.Along.true _ _) (.init j)

/-- Whether it has returned or not, the handler has queued a front of what it has read. -/
theorem behind_run {es : List EchoEvent} {s : EchoServer} {tr : List ServerObs}
    (hr : machine.run EchoServer.init es = some (s, tr)) (j : ℕ) :
    (queued (Server.bridgeTrace j tr)).flatten <+:
      (reads (Server.bridgeTrace j tr)).flatten := by
  refine (Machine.run_trace (fun (s : EchoServer) tr => EchoInv s j (Server.bridgeTrace j tr) ∧
    (queued (Server.bridgeTrace j tr)).flatten <+: (reads (Server.bridgeTrace j tr)).flatten)
    ?_ hr (Machine.Along.true _ _) ⟨.init j, List.nil_prefix⟩).2
  rintro s tr e s' out ⟨hi, hb⟩ - hs
  rw [Server.bridgeTrace_append]
  have hi' := hi.step hs
  refine ⟨hi', ?_⟩
  by_cases hn : s'.task j = .returned
  · have hq : queued (Server.bridgeTrace j out) = [] := by
      obtain ⟨hop, ht⟩ | ⟨-, -, -, -, -, hq⟩ := step_view hs j
      · exact EchoTask.queued_of_returned hi.agrees hop (ht ▸ hn)
      · exact hq
    rw [queued_append, hq, List.append_nil, reads_append, List.flatten_append]
    exact hb.trans (List.prefix_append _ _)
  · exact ⟨(s'.task j).rest, (hi'.copy hn).symm⟩

end EchoServer
end TransportProxy.Slipstream
