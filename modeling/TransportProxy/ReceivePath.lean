import TransportProxy.Client.Receive
import TransportProxy.Server.Receive

/-! # The receive path, on both sides

The client's `stream_callback` and the server's `server_stream_callback` feed the same kind of
bridge, so what a reader sees is stated for both at once.
-/
namespace TransportProxy.Slipstream
open Foundations
set_option autoImplicit false

/-! ## Nothing is lost as long as there is room -/

/-- On both sides the bytes read so far are a front of the bytes that the stream_data events
brought, in every run in which no such event meets a full queue. -/
theorem reads_prefix_of_delivered {es : List ClientEvent} {s : Client} {tr : List ClientObs}
    {fs : List ServerEvent} {t : Server} {tr' : List ServerObs} {j : ℕ}
    (hc : Client.machine.run Client.init es = some (s, tr))
    (hcg : Client.machine.Along Client.DataRoom Client.init es)
    (hs : Server.machine.run Server.init fs = some (t, tr'))
    (hsg : Server.machine.Along (Server.DataRoom j) Server.init fs) :
    (reads (Client.bridgeTrace tr)).flatten <+: Client.delivered tr ∧
      (reads (Server.bridgeTrace j tr')).flatten <+: Server.delivered j tr' :=
  ⟨Client.reads_prefix hc hcg, Server.reads_prefix hs hsg⟩

/-- Two chunks read in pieces, on either side. -/
def clientPieces : List ClientEvent :=
  [.stream ⟨1, 0, none, .ready⟩ 0 0, .stream ⟨1, 0, some [1, 2, 3], .streamData⟩ 0 0,
    .app (.pollRead 2), .stream ⟨1, 0, some [4], .streamData⟩ 0 0, .app (.pollRead 2)]

def serverPieces : List ServerEvent :=
  [.stream ⟨1, 0, none, .ready⟩, .stream ⟨1, 0, some [1, 2, 3], .streamData⟩, .accept, .resume 0,
    .app 0 (.pollRead 2), .stream ⟨1, 0, some [4], .streamData⟩, .app 0 (.pollRead 2)]

theorem reads_prefix_of_delivered_pieces : ∃ s tr t tr',
    Client.machine.run Client.init clientPieces = some (s, tr) ∧
      Server.machine.run Server.init serverPieces = some (t, tr') ∧
      reads (Client.bridgeTrace tr) = [[1, 2], [3]] ∧
      reads (Server.bridgeTrace 0 tr') = [[1, 2], [3]] ∧
      (reads (Client.bridgeTrace tr)).flatten <+: Client.delivered tr ∧
      (reads (Server.bridgeTrace 0 tr')).flatten <+: Server.delivered 0 tr' :=
  ⟨_, _, _, _, rfl, rfl, by decide, by decide,
    @reads_prefix_of_delivered clientPieces _ _ serverPieces _ _ _ rfl (by decide) rfl
      (by decide)⟩

/-! A client whose reader is slower than the peer: 4096 chunks wait and the next one is dropped. -/

section SlowReader

def dataEvent (x : UInt8) : ClientEvent := .stream ⟨1, 0, some [x], .streamData⟩ 0 0

/-- The chunks `queue` wait, `got` were read, and the events brought `offered`. -/
structure Waiting (queue got : List Bytes) (offered : Bytes) (s : Client)
    (tr : List ClientObs) : Prop where
  pc : s.pc = .idle
  owner : s.bridge.owner = .held
  receiver : s.bridge.recvQ.receiver = true
  sender : s.bridge.recvQ.sender = true
  half : s.bridge.recvHalf = .new
  queue : s.bridge.recvQ.buf = queue
  reads : reads (Client.bridgeTrace tr) = got
  delivered : Client.delivered tr = offered

variable {queue got : List Bytes} {offered : Bytes} {s : Client} {tr : List ClientObs}

theorem Client.step_push (cb : StreamCallback) {v : Bytes} (hp : s.pc = .idle)
    (hv : cb.clientPush = some v) (hc : cb.event.closes = false) :
    Client.machine.step s (.stream cb 0 0) =
      some ((s.pushChunk v).1, .callback cb :: (s.pushChunk v).2) := by
  have hs : s.streamCallback cb 0 0 = s.pushChunk v := by
    cases he : cb.event <;> simp [StreamCallback.clientPush, he] at hv <;>
      simp [he, PicoquicCallBackEvent.closes] at hc <;> simp [Client.streamCallback, he, hv]
  simp [Client.machine, Client.step, LoopPc.calm, hp, hs]

theorem Waiting.fill (h : Waiting queue got offered s tr) (hk : queue.length < recvCapacity)
    (x : UInt8) : ∃ s' out, Client.machine.step s (dataEvent x) = some (s', out) ∧
      Waiting (queue ++ [[x]]) got (offered ++ [x]) s' (tr ++ out) := by
  have hb : s.bridge.recvQ.buf.length < recvCapacity := by rwa [h.queue]
  have hs := Client.step_push ⟨1, 0, some [x], .streamData⟩ h.pc rfl rfl
  rw [Client.pushChunk, Client.onBridge, Bridge.recvTrySend,
    Channel.trySend_of_room _ h.receiver hb] at hs
  refine ⟨_, _, hs, h.pc, h.owner, h.receiver, h.sender, h.half, ?_, ?_, ?_⟩
  · rw [← h.queue]
    rfl
  · simp [h.reads]
  · rw [Client.delivered_append, h.delivered]
    rfl

theorem Waiting.refuse (h : Waiting queue got offered s tr) (hk : queue.length = recvCapacity)
    (cb : StreamCallback) {v : Bytes} (hv : cb.clientPush = some v) (hc : cb.event.closes = false) :
    ∃ out, Client.machine.step s (.stream cb 0 0) = some (s, out) ∧
      Waiting queue got (offered ++ cb.data.getD []) s (tr ++ out) := by
  have hq : s.bridge.recvTrySend v = (s.bridge, [.refused v]) := by
    obtain ⟨-, hb, -⟩ | ⟨-, hq⟩ := s.bridge.recvTrySend_cases v
    · rw [h.queue, hk] at hb
      exact absurd hb (Nat.lt_irrefl _)
    · exact hq
  have hs := Client.step_push cb h.pc hv hc
  rw [Client.pushChunk, hq] at hs
  refine ⟨_, hs, h.pc, h.owner, h.receiver, h.sender, h.half, h.queue, ?_, ?_⟩
  · simp [h.reads, Client.onBridge]
  · rw [Client.delivered_append, h.delivered]
    cases hd : cb.data <;> simp [Client.delivered, Client.onBridge, hd]

theorem Waiting.read {x : UInt8} (h : Waiting ([x] :: queue) got offered s tr) :
    ∃ s' out, Client.machine.step s (.app (.pollRead 1)) = some (s', out) ∧
      Waiting queue (got ++ [[x]]) offered s' (tr ++ out) := by
  have hr : s.bridge.recvHalf.pollRead s.bridge.recvQ 1 =
      (.ready [x], .new, s.bridge.recvQ.pop) := by
    rw [h.half]
    simp [SlipstreamRecvHalf.pollRead, SlipstreamRecvHalf.new, Channel.pollRecv, h.queue,
      SlipstreamRecvHalf.take]
  have hs : Client.machine.step s (.app (.pollRead 1)) =
      some (s.onBridge ({ s.bridge with recvHalf := .new, recvQ := s.bridge.recvQ.pop },
        [.read [x]])) := by
    simp [Client.machine, Client.step, Bridge.app, h.owner, Bridge.pollRead, hr]
  refine ⟨_, _, hs, h.pc, h.owner, h.receiver, h.sender, rfl, ?_, ?_, ?_⟩
  · simp [h.queue]
  · simp [h.reads]
  · rw [Client.delivered_append, h.delivered]
    simp [Client.delivered]

/-- The peer opens the connection and sends a chunk more than the queue holds. -/
def floodEvents : List ClientEvent :=
  .stream ⟨1, 0, none, .ready⟩ 0 0 :: List.replicate recvCapacity (dataEvent 1)

theorem flood : ∃ s tr, Client.machine.run Client.init floodEvents = some (s, tr) ∧
    Waiting (List.replicate recvCapacity [1]) [] (List.replicate recvCapacity 1) s tr := by
  obtain ⟨s, tr, hs, h⟩ : ∃ s tr, Client.machine.step Client.init
      (.stream ⟨1, 0, none, .ready⟩ 0 0) = some (s, tr) ∧ Waiting [] [] [] s tr :=
    ⟨_, _, rfl, by constructor <;> rfl⟩
  obtain ⟨s', tr', hr, h'⟩ := Client.machine.run_replicate (n := recvCapacity)
    (fun k s t => Waiting (List.replicate k [1]) [] (List.replicate k 1) s (tr ++ t))
    (e := dataEvent 1) (by rwa [List.append_nil]) (by
      intro k m t hk hm
      obtain ⟨m', out, hs, hm'⟩ := hm.fill (by rwa [List.length_replicate]) 1
      rw [← List.replicate_succ', ← List.replicate_succ', List.append_assoc] at hm'
      exact ⟨m', out, hs, hm'⟩)
  exact ⟨s', tr ++ tr', (Machine.run_cons_iff ..).mpr ⟨_, _, tr', hs, hr, rfl⟩, h'⟩

/-- One chunk too many, then the reader catches up, then one more chunk. -/
def gapEvents : List ClientEvent :=
  floodEvents ++ [dataEvent 2] ++ List.replicate recvCapacity (.app (.pollRead 1)) ++
    [dataEvent 3] ++ [.app (.pollRead 1)]

theorem gap_in_reads : ∃ s tr, Client.machine.run Client.init gapEvents = some (s, tr) ∧
    ¬ (reads (Client.bridgeTrace tr)).flatten <+: Client.delivered tr := by
  obtain ⟨s, tr, hr, h⟩ := flood
  obtain ⟨out, hs, h⟩ := h.refuse (List.length_replicate ..) ⟨1, 0, some [2], .streamData⟩ rfl rfl
  obtain ⟨s₂, tr₂, hr₂, h⟩ := Client.machine.run_replicate (n := recvCapacity) (s := s)
    (e := .app (.pollRead 1))
    (fun k s t => Waiting (List.replicate (recvCapacity - k) [1]) (List.replicate k [1])
      (List.replicate recvCapacity 1 ++ [2]) s (tr ++ out ++ t))
    (by rw [Nat.sub_zero, List.replicate_zero, List.append_nil]; exact h) (by
      intro k m t hk hm
      have hq : recvCapacity - k = recvCapacity - (k + 1) + 1 := by omega
      rw [hq, List.replicate_succ] at hm
      obtain ⟨m', out', hs, hm'⟩ := hm.read
      rw [← List.replicate_succ', List.append_assoc] at hm'
      exact ⟨m', out', hs, hm'⟩)
  rw [Nat.sub_self, List.replicate_zero] at h
  obtain ⟨s₃, out₃, hs₃, h⟩ := h.fill (by decide) 3
  obtain ⟨s₄, out₄, hs₄, h⟩ := h.read
  refine ⟨s₄, _, Machine.run_step _ (Machine.run_step _ (Machine.run_append _
    (Machine.run_step _ hr hs) hr₂) hs₃) hs₄, ?_⟩
  rw [h.reads, h.delivered, List.append_assoc, List.flatten_append,
    List.flatten_replicate_singleton, List.prefix_append_right_inj]
  decide

end SlowReader

end TransportProxy.Slipstream
