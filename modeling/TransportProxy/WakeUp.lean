import TransportProxy.Client.SendOrder
import TransportProxy.Client.Wake
import TransportProxy.Server.Wake

/-! # No lost wake-up

The two token policies side by side: the client leaves one token before the drain and one after it,
the server one for every entry, and in both a parked writer is woken once an entry was taken.
-/
namespace TransportProxy.Slipstream
open Foundations
set_option autoImplicit false

/-- A step that hands an entry over is inside a callback that will still leave a token. -/
theorem Client.Step.draining_of_call {s s' : Client} {e : ClientEvent} {out : List ClientObs}
    (h : Client.Step s e s' out) (hc : Client.calls out ≠ []) : s'.pc.draining = true := by
  cases h with
  | afterPeek => rfl
  | drained =>
    simp only
    split <;> rfl
  | ready hp he hm hq => obtain ⟨-, rfl⟩ | ⟨-, rfl⟩ := hq <;> exact absurd rfl hc
  | noop hp hn ha ho => obtain rfl | rfl := ho <;> exact absurd rfl hc
  | checked hp hr ho | peeked hp hr hn hb ho | peekClosed hp hr hn hb ho =>
    obtain ⟨d, rfl⟩ := ho
    simp at hc
  | afterClose hp hs =>
    cases hcs : s.ctx.closeSent <;> simp [hcs] at hc
  | _ => simp at hc

namespace Server

theorem Step.owes_of_call {s s' : Server} {e : ServerEvent} {out : List ServerObs} {j : ℕ}
    (h : Step s e s' out) (hc : calls j out ≠ []) : s'.Owes j := by
  cases h with
  | @drained ret now todo b data hp hb hd =>
    by_cases hj : now.2.index = j
    · exact hj
    · simp [hj] at hc
  | noop hp hm ho => obtain rfl | rfl | ⟨d, rfl⟩ := ho <;> exact absurd rfl hc
  | _ => simp at hc

end Server

/-- For the client and for every stream of the server, whatever the interleaving: a parked writer
without a token is registered, and the send queue is full or a token is owed; and from the step
that hands an entry over to any later state in which the callback is over, a registered writer is
woken. -/
theorem no_lost_wakeup :
    (∀ {es s tr}, Client.machine.run Client.init es = some (s, tr) → s.bridge.owner = .held →
      s.bridge.sendQ.receiver = true →
      (s.bridge.writer = .parked → s.bridge.wakeQ.buf = [] → s.bridge.wakeQ.waker = true ∧
        (s.bridge.sendQ.buf.length = sendCapacity ∨ s.pc.draining = true ∨
          s.ctx.peekBuf.isSome = true)) ∧
      (∀ {e s' out}, Client.machine.step s e = some (s', out) → Client.calls out ≠ [] →
        s'.pc.draining = true) ∧
      (∀ {fs t tr'}, s.pc.draining = true → s.bridge.wakeQ.waker = true →
        Client.machine.run s fs = some (t, tr') → t.pc.draining = false →
        t.bridge.owner = .held → BridgeObs.woken ∈ Client.bridgeTrace tr')) ∧
    (∀ {es s tr}, Server.machine.run Server.init es = some (s, tr) → ∀ j,
      (s.stream j).owner = .held → (s.stream j).sendQ.receiver = true →
      ((s.stream j).writer = .parked → (s.stream j).wakeQ.buf = [] →
        (s.stream j).wakeQ.waker = true ∧
          ((s.stream j).sendQ.buf.length = sendCapacity ∨ s.Owes j)) ∧
      (∀ {e s' out}, Server.machine.step s e = some (s', out) → Server.calls j out ≠ [] →
        s'.Owes j) ∧
      (∀ {fs t tr'}, s.Owes j → (s.stream j).wakeQ.waker = true →
        Server.machine.run s fs = some (t, tr') → ¬ t.Owes j →
        (t.stream j).owner = .held → BridgeObs.woken ∈ Server.bridgeTrace j tr')) := by
  constructor
  · intro es s tr hr hh hs
    have hi := Client.wakeInv_run hr
    have he := Client.loopEnds_run hr
    refine ⟨?_, ?_, ?_⟩
    · intro hp hb
      have hk : s.bridge.wakeQ.sender = true := by
        rw [he.wake]
        rw [he.send] at hs
        omega
      exact ⟨hi.wake.registered hk hp hb, hi.wake.covered hh hs (by rw [hp]; rfl) hb⟩
    · intro e s' out h
      exact (Client.step_cases h).draining_of_call
    · intro fs t tr' hd hw hr' ht hh'
      exact Client.woken_of_draining hr' hi hd hw ht hh'
  · intro es s tr hr j hh hs
    have hi := Server.wakeInv_run hr j
    have he := Server.loopEnds_run hr j
    refine ⟨?_, ?_, ?_⟩
    · intro hp hb
      have hk : (s.stream j).wakeQ.sender = true := by
        rw [he.wake]
        apply (he.send.mp hs).imp_right
        intro hd
        rw [hd]
        rfl
      exact ⟨hi.wake.registered hk hp hb, hi.wake.covered hh hs (by rw [hp]; rfl) hb⟩
    · intro e s' out h
      exact (Server.step_cases h).owes_of_call
    · intro fs t tr' hd hw hr' ht hh'
      exact Server.woken_of_owes hr' (Server.linked_run hr) hi hd hw ht hh'

/-! A writer that nobody drains: 512 writes fill the send queue and the next one parks. -/

section ParkedWriter

/-- `k` entries are queued, no call is in progress, and no token is left. -/
structure Bridge.Writing (k : ℕ) (b : Bridge) : Prop where
  owner : b.owner = .held
  receiver : b.sendQ.receiver = true
  writer : b.writer = .idle
  half : b.sendHalf = ⟨none⟩
  queue : b.sendQ.buf.length = k
  tokens : b.wakeQ.buf = []
  sender : b.wakeQ.sender = true

/-- The queue is full, and the call waits for a token. -/
structure Bridge.Waiting (b : Bridge) : Prop where
  owner : b.owner = .held
  receiver : b.sendQ.receiver = true
  writer : b.writer = .parked
  tokens : b.wakeQ.buf = []

theorem Bridge.Writing.write {k : ℕ} {b : Bridge} (h : b.Writing k) (hk : k < sendCapacity) :
    ∃ r, b.app (.pollWrite [0]) = some r ∧ r.1.Writing (k + 1) := by
  have hb : b.sendQ.buf.length < sendCapacity := by rwa [h.queue]
  have hs : b.app (.pollWrite [0]) = some (b.writeTrySend ([0], 1)) := by
    simp [Bridge.app, h.owner, h.writer, Writer.returned, Bridge.pollWrite, h.half]
  rw [Bridge.writeTrySend, Channel.trySend_of_room _ h.receiver hb] at hs
  exact ⟨_, hs, h.owner, h.receiver, rfl, rfl, by simp [h.queue], h.tokens, h.sender⟩

theorem Bridge.Writing.park {b : Bridge} (h : b.Writing sendCapacity) :
    ∃ r r', b.app (.pollWrite [0]) = some r ∧ r.1.app .pollWriteWake = some r' ∧
      r'.1.Waiting := by
  have hq : b.sendQ.trySend [0] = (.error .full, b.sendQ) := by
    obtain ⟨hr, -⟩ | ⟨-, hb, -⟩ | ⟨-, -, hq⟩ := b.sendQ.trySend_cases [0]
    · rw [h.receiver] at hr
      cases hr
    · rw [h.queue] at hb
      exact absurd hb (Nat.lt_irrefl _)
    · exact hq
  have hw : b.wakeQ.pollRecv = (.pending, b.wakeQ.wait) := by
    simp [Channel.pollRecv, h.tokens, h.sender]
  have hs : b.app (.pollWrite [0]) =
      some ({ b with sendHalf := ⟨some ([0], 1)⟩, writer := .full }, []) := by
    simp [Bridge.app, h.owner, h.writer, Writer.returned, Bridge.pollWrite, Bridge.writeTrySend,
      h.half, hq]
  have hs' : Bridge.app { b with sendHalf := ⟨some ([0], 1)⟩, writer := .full } .pollWriteWake =
      some ({ b with sendHalf := ⟨some ([0], 1)⟩, writer := .parked, wakeQ := b.wakeQ.wait },
        [.writePending]) := by
    simp [Bridge.app, Bridge.pollWriteWake, hw]
  exact ⟨_, _, hs, hs', h.owner, h.receiver, rfl, h.tokens⟩

/-- 512 writes fill the send queue, and the next one parks. -/
def parkedWriter : List ClientEvent :=
  List.replicate sendCapacity (.app (.pollWrite [0])) ++
    [.app (.pollWrite [0]), .app .pollWriteWake]

/-- A stream of the server is opened and accepted, and its writer does the same. -/
def parkedServer : List ServerEvent :=
  [.stream ⟨1, 0, none, .ready⟩, .stream ⟨1, 0, some [1], .streamData⟩, .accept, .resume 0] ++
    (List.replicate sendCapacity (.app 0 (.pollWrite [0])) ++
      [.app 0 (.pollWrite [0]), .app 0 .pollWriteWake])

theorem Server.app_only {s : Server} {b : Bridge} {op : AppOp} {r : Bridge × List BridgeObs}
    (hs : s.streams = [b]) (hq : s.acceptQ = []) (h : b.app op = some r) :
    Server.machine.step s (.app 0 op) =
      some ({ s with streams := [r.1] }, r.2.map (.bridge 0)) := by
  simp [Server.machine, Server.step, Server.appStep, hs, hq, h]

theorem no_lost_wakeup_parkedWriter :
    (∃ s tr, Client.machine.run Client.init parkedWriter = some (s, tr) ∧
      s.bridge.writer = .parked ∧ s.bridge.wakeQ.buf = [] ∧ s.bridge.wakeQ.waker = true ∧
      (s.bridge.sendQ.buf.length = sendCapacity ∨ s.pc.draining = true ∨
        s.ctx.peekBuf.isSome = true)) ∧
    ∃ s tr, Server.machine.run Server.init parkedServer = some (s, tr) ∧
      (s.stream 0).writer = .parked ∧ (s.stream 0).wakeQ.buf = [] ∧
      (s.stream 0).wakeQ.waker = true ∧
      ((s.stream 0).sendQ.buf.length = sendCapacity ∨ s.Owes 0) := by
  constructor
  · obtain ⟨s, tr, hr, h⟩ := Client.machine.run_replicate (n := sendCapacity) (s := Client.init)
      (e := .app (.pollWrite [0])) (fun k s _ => s.bridge.Writing k) (by constructor <;> rfl)
      fun k m tr hk hm => by
        obtain ⟨r, hw, hm'⟩ := hm.write hk
        exact ⟨_, _, congrArg (Option.map m.onBridge) hw, hm'⟩
    obtain ⟨r, r', hw, hp, h'⟩ := h.park
    have hs : Client.machine.step s (.app (.pollWrite [0])) = some (s.onBridge r) :=
      congrArg (Option.map s.onBridge) hw
    have hs' : Client.machine.step (s.onBridge r).1 (.app .pollWriteWake) =
        some ((s.onBridge r).1.onBridge r') := congrArg (Option.map (s.onBridge r).1.onBridge) hp
    have hrun := Client.machine.run_append hr
      (Client.machine.run_step ((Machine.run_single_iff ..).mpr hs) hs')
    exact ⟨_, _, hrun, h'.writer, h'.tokens,
      (no_lost_wakeup.1 hrun h'.owner h'.receiver).1 h'.writer h'.tokens⟩
  · obtain ⟨s₀, tr₀, hr₀, b₀, hs₀, hq₀, hb₀⟩ : ∃ s tr,
        Server.machine.run Server.init [.stream ⟨1, 0, none, .ready⟩,
          .stream ⟨1, 0, some [1], .streamData⟩, .accept, .resume 0] = some (s, tr) ∧
        ∃ b, s.streams = [b] ∧ s.acceptQ = [] ∧ b.Writing 0 :=
      ⟨_, _, rfl, _, rfl, rfl, by constructor <;> rfl⟩
    obtain ⟨s, tr, hr, b, hs, hq, h⟩ := Server.machine.run_replicate (n := sendCapacity) (s := s₀)
      (e := .app 0 (.pollWrite [0]))
      (fun k s _ => ∃ b, s.streams = [b] ∧ s.acceptQ = [] ∧ b.Writing k) ⟨b₀, hs₀, hq₀, hb₀⟩
      fun k m tr hk ⟨b, hs, hq, hb⟩ => by
        obtain ⟨r, hw, hb'⟩ := hb.write hk
        exact ⟨_, _, Server.app_only hs hq hw, r.1, rfl, hq, hb'⟩
    obtain ⟨r, r', hw, hp, h'⟩ := h.park
    have hrun := Server.machine.run_append hr₀ (Server.machine.run_append hr
      (Server.machine.run_step ((Machine.run_single_iff ..).mpr (Server.app_only hs hq hw))
        (Server.app_only (s := { s with streams := [r.1] }) rfl hq hp)))
    exact ⟨_, _, hrun, h'.writer, h'.tokens,
      (no_lost_wakeup.2 hrun 0 h'.owner h'.receiver).1 h'.writer h'.tokens⟩

end ParkedWriter

end TransportProxy.Slipstream
