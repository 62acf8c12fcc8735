import TransportProxy.Bridge.Forward
import TransportProxy.DrainRefinement
import TransportProxy.Foundations.Leads

/-! # A client that is left to itself

The packet loop can always finish its callback, the reader can always empty the receive path, and
one TIME_CHECK and one AFTER_* hand over all that is waiting to be sent. `Forward` are the events
that this takes and the arrival of data; a client that is `Working` stays so under them.
-/
namespace TransportProxy.Slipstream
open Foundations
set_option autoImplicit false

/-- The reader polls, the packet loop goes on, or data arrives. -/
def ClientEvent.Forward : ClientEvent → Prop
  | .app (.pollRead _) => True
  | .stream cb _ _ => cb.event = .streamData
  | .loop _ _ ret | .resume ret => ret = 0
  | _ => False

/-- It is not the arrival of anything. -/
def ClientEvent.Inner (e : ClientEvent) : Prop := e.Forward ∧ e.callback = none

namespace Client

/-- The application holds the stream, the connection is ready, and the packet loop runs. -/
structure Working (s : Client) : Prop where
  held : s.bridge.owner = .held
  ready : s.streamReady = true
  dropped : s.pc.dropped = 0
  running : s.pc ≠ .terminated

variable {s t : Client} {e : ClientEvent} {tr out : List ClientObs}

theorem Step.working {s' : Client} (h : Step s e s' out) (hi : Granted s tr) (he : e.Forward)
    (hw : Working s) : Working s' ∧ s'.ctx.cnx = s.ctx.cnx ∧ s'.ctx.streamId = s.ctx.streamId := by
  have hopen : s.ctx.shouldClose ≠ true := fun hc => hi.held hc hw.held
  have hready {c : Client} (h₁ : c.ctx.cnx = s.ctx.cnx) (h₂ : c.ctx.streamId = s.ctx.streamId) :
      c.streamReady = true := by
    rw [streamReady, h₁, h₂]
    exact hw.ready
  have hheld (op : LoopOp) : (s.bridge.loop op).1.owner = .held :=
    (Bridge.loop_cases rfl).owner.trans hw.held
  cases h with
  | @app op b bout h =>
    refine ⟨⟨?_, hw.ready, hw.dropped, hw.running⟩, rfl, rfl⟩
    cases op with
    | pollRead n => exact (Bridge.app_cases h).reads_only.2.trans hw.held
    | _ => cases he
  | readyFailed hp hev | ready hp hev =>
    rw [ClientEvent.Forward, hev] at he
    cases he
  | chunk hp hv =>
    exact ⟨⟨hheld (.recvTrySend _), hw.ready, hw.dropped, hw.running⟩, rfl, rfl⟩
  | ignored | noop => exact ⟨hw, rfl, rfl⟩
  | timeCheck | afterPeek | checked => exact ⟨⟨hw.held, hready rfl rfl, rfl, by simp⟩, rfl, rfl⟩
  | afterStop hp hc | afterClose hp hc => exact absurd hc hopen
  | peeked hp hr hn hb =>
    obtain ⟨-, rfl⟩ := Bridge.sendTryRecv_ok hb
    exact ⟨⟨hw.held, hready rfl rfl, rfl, by simp⟩, rfl, rfl⟩
  | peekClosed hp hr hn hb =>
    exact absurd hw.held (hi.owned.sender_false (Bridge.sendTryRecv_disconnected hb).2)
  | wakeFirst | wakeLast =>
    exact ⟨⟨hheld .wakeTrySend, hready rfl rfl, rfl, by simp⟩, rfl, rfl⟩
  | drained hp hb =>
    obtain ⟨-, rfl⟩ := Bridge.sendTryRecv_ok hb
    refine ⟨⟨hw.held, hready rfl rfl, ?_, ?_⟩, rfl, rfl⟩
    · simp only
      split <;> rfl
    · simp only
      split <;> simp
  | drainEmpty => exact ⟨⟨hw.held, hready rfl rfl, rfl, by simp⟩, rfl, rfl⟩
  | drainClosed hp hb =>
    exact absurd hw.held (hi.owned.sender_false (Bridge.sendTryRecv_disconnected hb).2)
  | dropSendRx hp | dropWakeTx hp | dropReadyTx hp =>
    have hd := hw.dropped
    rw [hp] at hd
    cases hd
  | loopReturn => cases he

theorem Step.enqueued_nil {s' : Client} (h : Step s e s' out) (he : e.Forward) :
    Client.enqueued out = [] := by
  rw [Client.enqueued]
  obtain ⟨-, ht, -⟩ | ⟨op, hc, hop⟩ := h.bridge_op
  · rw [ht]
    rfl
  · cases op with
    | loop op => exact (Bridge.loop_cases (Option.some.inj hop)).queued
    | app op =>
      rw [show e = .app op from hc] at he
      cases op with
      | pollRead n => exact (@Bridge.app_cases _ _ (.pollRead n) _ hop).reads_only.1
      | _ => cases he

/-- A bound on the steps that the callback in progress takes when nothing else happens. -/
def stepsLeft (s : Client) : ℕ :=
  match s.pc with
  | .timeCheck _ | .wakeLast => 1
  | .drain => s.bridge.sendQ.buf.length + 2
  | .wakeFirst => s.bridge.sendQ.buf.length + 3
  | _ => 0

end Client
end TransportProxy.Slipstream
