import TransportProxy.Foundations.Machine
import TransportProxy.Foundations.Channel
import Mathlib.Data.UInt

/-! # The two halves of a bridged stream and their three channels

A bridged stream joins an async task to the packet-loop thread by three channels: chunks received
from the peer (4096 slots), chunks to send (512 slots) and wake tokens for the writer (512 slots).
The async side is `SlipstreamRecvHalf` and `SlipstreamSendHalf` (`transport/slipstream.rs`).

The two threads meet only in channel operations, so one step of the model is one channel operation
together with the thread-local code around it, and `poll_write` is cut where it touches a channel:
`pollWrite` runs up to the first `send_tx.try_send`, `pollWriteWake` is `wake_rx.poll_recv` after a
full queue, and `pollWriteRetry` is the `try_send` that follows a token. `Writer` is the position in
between. Every other poll touches one channel and is one step.

The polls are those that find budget left in their task: tokio answers `Pending` to the others,
wakes the task at once, and leaves the channel alone. So `readPending` says that nothing is queued.

`Bridge.machine` runs both sides in any order; the client and the server drive its `LoopOp`s.
-/
namespace TransportProxy.Slipstream
open Foundations
set_option autoImplicit false

abbrev Bytes := List UInt8

/-- `std::io::ErrorKind`, as far as the halves raise it. -/
inductive IoError where
  | brokenPipe
  | connectionReset
  deriving DecidableEq, Repr

abbrev recvCapacity : ℕ := 4096
abbrev sendCapacity : ℕ := 512
abbrev wakeCapacity : ℕ := 512

/-! ## The receiving half -/

/-- `SlipstreamRecvHalf` without its end of the channel. -/
structure SlipstreamRecvHalf where
  pending : Bytes
  pendingOff : ℕ
  deriving DecidableEq, Repr

namespace SlipstreamRecvHalf

def new : SlipstreamRecvHalf := ⟨[], 0⟩

/-- Hand out up to `remaining` bytes of `pending` from `pendingOff` on, and clear it at its end. -/
def take (half : SlipstreamRecvHalf) (remaining : ℕ) : Bytes × SlipstreamRecvHalf :=
  let n := min (half.pending.length - half.pendingOff) remaining
  let off := half.pendingOff + n
  ((half.pending.drop half.pendingOff).take n,
    if half.pending.length ≤ off then ⟨[], 0⟩ else { half with pendingOff := off })

/-- `poll_read` into a buffer with `remaining` free bytes: the bytes put into it. -/
def pollRead (half : SlipstreamRecvHalf) (recvRx : Channel Bytes recvCapacity) (remaining : ℕ) :
    Poll Bytes × SlipstreamRecvHalf × Channel Bytes recvCapacity :=
  if half.pendingOff < half.pending.length then
    let r := half.take remaining
    (.ready r.1, r.2, recvRx)
  else
    match recvRx.pollRecv with
    | (.ready (some v), q) =>
      -- an empty chunk is the in-band end marker
      if v.isEmpty then (.ready [], half, q)
      else
        let r := (⟨v, 0⟩ : SlipstreamRecvHalf).take remaining
        (.ready r.1, r.2, q)
    | (.ready none, q) => (.ready [], half, q)
    | (.pending, q) => (.pending, half, q)

/-- The bytes of `pending` that no read has returned yet. -/
def unread (half : SlipstreamRecvHalf) : Bytes := half.pending.drop half.pendingOff

end SlipstreamRecvHalf

/-! ## The sending half -/

/-- `SlipstreamSendHalf` without its ends of the channels. -/
structure SlipstreamSendHalf where
  pendingSend : Option (Bytes × ℕ)
  deriving DecidableEq, Repr

/-- Where the writing task stands with respect to `poll_write`. -/
inductive Writer where
  /-- no call in progress; the last one, if any, returned `Ready` -/
  | idle
  /-- the last call returned `Pending` -/
  | parked
  /-- inside a call: `try_send` found the queue full, `wake_rx.poll_recv` is next -/
  | full
  /-- inside a call: a token was taken, `try_send` is next -/
  | retry (toSend : Bytes × ℕ)
  deriving DecidableEq, Repr

/-- No call of `poll_write` is in progress, so the half can be borrowed or dropped. -/
def Writer.returned : Writer → Bool
  | .idle | .parked => true
  | .full | .retry _ => false

/-- Who holds the stream. Dropping it drops `recv_rx`, then `send_tx`, then `wake_rx`. -/
inductive Owner where
  | held
  | recvDropped
  | sendDropped
  | gone
  deriving DecidableEq, Repr

/-- A bridged stream: its channels and the state of the async side. -/
structure Bridge where
  recvQ : Channel Bytes recvCapacity
  sendQ : Channel Bytes sendCapacity
  wakeQ : Channel Unit wakeCapacity
  recvHalf : SlipstreamRecvHalf
  sendHalf : SlipstreamSendHalf
  writer : Writer
  owner : Owner

inductive BridgeObs where
  /-- `poll_read` returned `Ready(Ok)` with these bytes -/
  | read (data : Bytes)
  /-- and `Pending`, with an empty queue and not for want of budget -/
  | readPending
  /-- `send_tx.try_send` took this entry -/
  | queued (v : Bytes)
  | wrote (n : ℕ)
  | writePending
  | writeError (e : IoError)
  | flushed
  | shutdown
  /-- `recv_tx.try_send` took this chunk, or failed on it -/
  | received (v : Bytes)
  | refused (v : Bytes)
  /-- `send_rx.try_recv` returned this entry -/
  | popped (v : Bytes)
  /-- `wake_tx.try_send` left a token -/
  | token
  /-- the parked writer's waker was called -/
  | woken
  deriving DecidableEq, Repr

/-- A step of the task that holds the stream. -/
inductive AppOp where
  | pollRead (remaining : ℕ)
  | pollWrite (buf : Bytes)
  | pollWriteWake
  | pollWriteRetry
  | pollFlush
  | pollShutdown
  /-- the next field of the stream is dropped -/
  | dropStream
  deriving DecidableEq, Repr

/-- A channel operation of the packet-loop thread. -/
inductive LoopOp where
  | recvTrySend (v : Bytes)
  | sendTryRecv
  | wakeTrySend
  | dropRecvTx
  | dropSendRx
  | dropWakeTx
  deriving DecidableEq, Repr

inductive BridgeOp where
  | app (op : AppOp)
  | loop (op : LoopOp)
  deriving DecidableEq, Repr

namespace Bridge

def new : Bridge where
  recvQ := .new Bytes recvCapacity
  sendQ := .new Bytes sendCapacity
  wakeQ := .new Unit wakeCapacity
  recvHalf := .new
  sendHalf := ⟨none⟩
  writer := .idle
  owner := .held

/-! ## The async side -/

def pollRead (b : Bridge) (remaining : ℕ) : Bridge × List BridgeObs :=
  match b.recvHalf.pollRead b.recvQ remaining with
  | (.ready data, half, q) => ({ b with recvHalf := half, recvQ := q }, [.read data])
  | (.pending, half, q) => ({ b with recvHalf := half, recvQ := q }, [.readPending])

/-- The body of the loop of `poll_write` up to its next channel operation: `toSend` has been taken
out of `pending_send`, and goes back there when the queue is full. -/
def writeTrySend (b : Bridge) (toSend : Bytes × ℕ) : Bridge × List BridgeObs :=
  match b.sendQ.trySend toSend.1 with
  | (.ok (), q) =>
    ({ b with sendQ := q, sendHalf := ⟨none⟩, writer := .idle },
      [.queued toSend.1, .wrote toSend.2])
  | (.error .disconnected, _) =>
    ({ b with sendHalf := ⟨none⟩, writer := .idle }, [.writeError .brokenPipe])
  | (.error .full, _) => ({ b with sendHalf := ⟨some toSend⟩, writer := .full }, [])

/-- A new call: a chunk parked by an earlier call is sent in place of `buf`. -/
def pollWrite (b : Bridge) (buf : Bytes) : Bridge × List BridgeObs :=
  b.writeTrySend (b.sendHalf.pendingSend.getD (buf, buf.length))

/-- `none` is the panic of `pending_send.take().unwrap()`. -/
def pollWriteWake (b : Bridge) : Option (Bridge × List BridgeObs) :=
  match b.wakeQ.pollRecv with
  | (.ready (some ()), q) =>
    b.sendHalf.pendingSend.map fun toSend =>
      ({ b with wakeQ := q, sendHalf := ⟨none⟩, writer := .retry toSend }, [])
  | (.ready none, q) =>
    some ({ b with wakeQ := q, writer := .idle }, [.writeError .connectionReset])
  | (.pending, q) => some ({ b with wakeQ := q, writer := .parked }, [.writePending])

/-- The marker is dropped when the queue is full: the result of `try_send` is ignored. -/
def pollShutdown (b : Bridge) : Bridge × List BridgeObs :=
  match b.sendQ.trySend [] with
  | (.ok (), q) => ({ b with sendQ := q }, [.queued [], .shutdown])
  | (.error _, _) => (b, [.shutdown])

def dropStream (b : Bridge) : Option (Bridge × List BridgeObs) :=
  match b.owner with
  | .held => some ({ b with recvQ := b.recvQ.dropReceiver, owner := .recvDropped }, [])
  | .recvDropped => some ({ b with sendQ := b.sendQ.dropSender, owner := .sendDropped }, [])
  | .sendDropped => some ({ b with wakeQ := b.wakeQ.dropReceiver, owner := .gone }, [])
  | .gone => none

def app (b : Bridge) : AppOp → Option (Bridge × List BridgeObs)
  | .pollRead remaining => if b.owner = .held then some (b.pollRead remaining) else none
  | .pollWrite buf =>
    if b.owner = .held ∧ b.writer.returned then some (b.pollWrite buf) else none
  | .pollWriteWake => if b.writer = .full then b.pollWriteWake else none
  | .pollWriteRetry =>
    match b.writer with
    | .retry toSend => some (b.writeTrySend toSend)
    | _ => none
  | .pollFlush => if b.owner = .held ∧ b.writer.returned then some (b, [.flushed]) else none
  | .pollShutdown =>
    if b.owner = .held ∧ b.writer.returned then some b.pollShutdown else none
  | .dropStream => if b.writer.returned then b.dropStream else none

/-! ## The packet-loop side -/

/-- `let _ = recv_tx.try_send(v)` -/
def recvTrySend (b : Bridge) (v : Bytes) : Bridge × List BridgeObs :=
  match b.recvQ.trySend v with
  | (.ok (), q) => ({ b with recvQ := q }, [.received v])
  | (.error _, _) => (b, [.refused v])

def sendTryRecv (b : Bridge) : Except TryRecvError Bytes × Bridge × List BridgeObs :=
  match b.sendQ.tryRecv with
  | (.ok v, q) => (.ok v, { b with sendQ := q }, [.popped v])
  | (.error e, _) => (.error e, b, [])

/-- `let _ = wake_tx.try_send(())` -/
def wakeTrySend (b : Bridge) : Bridge × List BridgeObs :=
  match b.wakeQ.trySend () with
  | (.ok (), q) =>
    ({ b with wakeQ := q }, .token :: if b.wakeQ.waker then [.woken] else [])
  | (.error _, _) => (b, [])

def dropRecvTx (b : Bridge) : Bridge := { b with recvQ := b.recvQ.dropSender }

def dropSendRx (b : Bridge) : Bridge := { b with sendQ := b.sendQ.dropReceiver }

def dropWakeTx (b : Bridge) : Bridge × List BridgeObs :=
  ({ b with wakeQ := b.wakeQ.dropSender }, if b.wakeQ.waker then [.woken] else [])

def loop (b : Bridge) : LoopOp → Bridge × List BridgeObs
  | .recvTrySend v => b.recvTrySend v
  | .sendTryRecv => b.sendTryRecv.2
  | .wakeTrySend => b.wakeTrySend
  | .dropRecvTx => (b.dropRecvTx, [])
  | .dropSendRx => (b.dropSendRx, [])
  | .dropWakeTx => b.dropWakeTx

def step (b : Bridge) : BridgeOp → Option (Bridge × List BridgeObs)
  | .app op => b.app op
  | .loop op => some (b.loop op)

/-- Both sides of one stream in any order. -/
def machine : Machine Bridge BridgeOp BridgeObs := ⟨step⟩

end Bridge
end TransportProxy.Slipstream
