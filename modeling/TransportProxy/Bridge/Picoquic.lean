import TransportProxy.Bridge.Halves

/-! # The picoquic interface

The events, modes and constants of `slipstream_picoquic_sys/picoquic.rs` that the callbacks look at.
A call into the library that returns something is an input of the step that makes it; a call that
the results of this development speak about is also an observation of that step.
-/
namespace TransportProxy.Slipstream
set_option autoImplicit false

/-- The value of a `*mut picoquic_cnx_t`; `0` is null. -/
abbrev CnxPtr := ℕ

/-- `picoquic_call_back_event_t` -/
inductive PicoquicCallBackEvent where
  | streamData
  | streamFin
  | streamReset
  | stopSending
  | statelessReset
  | close
  | applicationClose
  | streamGap
  | prepareToSend
  | almostReady
  | ready
  | datagram
  | versionNegotiation
  | requestAlpnList
  | setAlpn
  | pacingChanged
  | prepareDatagram
  | datagramAcked
  | datagramLost
  | datagramSpurious
  | pathAvailable
  | pathSuspended
  | pathDeleted
  | pathQualityChanged
  | pathAddressObserved
  | appWakeup
  deriving DecidableEq, Repr

/-- The connection is over: the three events that both callbacks treat alike. -/
def PicoquicCallBackEvent.closes : PicoquicCallBackEvent → Bool
  | .close | .applicationClose | .statelessReset => true
  | _ => false

/-- The arguments of a `picoquic_stream_data_cb_fn`; `bytes` is `none` for a null pointer. -/
structure StreamCallback where
  cnx : CnxPtr
  streamId : UInt64
  bytes : Option Bytes
  event : PicoquicCallBackEvent
  deriving DecidableEq, Repr

/-- The bytes that came with the event. -/
def StreamCallback.payload (cb : StreamCallback) : Bytes := cb.bytes.getD []

/-- `!bytes.is_null() && length > 0` -/
def StreamCallback.chunk (cb : StreamCallback) : Option Bytes :=
  match cb.bytes with
  | some [] | none => none
  | some (byte :: rest) => some (byte :: rest)

/-- The bytes that a stream_data event delivers. -/
def StreamCallback.data (cb : StreamCallback) : Option Bytes :=
  if cb.event = .streamData then cb.chunk else none

def picoquicPacketLoopReady : ℤ := 0
def picoquicPacketLoopAfterReceive : ℤ := 2
def picoquicPacketLoopAfterSend : ℤ := 3
def picoquicPacketLoopTimeCheck : ℤ := 5
def picoquicNoErrorTerminatePacketLoop : ℤ := 0x400 + 47

/-- What the `arg` of a `picoquic_packet_loop_cb_fn` points to: nothing, the options of the loop,
or a `packet_loop_time_check_arg_t` with its `delta_t`. -/
inductive LoopArg where
  | null
  | options
  | timeCheck (deltaT : ℤ)
  deriving DecidableEq, Repr

def LoopArg.deltaT : LoopArg → Option ℤ
  | .timeCheck d => some d
  | _ => none

/-- The cap that both loop callbacks put on the idle wait. -/
def capDeltaT (d : ℤ) : ℤ := if d > 1000 then 1000 else d

/-- `let fin = if data.is_empty() { 1 } else { 0 }` -/
def finOf (data : Bytes) : ℤ := if data = [] then 1 else 0

theorem finOf_eq_one {data : Bytes} : finOf data = 1 ↔ data = [] := by
  unfold finOf
  split <;> simp_all

/-- A call of `picoquic_add_to_stream`: its arguments and what it returned. -/
structure AddToStream where
  cnx : CnxPtr
  streamId : UInt64
  data : Bytes
  setFin : ℤ
  ret : ℤ
  deriving DecidableEq, Repr

/-- The entry that the call is for, and whether the call returned zero. -/
@[simp] def AddToStream.entry (c : AddToStream) : Bytes × Bool := (c.data, c.ret == 0)

theorem StreamCallback.chunk_ne_nil {cb : StreamCallback} {v : Bytes} (h : cb.chunk = some v) :
    v ≠ [] := by
  unfold chunk at h
  split at h
  · cases h
  · cases h
  · simp only [Option.some.injEq] at h
    subst h
    simp

theorem StreamCallback.chunk_getD (cb : StreamCallback) : cb.chunk.getD [] = cb.payload := by
  unfold chunk payload
  split <;> simp_all

end TransportProxy.Slipstream
