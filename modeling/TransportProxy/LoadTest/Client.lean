import TransportProxy.Bridge.Halves
import TransportProxy.Foundations.Hex

/-! # A client of the load test

`run_client` of `bin/load_test.rs`: frames of `message_size + 16` bytes, each written, flushed and
read back before the next. The first 16 bytes of a frame are the numbers of the client and of the
message in hexadecimal.

Other clients run at the same time and share four counters, so each `fetch_add` is a step of its
own. The stream is open at its other end: any bytes may come back.
-/
namespace TransportProxy.LoadTest
open Foundations Slipstream
set_option autoImplicit false

structure Args where
  connections : ℕ
  messages : ℕ
  messageSize : ℕ
  durationSecs : Option ℕ
  deriving DecidableEq, Repr

/-- `max_messages` -/
def Args.maxMessages (args : Args) : Option ℕ :=
  if args.durationSecs.isSome then none else some args.messages

def Args.frameLen (args : Args) : ℕ := args.messageSize + 16

/-- `(0..message_size).map(|i| (i % 256) as u8)` -/
def Args.payload (args : Args) : Bytes :=
  (List.range args.messageSize).map fun i => (i % 256).toUInt8

/-- `format!("{:08x}{:08x}", client_id, sent_count)` -/
def framePrefix (clientId sentCount : ℕ) : Bytes := lowerHex 8 clientId ++ lowerHex 8 sentCount

/-- Where `run_client` stands. -/
inductive ClientPc where
  | connecting
  /-- at the top of the loop, with its two checks -/
  | top
  /-- `write_all` of the prefix and of the payload, with what is left to be written -/
  | writePrefix (rest : Bytes)
  | writePayload (rest : Bytes)
  | flush
  /-- `TOTAL_SENT.fetch_add(1)` -/
  | countSent
  /-- `read_exact(&mut buf)`, with what has been read -/
  | readExact (buf : Bytes)
  /-- `TOTAL_LATENCY_MS.fetch_add(rtt_ms)`, `LATENCY_COUNT.fetch_add(1)` -/
  | addLatency
  | countLatency
  /-- `TOTAL_RECV.fetch_add(1)` and `sent_count += 1` -/
  | countRecv
  | returned
  /-- returned an error; it may have come while an answer was awaited -/
  | failed (awaiting : Bool)
  deriving DecidableEq, Repr

/-- A client, with the bytes that its stream has taken and given. -/
structure LoadClient where
  pc : ClientPc
  sentCount : ℕ
  written : Bytes
  answered : Bytes
  deriving DecidableEq, Repr

inductive ClientEvent where
  | connected
  /-- the checks at the top of the loop; `expired` is `Instant::now() >= until` -/
  | check (expired : Bool)
  /-- the stream takes this many bytes of a `write_all` -/
  | wrote (n : ℕ)
  /-- a `write_all` has nothing left to write -/
  | writeDone
  | flushed
  | fetchAdd (rttMs : UInt64)
  /-- bytes come back -/
  | answered (data : Bytes)
  /-- `read_exact` has filled its buffer -/
  | readDone
  /-- whatever is awaited returns an error -/
  | fails
  deriving DecidableEq, Repr

/-- The points that a message passes. -/
inductive Mark where
  | flushed (count : ℕ)
  | countedSent
  | answered (count : ℕ) (buf : Bytes)
  | addedLatency (rttMs : UInt64)
  | countedLatency
  | countedRecv
  deriving DecidableEq, Repr

namespace LoadClient

def init : LoadClient := ⟨.connecting, 0, [], []⟩

/-- The loop ends at the limit on messages, or at the deadline. -/
def stops (args : Args) (c : LoadClient) (expired : Bool) : Bool :=
  args.maxMessages.any (· ≤ c.sentCount) || (args.durationSecs.isSome && expired)

def step (args : Args) (id : ℕ) (c : LoadClient) : ClientEvent → Option (LoadClient × List Mark)
  | .connected => if c.pc = .connecting then some ({ c with pc := .top }, []) else none
  | .check expired =>
    if c.pc = .top then
      if c.stops args expired then some ({ c with pc := .returned }, [])
      else some ({ c with pc := .writePrefix (framePrefix id c.sentCount) }, [])
    else none
  | .wrote n =>
    match c.pc with
    | .writePrefix rest =>
      if 0 < n ∧ n ≤ rest.length then
        some ({ c with pc := .writePrefix (rest.drop n), written := c.written ++ rest.take n }, [])
      else none
    | .writePayload rest =>
      if 0 < n ∧ n ≤ rest.length then
        some ({ c with pc := .writePayload (rest.drop n), written := c.written ++ rest.take n }, [])
      else none
    | _ => none
  | .writeDone =>
    match c.pc with
    | .writePrefix [] => some ({ c with pc := .writePayload args.payload }, [])
    | .writePayload [] => some ({ c with pc := .flush }, [])
    | _ => none
  | .flushed =>
    if c.pc = .flush then some ({ c with pc := .countSent }, [.flushed c.sentCount]) else none
  | .fetchAdd rttMs =>
    match c.pc with
    | .countSent => some ({ c with pc := .readExact [] }, [.countedSent])
    | .addLatency => some ({ c with pc := .countLatency }, [.addedLatency rttMs])
    | .countLatency => some ({ c with pc := .countRecv }, [.countedLatency])
    | .countRecv => some ({ c with pc := .top, sentCount := c.sentCount + 1 }, [.countedRecv])
    | _ => none
  | .answered data =>
    match c.pc with
    | .readExact buf =>
      if 0 < data.length ∧ buf.length + data.length ≤ args.frameLen then
        some ({ c with pc := .readExact (buf ++ data), answered := c.answered ++ data }, [])
      else none
    | _ => none
  | .readDone =>
    match c.pc with
    | .readExact buf =>
      if buf.length = args.frameLen then
        some ({ c with pc := .addLatency }, [.answered c.sentCount buf])
      else none
    | _ => none
  | .fails =>
    match c.pc with
    | .connecting | .writePrefix _ | .writePayload _ | .flush =>
      some ({ c with pc := .failed false }, [])
    | .readExact _ => some ({ c with pc := .failed true }, [])
    | _ => none

/-! ## What one step can do -/

inductive Step (args : Args) (id : ℕ) (c : LoadClient) :
    ClientEvent → LoadClient → List Mark → Prop where
  | connected (hp : c.pc = .connecting) : Step args id c .connected { c with pc := .top } []
  | stops {expired} (hp : c.pc = .top) (hs : c.stops args expired = true) :
      Step args id c (.check expired) { c with pc := .returned } []
  | begins {expired} (hp : c.pc = .top) (hs : c.stops args expired = false) :
      Step args id c (.check expired) { c with pc := .writePrefix (framePrefix id c.sentCount) } []
  | wrotePrefix {n rest} (hp : c.pc = .writePrefix rest) :
      Step args id c (.wrote n)
        { c with pc := .writePrefix (rest.drop n), written := c.written ++ rest.take n } []
  | wrotePayload {n rest} (hp : c.pc = .writePayload rest) :
      Step args id c (.wrote n)
        { c with pc := .writePayload (rest.drop n), written := c.written ++ rest.take n } []
  | prefixDone (hp : c.pc = .writePrefix []) :
      Step args id c .writeDone { c with pc := .writePayload args.payload } []
  | payloadDone (hp : c.pc = .writePayload []) :
      Step args id c .writeDone { c with pc := .flush } []
  | flushed (hp : c.pc = .flush) :
      Step args id c .flushed { c with pc := .countSent } [.flushed c.sentCount]
  | countSent {rttMs} (hp : c.pc = .countSent) :
      Step args id c (.fetchAdd rttMs) { c with pc := .readExact [] } [.countedSent]
  | answered {buf data} (hp : c.pc = .readExact buf) (hd : 0 < data.length)
      (hle : buf.length + data.length ≤ args.frameLen) :
      Step args id c (.answered data)
        { c with pc := .readExact (buf ++ data), answered := c.answered ++ data } []
  | readDone {buf} (hp : c.pc = .readExact buf) (hl : buf.length = args.frameLen) :
      Step args id c .readDone { c with pc := .addLatency } [.answered c.sentCount buf]
  | addLatency {rttMs} (hp : c.pc = .addLatency) :
      Step args id c (.fetchAdd rttMs) { c with pc := .countLatency } [.addedLatency rttMs]
  | countLatency {rttMs} (hp : c.pc = .countLatency) :
      Step args id c (.fetchAdd rttMs) { c with pc := .countRecv } [.countedLatency]
  | countRecv {rttMs} (hp : c.pc = .countRecv) :
      Step args id c (.fetchAdd rttMs)
        { c with pc := .top, sentCount := c.sentCount + 1 } [.countedRecv]
  | connectFails (hp : c.pc = .connecting) : Step args id c .fails { c with pc := .failed false } []
  | writeFails {rest} (hp : c.pc = .writePrefix rest ∨ c.pc = .writePayload rest) :
      Step args id c .fails { c with pc := .failed false } []
  | flushFails (hp : c.pc = .flush) : Step args id c .fails { c with pc := .failed false } []
  | readFails {buf} (hp : c.pc = .readExact buf) :
      Step args id c .fails { c with pc := .failed true } []

theorem step_cases {args : Args} {id : ℕ} {c c' : LoadClient} {e : ClientEvent} {out : List Mark}
    (h : c.step args id e = some (c', out)) : Step args id c e c' out := by
  cases e with
  | connected =>
    obtain ⟨hp, h⟩ := Option.ite_none_right_eq_some.mp h
    cases h
    exact .connected hp
  | check expired =>
    simp only [step, Option.ite_none_right_eq_some] at h
    obtain ⟨hp, h⟩ := h
    cases hs : c.stops args expired with
    | true =>
      rw [hs, if_pos rfl] at h
      cases h
      exact .stops hp hs
    | false =>
      rw [hs, if_neg Bool.false_ne_true] at h
      cases h
      exact .begins hp hs
  | wrote n =>
    simp only [step] at h
    split at h
    · obtain ⟨-, h⟩ := Option.ite_none_right_eq_some.mp h
      cases h
      exact .wrotePrefix ‹_›
    · obtain ⟨-, h⟩ := Option.ite_none_right_eq_some.mp h
      cases h
      exact .wrotePayload ‹_›
    · cases h
  | writeDone =>
    simp only [step] at h
    split at h
    · cases h
      exact .prefixDone ‹_›
    · cases h
      exact .payloadDone ‹_›
    · cases h
  | flushed =>
    obtain ⟨hp, h⟩ := Option.ite_none_right_eq_some.mp h
    cases h
    exact .flushed hp
  | fetchAdd rttMs =>
    simp only [step] at h
    split at h
    · cases h
      exact .countSent ‹_›
    · cases h
      exact .addLatency ‹_›
    · cases h
      exact .countLatency ‹_›
    · cases h
      exact .countRecv ‹_›
    · cases h
  | answered data =>
    simp only [step] at h
    split at h
    · obtain ⟨⟨hd, hle⟩, h⟩ := Option.ite_none_right_eq_some.mp h
      cases h
      exact .answered ‹_› hd hle
    · cases h
  | readDone =>
    simp only [step] at h
    split at h
    · obtain ⟨hl, h⟩ := Option.ite_none_right_eq_some.mp h
      cases h
      exact .readDone ‹_› hl
    · cases h
  | fails =>
    simp only [step] at h
    split at h
    · cases h
      exact .connectFails ‹_›
    · cases h
      exact .writeFails (.inl ‹_›)
    · cases h
      exact .writeFails (.inr ‹_›)
    · cases h
      exact .flushFails ‹_›
    · cases h
      exact .readFails ‹_›
    · cases h

end LoadClient
end TransportProxy.LoadTest
