import TransportProxy.Bridge.Halves
import TransportProxy.Foundations.LittleEndian

/-! # The stream loop of the quinn echo server

`start_quinn_echo_server_in_background_with_config` (`benches/quinn_bench.rs`) serves each stream by
a loop: a length prefix of four bytes, the data, and the echo of both. A prefix equal to the read
limit is the sentinel of the single-shot clients, which makes the server read to the end of the
stream and echo what it read.

A stream is reliable and ordered in each direction, so what was written and not read yet is a list
of bytes. `read_exact` completes when there are enough of them, at any later time, and fails if the
peer has finished and there are too few.
-/
namespace TransportProxy.Bench
open Foundations Slipstream
set_option autoImplicit false

abbrev quinnReadLimit : ℕ := 64 * 1024

/-- Where the loop stands. -/
inductive EchoPc where
  /-- `recv.read_exact(&mut len_buf)` -/
  | readLen
  /-- `recv.read_exact(&mut data)` -/
  | readData (lenBuf : Bytes)
  | writeLen (lenBuf data : Bytes)
  | writeData (data : Bytes)
  /-- `recv.read_to_end(QUINN_READ_LIMIT)` -/
  | readToEnd
  | writeEnd (data : Bytes)
  /-- the loop is left, and both halves of the stream are dropped -/
  | closed
  deriving DecidableEq, Repr

/-- A stream between a client and the server. -/
structure QuinnStream where
  pc : EchoPc
  /-- written by the client, not yet read by the server -/
  recv : Bytes
  /-- written by the server, not yet read by the client -/
  send : Bytes
  /-- the client has finished its side -/
  finished : Bool
  deriving DecidableEq, Repr

namespace QuinnStream

/-- `conn.open_bi()` -/
def opened : QuinnStream := ⟨.readLen, [], [], false⟩

/-- What a length prefix asks for. -/
def afterLen (lenBuf : Bytes) : EchoPc :=
  let len := (fromLeBytes lenBuf).toNat
  if len = quinnReadLimit then .readToEnd
  else if len = 0 ∨ quinnReadLimit < len then .closed
  else .readData lenBuf

/-- The next operation of the server; `none` while it waits. -/
def serve (s : QuinnStream) : Option QuinnStream :=
  match s.pc with
  | .readLen =>
    if 4 ≤ s.recv.length then
      some { s with pc := afterLen (s.recv.take 4), recv := s.recv.drop 4 }
    else if s.finished then some { s with pc := .closed } else none
  | .readData lenBuf =>
    let len := (fromLeBytes lenBuf).toNat
    if len ≤ s.recv.length then
      some { s with pc := .writeLen lenBuf (s.recv.take len), recv := s.recv.drop len }
    else if s.finished then some { s with pc := .closed } else none
  | .writeLen lenBuf data => some { s with pc := .writeData data, send := s.send ++ lenBuf }
  | .writeData data => some { s with pc := .readLen, send := s.send ++ data }
  | .readToEnd =>
    if quinnReadLimit < s.recv.length then some { s with pc := .closed }
    else if s.finished then some { s with pc := .writeEnd s.recv, recv := [] } else none
  | .writeEnd data => some { s with pc := .closed, send := s.send ++ data }
  | .closed => none

end QuinnStream

/-- `(payload.len() as u32).to_le_bytes()` -/
def lenPrefix (payload : Bytes) : Bytes := toLeBytes (.ofNat payload.length)

@[simp] theorem length_lenPrefix (payload : Bytes) : (lenPrefix payload).length = 4 := rfl

@[simp] theorem lenPrefix_ne_nil (payload : Bytes) : lenPrefix payload ≠ [] := nofun

theorem fromLeBytes_lenPrefix {payload : Bytes} (h : payload.length ≤ quinnReadLimit)
    (rest : Bytes) : (fromLeBytes (lenPrefix payload ++ rest)).toNat = payload.length := by
  rw [lenPrefix, fromLeBytes_toLeBytes, UInt32.toNat_ofNat']
  exact Nat.mod_eq_of_lt (Nat.lt_of_le_of_lt h (by decide))

@[simp] theorem take_lenPrefix (payload rest : Bytes) :
    (lenPrefix payload ++ rest).take 4 = lenPrefix payload := rfl

@[simp] theorem drop_lenPrefix (payload rest : Bytes) :
    (lenPrefix payload ++ rest).drop 4 = rest := rfl

theorem lenPrefix_toNat {payload : Bytes} (h : payload.length ≤ quinnReadLimit) :
    (fromLeBytes (lenPrefix payload)).toNat = payload.length := by
  have hfrom := fromLeBytes_lenPrefix h []
  rwa [List.append_nil] at hfrom

theorem QuinnStream.afterLen_of_lt {payload : Bytes} (h₁ : 1 ≤ payload.length)
    (h₂ : payload.length < quinnReadLimit) :
    afterLen (lenPrefix payload) = .readData (lenPrefix payload) := by
  unfold afterLen
  simp only [lenPrefix_toNat h₂.le]
  rw [if_neg h₂.ne, if_neg (by omega)]

theorem QuinnStream.afterLen_of_eq {payload : Bytes} (h : payload.length = quinnReadLimit) :
    afterLen (lenPrefix payload) = .readToEnd := by
  unfold afterLen
  simp only [lenPrefix_toNat h.le]
  rw [if_pos h]

end TransportProxy.Bench
