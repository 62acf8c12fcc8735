import TransportProxy.Bridge.Halves
import TransportProxy.Foundations.Cutter
import TransportProxy.Foundations.LittleEndian

/-! # Feeding KCP packets

The feeders of `benches/common/packet_feed.rs` cut packets off the bytes that have come from a
socket and pass them to `Kcp::input`. The callers (`benches/ys_kcp.rs`) put every datagram behind
what the buffer holds and call the feeder.

`Kcp::input` is a parameter: from the state of the control block and a packet to the state after it
and the result.
-/
namespace TransportProxy.Bench
open Foundations Slipstream
set_option autoImplicit false

variable {σ ε : Type}

/-- A header of `overhead` bytes that has the length of the payload at `lenAt`. -/
structure PacketHeader where
  overhead : ℕ
  lenAt : ℕ
  fits : lenAt + 4 ≤ overhead
  small : overhead < 2 ^ 32

/-- `KCP_OVERHEAD` -/
def kcpHeader : PacketHeader := ⟨24, 20, by decide, by decide⟩

/-- `KCP_OVERHEAD_YS`; the header has a token field. -/
def ysKcpHeader : PacketHeader := ⟨28, 24, by decide, by decide⟩

namespace PacketHeader

/-- `u32::from_le_bytes([buf[20], buf[21], buf[22], buf[23]]) as usize` -/
def payloadLen (h : PacketHeader) (buf : Bytes) : ℕ := (fromLeBytes (buf.drop h.lenAt)).toNat

/-- `KCP_OVERHEAD + payload_len`, a `usize` of 64 bits -/
def packetLen (h : PacketHeader) (buf : Bytes) : ℕ := (h.overhead + h.payloadLen buf) % 2 ^ 64

/-- The addition does not wrap around. -/
theorem packetLen_eq (h : PacketHeader) (buf : Bytes) :
    h.packetLen buf = h.overhead + h.payloadLen buf := by
  have hlen : h.payloadLen buf < 2 ^ 32 := UInt32.toNat_lt _
  have hsmall := h.small
  exact Nat.mod_eq_of_lt (by omega)

end PacketHeader

/-- The loop of the three feeders. -/
def feedPackets (h : PacketHeader) (input : σ → Bytes → σ × Except ε Unit) (kcp : σ)
    (buf : Bytes) : FeedCall UInt8 σ ε :=
  if h.overhead ≤ buf.length then
    if buf.length < h.packetLen buf then ⟨[], kcp, buf, .ok ()⟩
    else
      let packet := buf.take (h.packetLen buf)
      match input kcp packet with
      | (kcp', .ok ()) => (feedPackets h input kcp' (buf.drop (h.packetLen buf))).after packet
      | (kcp', .error e) => ⟨[packet], kcp', buf.drop (h.packetLen buf), .error e⟩
  else ⟨[], kcp, buf, .ok ()⟩
termination_by buf.length
decreasing_by
  have hfits := h.fits
  have hlen := h.packetLen_eq buf
  rw [List.length_drop]
  omega

def feedPacketsToKcp (input : σ → Bytes → σ × Except ε Unit) :
    σ → Bytes → FeedCall UInt8 σ ε := feedPackets kcpHeader input

def feedPacketsToKcprs (input : σ → Bytes → σ × Except ε Unit) :
    σ → Bytes → FeedCall UInt8 σ ε := feedPackets kcpHeader input

def feedPacketsToYsKcp (input : σ → Bytes → σ × Except ε Unit) :
    σ → Bytes → FeedCall UInt8 σ ε := feedPackets ysKcpHeader input

/-! ## The header as a cutter -/

namespace PacketHeader

/-- More bytes do not change the length that a complete header declares. -/
theorem packetLen_append (h : PacketHeader) {buf : Bytes} (hb : h.overhead ≤ buf.length)
    (more : Bytes) : h.packetLen (buf ++ more) = h.packetLen buf := by
  have hfits := h.fits
  have hfour : 4 ≤ (buf.drop h.lenAt).length := by
    rw [List.length_drop]
    omega
  rw [packetLen, payloadLen, List.drop_append_of_le_length (by omega), fromLeBytes_append hfour]
  rfl

/-- The buffer holds the whole of its first packet. -/
def Complete (h : PacketHeader) (buf : Bytes) : Prop :=
  h.overhead ≤ buf.length ∧ h.packetLen buf ≤ buf.length

instance (h : PacketHeader) (buf : Bytes) : Decidable (h.Complete buf) :=
  inferInstanceAs (Decidable (_ ∧ _))

def cutter (h : PacketHeader) : Cutter UInt8 where
  cut buf :=
    if h.Complete buf then some (buf.take (h.packetLen buf), buf.drop (h.packetLen buf)) else none
  append_eq := by
    intro xs p rest hc
    obtain ⟨-, hc⟩ := Option.ite_none_right_eq_some.mp hc
    obtain ⟨rfl, rfl⟩ := Prod.mk.inj (Option.some.inj hc)
    exact List.take_append_drop _ _
  ne_nil := by
    intro xs p rest hc
    obtain ⟨⟨hb, hle⟩, hc⟩ := Option.ite_none_right_eq_some.mp hc
    obtain ⟨rfl, -⟩ := Prod.mk.inj (Option.some.inj hc)
    have hfits := h.fits
    have hlen := h.packetLen_eq xs
    apply List.ne_nil_of_length_pos
    rw [List.length_take]
    omega
  stable := by
    intro xs p rest ys hc
    obtain ⟨⟨hb, hle⟩, hc⟩ := Option.ite_none_right_eq_some.mp hc
    obtain ⟨rfl, rfl⟩ := Prod.mk.inj (Option.some.inj hc)
    have hsame := h.packetLen_append hb ys
    have hcomplete : h.Complete (xs ++ ys) := by
      rw [Complete, hsame, List.length_append]
      omega
    rw [if_pos hcomplete, hsame, List.take_append_of_le_length hle,
      List.drop_append_of_le_length hle]

theorem cut_of_complete (h : PacketHeader) {buf : Bytes} (hb : h.Complete buf) :
    h.cutter.cut buf = some (buf.take (h.packetLen buf), buf.drop (h.packetLen buf)) := if_pos hb

theorem cut_eq_none_iff (h : PacketHeader) (buf : Bytes) :
    h.cutter.cut buf = none ↔ ¬ h.Complete buf := by
  by_cases hb : h.Complete buf
  · simp [h.cut_of_complete hb, hb]
  · exact iff_of_true (if_neg hb) hb

/-- A packet cut off is one header and the payload that the header declares. -/
theorem length_of_cut (h : PacketHeader) {p rest : Bytes}
    (hc : h.cutter.cut (p ++ rest) = some (p, rest)) :
    p.length = h.overhead + h.payloadLen p := by
  obtain ⟨⟨hb, hle⟩, hc⟩ := Option.ite_none_right_eq_some.mp hc
  obtain ⟨hp, -⟩ := Prod.mk.inj (Option.some.inj hc)
  have hlen : p.length = h.packetLen (p ++ rest) := by
    have htake := congrArg List.length hp
    rwa [List.length_take_of_le hle, eq_comm] at htake
  have hhead : h.overhead ≤ p.length := by
    rw [hlen, packetLen_eq]
    exact Nat.le_add_right ..
  rw [hlen, h.packetLen_append hhead, packetLen_eq]

end PacketHeader

theorem feedPackets_eq_feed (h : PacketHeader) (input : σ → Bytes → σ × Except ε Unit) :
    feedPackets h input = h.cutter.feed input := by
  funext kcp buf
  fun_induction feedPackets h input kcp buf with
  | case1 kcp buf hb hshort =>
    have hnone := (h.cut_eq_none_iff buf).mpr fun hc => by
      have hle := hc.2
      omega
    rw [h.cutter.feed_of_none hnone]
  | case2 kcp buf hb hlong packet kcp' hi ih =>
    rw [h.cutter.feed_of_some (h.cut_of_complete ⟨hb, by omega⟩), hi, ih]
  | case3 kcp buf hb hlong packet kcp' e hi =>
    rw [h.cutter.feed_of_some (h.cut_of_complete ⟨hb, by omega⟩), hi]
  | case4 kcp buf hb =>
    have hnone := (h.cut_eq_none_iff buf).mpr fun hc => hb hc.1
    rw [h.cutter.feed_of_none hnone]

/-! ## Reassembly -/

/-- What a feeder for packets with the header `h` does. -/
structure Reassembles (h : PacketHeader) (input : σ → Bytes → σ × Except ε Unit)
    (feed : σ → Bytes → FeedCall UInt8 σ ε) : Prop where
  /-- However the bytes are cut, the calls of `Kcp::input` and their outcome are the same, and so is
  what is left in the buffer unless a call has failed. -/
  cuts : ∀ kcp pieces, (feedPieces feed kcp [] pieces).Same (feed kcp pieces.flatten)
  accepts : (∀ kcp packet, (input kcp packet).2 = .ok ()) → ∀ kcp buf, (feed kcp buf).res = .ok ()
  conserved : ∀ kcp buf, (feed kcp buf).packets.flatten ++ (feed kcp buf).rest = buf
  packet : ∀ kcp buf, ∀ p ∈ (feed kcp buf).packets, p.length = h.overhead + h.payloadLen p
  rest : ∀ kcp buf, (feed kcp buf).res = .ok () →
    (feed kcp buf).rest.length < h.overhead ∨
      (feed kcp buf).rest.length < h.overhead + h.payloadLen (feed kcp buf).rest
  /-- The packets are those that `Kcp::input` has been called with. -/
  calls : ∀ kcp buf, (feed kcp buf).callee = calleeAfter input kcp (feed kcp buf).packets
  refused : ∀ kcp buf ps p qs e, (feed kcp buf).packets = ps ++ p :: qs →
    (input (calleeAfter input kcp ps) p).2 = .error e →
    qs = [] ∧ (feed kcp buf).res = .error e ∧ buf = ps.flatten ++ p ++ (feed kcp buf).rest

theorem feedPackets_reassembles (h : PacketHeader) (input : σ → Bytes → σ × Except ε Unit) :
    Reassembles h input (feedPackets h input) := by
  rw [feedPackets_eq_feed]
  exact {
    cuts := h.cutter.feedPieces_same
    accepts := h.cutter.feed_ok
    conserved := h.cutter.feed_conserved
    packet := by
      intro kcp buf p hp
      obtain ⟨rest, hc⟩ := h.cutter.feed_packet hp
      exact h.length_of_cut hc
    rest := by
      intro kcp buf hok
      have hincomplete := (h.cut_eq_none_iff _).mp (h.cutter.feed_rest hok)
      rw [PacketHeader.Complete, h.packetLen_eq] at hincomplete
      omega
    calls := h.cutter.feed_callee
    refused := fun _ _ _ _ _ _ => h.cutter.feed_refused }

/-- All three feeders reassemble the packets of their header, whatever `Kcp::input` does. -/
theorem feeders_reassemble (input : σ → Bytes → σ × Except ε Unit) :
    Reassembles kcpHeader input (feedPacketsToKcp input) ∧
      Reassembles kcpHeader input (feedPacketsToKcprs input) ∧
      Reassembles ysKcpHeader input (feedPacketsToYsKcp input) :=
  ⟨feedPackets_reassembles kcpHeader input, feedPackets_reassembles kcpHeader input,
    feedPackets_reassembles ysKcpHeader input⟩

end TransportProxy.Bench
