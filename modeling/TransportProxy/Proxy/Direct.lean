import TransportProxy.Foundations.Simulation
import TransportProxy.Foundations.Wire
import TransportProxy.Proxy.HalfClose

/-! # A proxied connection is a wire

What the client of a proxied connection and its upstream see, each at its own TCP stream, is what
they would see if they were connected directly: as long as the connection between the tasks goes on
or ends in good order, whatever happens at the two TCP streams could happen at the ends of a wire.
-/
namespace TransportProxy.Slipstream
open Foundations
set_option autoImplicit false

/-- What happens at the TCP stream of the client, and at that of the upstream, as what happens at
the ends of a wire. -/
def TcpObs.near : TcpObs → WireEvent UInt8
  | .read data => .up (.put data)
  | .wrote data => .down (.take data)
  | .shutdown => .down .close

def TcpObs.far : TcpObs → WireEvent UInt8
  | .read data => .down (.put data)
  | .wrote data => .up (.take data)
  | .shutdown => .up .close

def ProxiedObs.wire? (j : ℕ) : ProxiedObs → Option (WireEvent UInt8)
  | .near o => some o.near
  | .far i o => if i = j then some o.far else none
  | .duplex _ => none

/-! ## One task and its two pipes -/

namespace RelayTask

/-- What the pipe from `a` to `b` has in it, where `u` happened at the TCP stream of `a` and `v` at
that of `b`. -/
structure Piped (a b : RelayTask) (u v : List TcpObs) (p : Pipe UInt8) : Prop where
  content : tcpIn u = tcpOut v ++ p.content
  ended : p.ended = a.toStream.ended
  closed : p.closed = b.toTcp.shut

variable {a a' b b' : RelayTask} {u v tout : List TcpObs} {p p' q q' : Pipe UInt8} {e : RelayEvent}

theorem Piped.init : Piped .init .init [] [] .empty := ⟨rfl, rfl, rfl⟩

theorem Piped.congr (h : Piped a b u v p) (ha : a'.toStream.ended = a.toStream.ended)
    (hb : b'.toTcp.shut = b.toTcp.shut) : Piped a' b' u v p :=
  ⟨h.content, h.ended.trans ha.symm, h.closed.trans hb.symm⟩

theorem next_kept (task : RelayTask) (out : List BridgeObs) :
    (task.next out).toStream.ended = task.toStream.ended ∧
      (task.next out).toTcp.shut = task.toTcp.shut := by
  unfold next
  split
  · exact ⟨rfl, rfl⟩
  · split <;> exact ⟨rfl, rfl⟩
  · exact ⟨rfl, rfl⟩
  · exact ⟨rfl, rfl⟩
  · exact ⟨rfl, rfl⟩

/-- What happens at one end of a wire with `p` as the pipe from there and `q` as the pipe to it. -/
inductive Moves (p q : Pipe UInt8) : List TcpObs → Pipe UInt8 → Pipe UInt8 → Prop where
  | none : Moves p q [] p q
  | put {data : Bytes} {r : Pipe UInt8} (h : p.step (.put data) = some r) :
      Moves p q [.read data] r q
  | take {data : Bytes} {r : Pipe UInt8} (h : q.step (.take data) = some r) :
      Moves p q [.wrote data] p r
  | close {r : Pipe UInt8} (h : q.step .close = some r) : Moves p q [.shutdown] p r

theorem Moves.near (h : Moves p q tout p' q') : ∃ fs,
    Wire.machine.run ⟨p, q⟩ fs = some (⟨p', q'⟩, tout.map TcpObs.near) := by
  cases h with
  | none => exact ⟨[], rfl⟩
  | put h => exact ⟨_, Wire.run_up (w := ⟨p, q⟩) h⟩
  | take h | close h => exact ⟨_, Wire.run_down (w := ⟨p, q⟩) h⟩

theorem Moves.far (h : Moves p q tout p' q') : ∃ fs,
    Wire.machine.run ⟨q, p⟩ fs = some (⟨q', p'⟩, tout.map TcpObs.far) := by
  cases h with
  | none => exact ⟨[], rfl⟩
  | put h => exact ⟨_, Wire.run_down (w := ⟨q, p⟩) h⟩
  | take h | close h => exact ⟨_, Wire.run_up (w := ⟨q, p⟩) h⟩

/-- An operation of `a` on its TCP stream is a move at that end of the wire, if it writes there only
what has come out of the other TCP stream, and shuts it down only after all of that. -/
theorem Piped.tcp (hp : Piped a b u v p) (hq : Piped b a v u q) (ht : a.tcp e = some (a', tout))
    (hv : EndMarked (tcpReads v) b.toStream.ended) (hfront : tcpOut (u ++ tout) <+: tcpIn v)
    (hwhole : .shutdown ∈ u ++ tout → [] ∈ tcpReads v ∧ tcpOut (u ++ tout) = tcpIn v) :
    ∃ p' q', Moves p q tout p' q' ∧ Piped a' b (u ++ tout) v p' ∧ Piped b a' v (u ++ tout) q' := by
  cases e with
  | tcpRead data =>
    simp only [RelayTask.tcp, Option.ite_none_right_eq_some, Option.some.injEq, Prod.mk.injEq] at ht
    obtain ⟨⟨-, he⟩, rfl, rfl⟩ := ht
    refine ⟨⟨p.content ++ data, data.isEmpty, p.closed⟩, q,
      .put (p.step_put (hp.ended.trans he) data), ⟨?_, rfl, hp.closed⟩, ⟨?_, hq.ended, hq.closed⟩⟩
    · have hc := congrArg (· ++ data) hp.content
      simpa [tcpIn] using hc
    · simpa [tcpOut] using hq.content
  | tcpWrite n =>
    simp only [RelayTask.tcp, Option.ite_none_right_eq_some, Option.some.injEq, Prod.mk.injEq] at ht
    obtain ⟨-, rfl, rfl⟩ := ht
    have hout : tcpOut (u ++ [.wrote (a.toTcp.rest.take n)]) = tcpOut u ++ a.toTcp.rest.take n := by
      simp [tcpOut]
    rw [hout, hq.content] at hfront
    obtain ⟨rest, hr⟩ := (List.prefix_append_right_inj _).mp hfront
    refine ⟨p, ⟨rest, q.ended, q.closed⟩, .take (Pipe.step_take hr.symm),
      ⟨?_, hp.ended, hp.closed⟩, ⟨?_, hq.ended, hq.closed⟩⟩
    · simpa [tcpIn] using hp.content
    · rw [hout, hq.content, ← hr, List.append_assoc]
  | tcpShutdown =>
    simp only [RelayTask.tcp, Option.ite_none_right_eq_some, Option.some.injEq, Prod.mk.injEq] at ht
    obtain ⟨⟨-, -, -, hs⟩, rfl, rfl⟩ := ht
    obtain ⟨hm, hall⟩ := hwhole (by simp)
    have hout : tcpOut (u ++ [.shutdown]) = tcpOut u := by simp [tcpOut]
    rw [hout, hq.content, List.self_eq_append_right] at hall
    have hended := hq.ended.trans (hv.mem_iff.mp hm)
    have hclosed := hq.closed.trans hs
    refine ⟨p, ⟨q.content, q.ended, true⟩, .close (Pipe.step_close hended hall hclosed),
      ⟨?_, hp.ended, hp.closed⟩, ⟨?_, hq.ended, rfl⟩⟩
    · simpa [tcpIn] using hp.content
    · rw [hout, hq.content]
  | tcpFails | finish =>
    simp only [RelayTask.tcp, Option.ite_none_right_eq_some, Option.some.injEq, Prod.mk.injEq] at ht
    obtain ⟨-, rfl, rfl⟩ := ht
    rw [List.append_nil]
    exact ⟨p, q, .none, hp.congr rfl rfl, hq.congr rfl rfl⟩
  | read | write | flush | shutdown | drop => cases ht

end RelayTask

/-! ## The whole connection -/

namespace Proxied
variable {key : CnxPtr} {sid : UInt64} {j : ℕ} {s s' : Proxied} {e : ProxiedEvent}
  {es : List ProxiedEvent} {tr out : List ProxiedObs}

/-- What a trace shows at the ends, the client's TCP stream and the upstream of stream `j`. -/
def ends (j : ℕ) (tr : List ProxiedObs) : List (WireEvent UInt8) :=
  tr.filterMap (ProxiedObs.wire? j)

theorem ends_map_near (j : ℕ) (u : List TcpObs) : ends j (u.map .near) = u.map TcpObs.near := by
  induction u with
  | nil => rfl
  | cons o u ih => exact congrArg (o.near :: ·) ih

theorem ends_map_far_self (j : ℕ) (u : List TcpObs) :
    ends j (u.map (.far j)) = u.map TcpObs.far := by
  induction u with
  | nil => rfl
  | cons o u ih =>
    rw [List.map_cons, ends, filterMap_cons_toList, ProxiedObs.wire?, if_pos rfl]
    exact congrArg (o.far :: ·) ih

theorem ends_map_far_of_ne {i j : ℕ} (h : i ≠ j) (u : List TcpObs) : ends j (u.map (.far i)) = [] :=
  filterMap_map_none (fun o => show ProxiedObs.wire? j (.far i o) = none from if_neg h) u

theorem ends_map_duplex (j : ℕ) (t : List DuplexObs) : ends j (t.map .duplex) = [] :=
  filterMap_map_none (fun _ => rfl) t

/-- A connection in good order, with stream `j` as its own. -/
structure Runs (key : CnxPtr) (sid : UInt64) (j : ℕ) (tr : List ProxiedObs) (s : Proxied) :
    Prop where
  orderly : (machine key sid).Reaches (Orderly key sid) init tr s
  owns : s.Owns key j tr

theorem Runs.relayed (h : Runs key sid j tr s) : Relayed s tr := by
  obtain ⟨es, hr, -⟩ := h.orderly
  exact relayed_run hr

/-- Each TCP stream has got the front of what the other one sent. -/
theorem Runs.front (h : Runs key sid j tr s) :
    tcpOut (farTrace j tr) <+: tcpIn (nearTrace tr) ∧
      tcpOut (nearTrace tr) <+: tcpIn (farTrace j tr) := by
  have hi := h.relayed
  obtain ⟨⟨es, hr, hg⟩, hj⟩ := h
  obtain ⟨fs, hfs, hfg⟩ := orderly_run hr hg hj
  have hopen := hfg.along fun _ _ _ h => h.isOpen
  rw [← hi.near_in, ← hi.far_in]
  constructor
  · calc tcpOut (farTrace j tr) <+: Duplex.heard j (duplexTrace tr) := ⟨_, (hi.far_out j).symm⟩
      _ <+: (Duplex.written (duplexTrace tr)).flatten := Duplex.heard_prefix hfs hopen
      _ <+: _ := List.prefix_append _ _
  · calc tcpOut (nearTrace tr) <+: Duplex.readBack (duplexTrace tr) := ⟨_, hi.near_out.symm⟩
      _ <+: (Duplex.answered j (duplexTrace tr)).flatten := Duplex.readBack_prefix hfs hopen
      _ <+: _ := List.prefix_append _ _

theorem Runs.whole (h : Runs key sid j tr s) :
    (.shutdown ∈ farTrace j tr →
      [] ∈ tcpReads (nearTrace tr) ∧ tcpOut (farTrace j tr) = tcpIn (nearTrace tr)) ∧
    (.shutdown ∈ nearTrace tr →
      [] ∈ tcpReads (farTrace j tr) ∧ tcpOut (nearTrace tr) = tcpIn (farTrace j tr)) := by
  have hi := h.relayed
  obtain ⟨⟨es, hr, hg⟩, hj⟩ := h
  obtain ⟨hup, hdown⟩ := finished_run hr hg hj
  exact ⟨hi.near.whole (hi.far j) hup, (hi.far j).whole hi.near hdown⟩

/-- The two pipes of the wire that a connection is. -/
structure OnWire (j : ℕ) (s : Proxied) (tr : List ProxiedObs) (w : Wire UInt8) : Prop where
  up : s.near.Piped (s.far j) (nearTrace tr) (farTrace j tr) w.up
  down : (s.far j).Piped s.near (farTrace j tr) (nearTrace tr) w.down

theorem OnWire.congr {w : Wire UInt8} (h : OnWire j s tr w)
    (hnear : s'.near.toStream.ended = s.near.toStream.ended ∧
      s'.near.toTcp.shut = s.near.toTcp.shut)
    (hfar : (s'.far j).toStream.ended = (s.far j).toStream.ended ∧
      (s'.far j).toTcp.shut = (s.far j).toTcp.shut)
    (hn : nearTrace out = []) (hf : farTrace j out = []) : OnWire j s' (tr ++ out) w := by
  constructor
  · simpa [hn, hf] using h.up.congr hnear.1 hfar.2
  · simpa [hn, hf] using h.down.congr hfar.1 hnear.2

theorem Step.onWire {w : Wire UInt8} (h : Step key sid s e s' out) (hm : Runs key sid j tr s)
    (hm' : Runs key sid j (tr ++ out) s') (hw : OnWire j s tr w) :
    ∃ fs w', Wire.machine.run w fs = some (w', ends j out) ∧ OnWire j s' (tr ++ out) w' := by
  have hi := hm.relayed
  have hfront := hm'.front
  have hwhole := hm'.whole
  cases h with
  | nearTcp re tout ht he hout hduplex hfar =>
    subst hout
    simp only [nearTrace_append, nearTrace_map_near, farTrace_append, farTrace_map_near,
      List.append_nil] at hfront hwhole
    obtain ⟨p', q', hmv, hp', hq'⟩ := hw.up.tcp hw.down ht (hi.far j).ended hfront.2 hwhole.2
    obtain ⟨fs, hfs⟩ := hmv.near
    refine ⟨fs, ⟨p', q'⟩, by rwa [ends_map_near], ?_, ?_⟩
    · simpa [hfar] using hp'
    · simpa [hfar] using hq'
  | farTcp i re task tout ht he hout hduplex hfar hnear =>
    subst hout
    by_cases hij : i = j
    · subst hij
      simp only [nearTrace_append, nearTrace_map_far, farTrace_append, farTrace_map_far_self,
        List.append_nil] at hfront hwhole
      obtain ⟨p', q', hmv, hp', hq'⟩ := hw.down.tcp hw.up ht hi.near.ended hfront.1 hwhole.1
      obtain ⟨fs, hfs⟩ := hmv.far
      refine ⟨fs, ⟨q', p'⟩, by rwa [ends_map_far_self], ?_, ?_⟩
      · simpa [hnear, hfar] using hq'
      · simpa [hnear, hfar] using hp'
    · have hf : s'.far j = s.far j := by rw [hfar, Function.update_of_ne (Ne.symm hij)]
      refine ⟨[], w, by rw [ends_map_far_of_ne hij]; rfl, hw.congr ?_ ?_ ?_ ?_⟩
      · rw [hnear]
        exact ⟨rfl, rfl⟩
      · rw [hf]
        exact ⟨rfl, rfl⟩
      · exact nearTrace_map_far i tout
      · exact farTrace_map_far_of_ne hij tout
  | nearOp re op dout hop he hs hout hnear hfar =>
    subst hout
    refine ⟨[], w, by rw [ends_map_duplex]; rfl, hw.congr ?_ ?_ (by simp) (by simp)⟩
    · rw [hnear]
      exact s.near.next_kept _
    · rw [hfar]
      exact ⟨rfl, rfl⟩
  | farOp i re op dout hop he hs hout hfar hnear =>
    subst hout
    refine ⟨[], w, by rw [ends_map_duplex]; rfl, hw.congr ?_ ?_ (by simp) (by simp)⟩
    · rw [hnear]
      exact ⟨rfl, rfl⟩
    · by_cases hij : i = j
      · subst hij
        rw [hfar, Function.update_self]
        exact (s.far i).next_kept _
      · rw [hfar, Function.update_of_ne (Ne.symm hij)]
        exact ⟨rfl, rfl⟩
  | duplex de dout he hs hpoll hout hnear hfar =>
    subst hout
    refine ⟨[], w, by rw [ends_map_duplex]; rfl, hw.congr ?_ ?_ (by simp) (by simp)⟩
    · rw [hnear]
      exact ⟨rfl, rfl⟩
    · rw [hfar]
      exact ⟨rfl, rfl⟩

/-- The next state is one of such a run. -/
def Next (key : CnxPtr) (sid : UInt64) (j : ℕ) (s : Proxied) (tr : List ProxiedObs)
    (e : ProxiedEvent) : Prop :=
  s.Orderly key sid tr e ∧
    ∀ s' out, (machine key sid).step s e = some (s', out) → s'.Owns key j (tr ++ out)

/-- All states of a run are, if its last one is. -/
theorem next_along (hr : (machine key sid).run init es = some (s, tr))
    (hg : (machine key sid).AlongTrace (Orderly key sid) init [] es) (hj : s.Owns key j tr) :
    (machine key sid).AlongTrace (Next key sid j) init [] es := by
  rw [Machine.alongTrace_iff hr] at hg ⊢
  intro es₁ e es₂ m tr₁ he h₁
  refine ⟨hg es₁ e es₂ m tr₁ he h₁, fun m' out hs => ?_⟩
  subst he
  obtain ⟨m'', out', tr₂, hs', h₂, rfl⟩ := Machine.run_split hr h₁
  rw [hs, Option.some.injEq, Prod.mk.injEq] at hs'
  obtain ⟨rfl, rfl⟩ := hs'
  exact owns_before (Machine.run_step _ h₁ hs) h₂ (by rwa [List.append_assoc])

theorem Runs.onWire (h : Runs key sid j tr s) :
    ∃ fs w, Wire.machine.run .init fs = some (w, ends j tr) ∧ OnWire j s tr w := by
  obtain ⟨⟨es, hr, hg⟩, hj⟩ := h
  refine Machine.run_simulates (OnWire j) ⟨.init, .init⟩ ?_ hr (next_along hr hg hj)
  rintro m tr e m' out w ⟨fs, hfs, hfg⟩ hw ⟨ho, hown⟩ hs
  have hreach : (machine key sid).Reaches (Orderly key sid) init tr m :=
    ⟨fs, hfs, hfg.mono fun _ _ _ h => h.1⟩
  have hj' := hown m' out hs
  have hj := owns_before hfs ((Machine.run_single_iff ..).mpr hs) hj'
  exact (step_cases hs).onWire ⟨hreach, hj⟩ ⟨hreach.step hs ho, hj'⟩ hw

/-- As long as the connection goes on or ends in good order and its stream at the server is `j`,
what happens at the client's TCP stream and at the upstream of `j` happens in that order at the ends
of a wire. -/
theorem proxied_is_a_wire (hr : (machine key sid).run init es = some (s, tr))
    (hg : (machine key sid).AlongTrace (Orderly key sid) init [] es) (hj : s.Owns key j tr) :
    ∃ fs w, Wire.machine.run .init fs = some (w, ends j tr) := by
  obtain ⟨fs, w, hfs, -⟩ := Runs.onWire ⟨⟨es, hr, hg⟩, hj⟩
  exact ⟨fs, w, hfs⟩

theorem proxied_is_a_wire_closedRun : ∃ s tr,
    (machine 7 4).run init (closedRun 7 [7] 0) = some (s, tr) ∧
    ends 0 tr = [.up (.put [1, 2, 3]), .up (.put []), .down (.put [8]), .up (.take [1, 2, 3]),
      .up .close, .down (.put []), .down (.take [8]), .down .close] ∧
    ∃ fs w, Wire.machine.run .init fs = some (w, ends 0 tr) :=
  ⟨_, _, rfl, by decide,
    @proxied_is_a_wire 7 4 0 _ (closedRun 7 [7] 0) _ rfl (by decide) (by decide)⟩

end Proxied
end TransportProxy.Slipstream
