import TransportProxy.Proxy.EndToEnd

/-! # The upstream waits for the client

The server learns of a stream with the first bytes that arrive on it: the callback opens it for a
stream_data event only, and the handler that connects to the upstream is spawned when the stream has
been accepted. So a client that sends nothing has no upstream, and a protocol in which the upstream
is the first to speak does not get through the proxy.
-/
namespace TransportProxy.Slipstream
open Foundations
set_option autoImplicit false

namespace Server
variable {s s' : Server} {e : ServerEvent} {es : List ServerEvent} {tr out : List ServerObs}

/-- A stream that a step opens is handed to the acceptor as one of the connection that opened it. -/
theorem Step.streams_length (h : Step s e s' out) : s'.streams.length = s.streams.length ∨
    s'.streams.length = s.streams.length + 1 ∧
      ∃ key, acceptedOf key out = [s.streams.length] := by
  cases h with
  | @openEmpty cb | @openChunk cb =>
    refine .inr ⟨by simp, cb.cnx, ?_⟩
    simp
  | _ => exact .inl (by simp)

/-- Every stream is one of some connection. -/
theorem accepted_of_lt (hr : machine.run init es = some (s, tr)) {j : ℕ}
    (hj : j < s.streams.length) : ∃ key, j ∈ acceptedOf key tr := by
  refine Machine.run_trace (fun s tr => ∀ j, j < s.streams.length → ∃ key, j ∈ acceptedOf key tr)
    ?_ hr (Machine.Along.true _ _) (fun j hj => absurd hj (Nat.not_lt_zero j)) j hj
  intro s tr e s' out hi _ hs j hj
  by_cases hold : j < s.streams.length
  · obtain ⟨key, hk⟩ := hi j hold
    exact ⟨key, by rw [acceptedOf_append]; exact List.mem_append_left _ hk⟩
  · obtain hlen | ⟨hlen, key, ha⟩ := (step_cases hs).streams_length
    · exact absurd (hlen ▸ hj) hold
    · obtain rfl : j = s.streams.length := by omega
      exact ⟨key, by rw [acceptedOf_append, ha]; exact List.mem_append_right _ List.mem_cons_self⟩

end Server

/-- The network delivers no empty event. -/
def DuplexEvent.Filled : DuplexEvent → Prop
  | .deliverUp n => 0 < n
  | _ => True

instance DuplexEvent.Filled.decidable : ∀ e : DuplexEvent, Decidable e.Filled
  | .deliverUp n => inferInstanceAs (Decidable (0 < n))
  | .client _ | .server _ | .deliverDown _ => .isTrue trivial

namespace Duplex
variable {key : CnxPtr} {sid : UInt64} {s s' : Duplex} {e : DuplexEvent} {es : List DuplexEvent}
  {tr out : List DuplexObs}

/-- A step that opens a stream of the connection brings bytes on it. -/
theorem brought_of_accepts {se : ServerEvent} {sout : List ServerObs}
    (hs : (machine key sid).step s e = some (s', out)) (he : s.serverEvent key sid e = some se)
    (hst : Server.Step s.server se s'.server sout) (hf : e.Filled)
    (ha : Server.acceptedOf key sout ≠ []) : se.brought key ≠ [] := by
  obtain ⟨ha', -⟩ | ⟨cb, rfl, hc, hn, hown, -, -⟩ := hst.accepts key
  · exact absurd ha' ha
  · have hev : cb.event = .streamData := by
      obtain ⟨st, hso, -⟩ | ⟨-, ho⟩ := Server.own_cases hown
      · rw [hc, hn] at hso
        cases hso
      · obtain ⟨state, ho⟩ := Option.ne_none_iff_exists'.mp ho
        exact (Server.own_of_opened ho).2.1
    cases e with
    | server e =>
      obtain rfl := Option.some.inj he
      have hb := (Option.ite_none_right_eq_some.mp hs).1
      simp [ServerEvent.brings, hev, hc] at hb
    | deliverUp n =>
      obtain rfl := ServerEvent.stream.inj (Option.some.inj he)
      have hle := (Option.ite_none_right_eq_some.mp hs).1
      rw [brought_upCallback, Ne, List.take_eq_nil_iff]
      have hn : 0 < n := hf
      rintro (rfl | hup)
      · exact absurd hn (Nat.lt_irrefl _)
      · rw [hup, List.length_nil] at hle
        omega
    | client | deliverDown => cases he

/-- When a stream of the connection has been opened, bytes have been brought on it. -/
theorem brought_of_opened (hr : (machine key sid).run init es = some (s, tr))
    (hg : (machine key sid).Along (fun _ e => e.Filled) init es) (ho : streams key tr ≠ []) :
    Server.brought key (serverTrace tr) ≠ [] := by
  refine Machine.run_trace (fun (_ : Duplex) tr => streams key tr ≠ [] →
    Server.brought key (serverTrace tr) ≠ []) ?_ hr hg (fun h => absurd rfl h) ho
  intro s tr e s' out hi hf hs ho
  unfold streams at hi ho
  rw [serverTrace_append] at ho ⊢
  rw [Server.acceptedOf_append] at ho
  rw [Server.brought_append]
  by_cases hold : Server.acceptedOf key (serverTrace tr) = []
  · rw [hold, List.nil_append] at ho
    cases step_cases hs with
    | client ce cout he hce hout =>
      rw [hout, serverTrace_map_client] at ho
      exact absurd rfl ho
    | server se sout he hse hout =>
      rw [hout, serverTrace_map_server] at ho ⊢
      rw [Server.brought_step hse]
      have hne := brought_of_accepts hs he (Server.step_cases hse) hf ho
      exact fun h => hne (List.append_eq_nil_iff.mp h).2
  · exact fun h => hi hold (List.append_eq_nil_iff.mp h).1

theorem written_of_opened (hr : (machine key sid).run init es = some (s, tr))
    (hg : (machine key sid).Along (fun _ e => e.RetZero ∧ e.Filled) init es)
    (ho : streams key tr ≠ []) : (written tr).flatten ≠ [] := by
  have hb := brought_of_opened hr (hg.mono fun _ _ h => h.2) ho
  have hfront := sentUp_front hr (hg.mono fun _ _ h => h.1)
  intro hnil
  rw [hnil, List.prefix_nil, (carried_run hr).up] at hfront
  exact hb (List.append_eq_nil_iff.mp hfront).1

theorem Step.streams_length (h : Step key sid s e s' out) :
    s.server.streams.length ≤ s'.server.streams.length := by
  cases h with
  | client ce cout he hs hout hserver => rw [hserver]
  | server se sout he hs =>
    obtain hlen | ⟨hlen, -⟩ := (Server.step_cases hs).streams_length
    · exact hlen.ge
    · omega

end Duplex

def ProxiedEvent.Filled : ProxiedEvent → Prop
  | .duplex e => e.Filled
  | _ => True

instance ProxiedEvent.Filled.decidable : ∀ e : ProxiedEvent, Decidable e.Filled
  | .duplex e => DuplexEvent.Filled.decidable e
  | .near _ | .far _ _ => .isTrue trivial

namespace Proxied
variable {key : CnxPtr} {sid : UInt64} {j : ℕ} {s s' : Proxied} {e : ProxiedEvent}
  {es : List ProxiedEvent} {tr out : List ProxiedObs}

/-- Nothing happens at the upstream before its stream has been opened. -/
theorem Step.opened (h : Step key sid s e s' out)
    (hi : farTrace j tr ≠ [] → j < s.duplex.server.streams.length) :
    farTrace j (tr ++ out) ≠ [] → j < s'.duplex.server.streams.length := by
  cases h with
  | farTcp i re task tout ht he hout hduplex hfar hnear hacc =>
    subst hout
    by_cases hij : i = j
    · exact fun _ => hduplex ▸ hij ▸ hacc.1
    · simpa [hduplex, farTrace_map_far_of_ne hij] using hi
  | nearTcp re tout ht he hout hduplex =>
    subst hout
    simpa [hduplex] using hi
  | nearOp re op dout hop he hs hout | farOp i re op dout hop he hs hout
  | duplex de dout he hs hpoll hout =>
    subst hout
    have hle := (Duplex.step_cases hs).streams_length
    intro hm
    exact (hi (by simpa using hm)).trans_le hle

theorem opened_run (hr : (machine key sid).run init es = some (s, tr)) (j : ℕ) :
    farTrace j tr ≠ [] → j < s.duplex.server.streams.length :=
  Machine.run_trace (fun s tr => farTrace j tr ≠ [] → j < s.duplex.server.streams.length)
    (fun _ _ _ _ _ hi _ hs => (step_cases hs).opened hi) hr (Machine.Along.true _ _)
    (fun h => absurd rfl h)

theorem filled_of_duplexEvent {de : DuplexEvent} (h : e.Filled)
    (he : s.duplexEvent e = some de) : de.Filled := by
  obtain rfl | ⟨op, -, rfl⟩ | ⟨j, op, -, rfl⟩ := duplexEvent_cases he
  · exact h
  · trivial
  · trivial

/-- As long as the client sends no byte, it gets none, and the server opens no stream for it: what
happens at an upstream, happens for another connection. -/
theorem upstream_waits_for_client (hr : (machine key sid).run init es = some (s, tr))
    (hg : (machine key sid).Along (fun _ e => e.RetZero ∧ e.Filled) init es)
    (hn : tcpIn (nearTrace tr) = []) : streams key tr = [] ∧ tcpOut (nearTrace tr) = [] ∧
      ∀ j, farTrace j tr ≠ [] → ∃ k, k ≠ key ∧ j ∈ streams k tr := by
  obtain ⟨fs, hfs, hfg⟩ := duplex_run (H := fun _ e => e.RetZero ∧ e.Filled)
    (fun _ _ _ _ _ h he => ⟨retZero_of_duplexEvent h.1 he, filled_of_duplexEvent h.2 he⟩) hr hg
  have hi := relayed_run hr
  have hwritten : (Duplex.written (duplexTrace tr)).flatten = [] := by
    rw [← hi.near_in] at hn
    exact (List.append_eq_nil_iff.mp hn).1
  have hnone : streams key tr = [] := by
    by_contra hc
    exact Duplex.written_of_opened hfs hfg hc hwritten
  refine ⟨hnone, ?_, fun j hj => ?_⟩
  · have hback : (Duplex.readBack (duplexTrace tr)).Sublist
        ((streams key tr).flatMap fun j => (Duplex.answered j (duplexTrace tr)).flatten) :=
      Duplex.readBack_sublist hfs
    rw [hnone, List.flatMap_nil, List.sublist_nil, hi.near_out] at hback
    exact (List.append_eq_nil_iff.mp hback).1
  · obtain ⟨gs, hgs⟩ := Duplex.serverView.run hfs
    obtain ⟨k, hk⟩ := Server.accepted_of_lt hgs (opened_run hr j hj)
    refine ⟨k, ?_, hk⟩
    rintro rfl
    have hk' : j ∈ streams k tr := hk
    rw [hnone] at hk'
    cases hk'

/-- Another client is served. This one's TCP stream ends at once, and the server is told so. -/
def silentRun : List ProxiedEvent :=
  [.duplex (.client (.stream ⟨9, 0, none, .ready⟩ 4 0)), .near (.tcpRead []), .near .shutdown,
    .duplex (.client (.loop 5 .null 0)), .duplex (.client (.resume 0)),
    .duplex (.client (.loop 3 .null 0)), .duplex (.client (.resume 0)),
    .duplex (.client (.resume 0)), .duplex (.client (.resume 0)),
    .duplex (.server (.stream ⟨7, 0, none, .ready⟩)),
    .duplex (.server (.stream ⟨7, 4, none, .streamFin⟩)),
    .duplex (.server (.stream ⟨8, 0, none, .ready⟩)),
    .duplex (.server (.stream ⟨8, 0, some [5], .streamData⟩)), .duplex (.server (.resume 0)),
    .duplex (.server .accept), .far 0 (.read 8), .far 0 (.tcpWrite 1)]

theorem upstream_waits_for_client_silentRun : ∃ s tr,
    (machine 7 4).run init silentRun = some (s, tr) ∧ [] ∈ tcpReads (nearTrace tr) ∧
    tcpOut (farTrace 0 tr) = [5] ∧ streams 7 tr = [] ∧ tcpOut (nearTrace tr) = [] ∧
    ∀ j, farTrace j tr ≠ [] → ∃ k, k ≠ 7 ∧ j ∈ streams k tr :=
  ⟨_, _, rfl, by decide, by decide,
    @upstream_waits_for_client 7 4 _ silentRun _ rfl (by decide) (by decide)⟩

end Proxied
end TransportProxy.Slipstream
