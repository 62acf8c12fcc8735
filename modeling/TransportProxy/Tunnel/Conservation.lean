import TransportProxy.Duplex.Conservation
import TransportProxy.EchoConservation
import TransportProxy.Server.Kept
import TransportProxy.Tunnel.Order

/-! # Nothing is lost through an echo

While the stream is open at both ends, everything that the application has written and not read back
yet is on its way to the handler (`goingOut`) or on its way from it (`comingBack`), and in the order
in which it was written. The handler itself does not return. All this is about the connection's own
stream; nothing is asked of the others.
-/
namespace TransportProxy.Slipstream
open Foundations
set_option autoImplicit false

namespace Tunnel
variable {key : CnxPtr} {sid : UInt64} {j : ℕ} {s s' : Tunnel} {e : TunnelEvent}
  {es : List TunnelEvent} {tr out : List DuplexObs}

/-- The stream stays open while this event happens: the calls for it return zero, what is delivered
reaches it and finds room, and once it is there nothing but data comes on its connection. -/
def Open (key : CnxPtr) (sid : UInt64) (s : Tunnel) : TunnelEvent → Prop
  | .poll _ => True
  | .duplex (.client e) => e.RetZero
  | .duplex (.server e) => s.duplex.server.SteadyOn key e
  | .duplex (.deliverUp n) =>
    s.duplex.server.SteadyOn key (.stream (s.duplex.upCallback key sid n)) ∧
      (0 < n → s.duplex.server.ownStream (s.duplex.upCallback key sid n) ≠ none)
  | .duplex (.deliverDown n) => 0 < n → s.duplex.client.bridge.recvQ.buf.length < recvCapacity

instance Open.decidable (key : CnxPtr) (sid : UInt64) (s : Tunnel) :
    ∀ e, Decidable (s.Open key sid e)
  | .poll _ => .isTrue trivial
  | .duplex (.client e) => inferInstanceAs (Decidable e.RetZero)
  | .duplex (.server e) => Server.SteadyOn.decidable key s.duplex.server e
  | .duplex (.deliverUp _) => inferInstanceAs (Decidable (_ ∧ (_ → _)))
  | .duplex (.deliverDown _) => inferInstanceAs (Decidable (_ → _ < _))

/-- The stream of the connection at the server. -/
def index (key : CnxPtr) (s : Tunnel) : ℕ := s.duplex.server.indexOf key

/-- The bytes between the application's writes and the handler's reads, the next to be read
first. -/
def goingOut (key : CnxPtr) (s : Tunnel) : Bytes := s.duplex.goingOut (s.index key)

/-- The bytes between the handler's reads and those of the application. -/
def comingBack (key : CnxPtr) (s : Tunnel) : Bytes :=
  s.duplex.comingBack (s.index key) ++ (s.task (s.index key)).rest

/-! ## The stream that stays open -/

/-- Stream `j` of the server stays open, with and without the handlers. -/
def OpenOn (key : CnxPtr) (sid : UInt64) (j : ℕ) (s : Tunnel) (e : TunnelEvent) : Prop :=
  s.duplex.Open key sid j (s.duplexEvent e) ∧
    ∀ f ∈ s.serverEvent key sid e, s.server.Steady j f

theorem Open.steadyOn {se : ServerEvent} (h : s.Open key sid e)
    (he : s.duplex.serverEvent key sid (s.duplexEvent e) = some se) :
    s.duplex.server.SteadyOn key se := by
  cases e with
  | poll j =>
    obtain rfl := Option.some.inj he
    trivial
  | duplex de =>
    cases de with
    | server e =>
      obtain rfl := Option.some.inj he
      exact h
    | deliverUp n =>
      obtain rfl := Option.some.inj he
      exact h.1
    | client | deliverDown => cases he

/-- Bytes that are delivered are offered to the stream. -/
theorem push_of_pos {d : Duplex} {n : ℕ} (hn : 0 < n) (hle : n ≤ d.up.length) :
    ∃ v, (d.upCallback key sid n).serverPush = some v := by
  rw [← Option.isSome_iff_exists, Option.isSome_iff_ne_none]
  intro hnone
  have hd := (d.upCallback key sid n).serverPush_data
  rw [hnone, Duplex.data_of_take rfl rfl, Option.getD_none] at hd
  have hlen := congrArg List.length hd
  rw [List.length_nil, List.length_take] at hlen
  omega

/-- The connection's own stream stays open, and it was the same before. -/
theorem Open.on (hs : (machine key sid).step s e = some (s', out)) (h : s.Open key sid e)
    (hl : Server.Linked s.duplex.server) (hk : Server.Keyed s.duplex.server)
    (hf : Server.Fits key j s'.duplex.server) :
    s.OpenOn key sid j e ∧ Server.Fits key j s.duplex.server := by
  cases Duplex.step_cases (step_cases hs).1 with
  | client ce cout he hce hout hserver =>
    have hnone : s.serverEvent key sid e = none ∧ s.duplex.Open key sid j (s.duplexEvent e) := by
      cases e with
      | poll i => cases he
      | duplex de =>
        cases de with
        | client e => exact ⟨rfl, h⟩
        | deliverDown n => exact ⟨rfl, h⟩
        | server | deliverUp => cases he
    rw [hserver] at hf
    refine ⟨⟨hnone.2, ?_⟩, hf⟩
    rw [hnone.1]
    exact nofun
  | server se sout he hse hout =>
    have hon := h.steadyOn he
    have hst := Server.step_cases hse
    have hsteady := hst.steady hl hk hon hf
    have hbelongs := hst.belongs hl hon hf
    obtain ⟨f, hf', hfe, -⟩ := step_server hs he hse hout
    refine ⟨⟨?_, ?_⟩, hst.fits hl hon hf⟩
    · cases e with
      | poll i => exact ⟨trivial, trivial⟩
      | duplex de =>
        cases de with
        | server e =>
          obtain rfl := Option.some.inj he
          exact ⟨hsteady.retZero, hbelongs⟩
        | deliverUp n =>
          obtain rfl := Option.some.inj he
          refine ⟨hbelongs, fun hn => ⟨h.2 hn, ?_⟩⟩
          obtain ⟨i, hi⟩ := Option.ne_none_iff_exists'.mp (h.2 hn)
          obtain rfl := (hbelongs i hi).mpr rfl
          have hle : n ≤ s.duplex.up.length :=
            (Option.ite_none_right_eq_some.mp (step_cases hs).1).1
          obtain ⟨v, hv⟩ : ∃ v, (s.duplex.upCallback key sid n).serverPush = some v :=
            push_of_pos hn hle
          exact hsteady.room hi v hv rfl
        | client | deliverDown => cases he
    · intro g hg
      rw [hf', Option.mem_some_iff] at hg
      obtain rfl := hg
      have hgoal : s.server.server.Steady j (s.server.serverEvent f) := hfe.symm ▸ hsteady
      exact hgoal

theorem linked_of_leads {G : Tunnel → TunnelEvent → Prop}
    (h : (machine key sid).Leads G init tr s) :
    Server.Linked s.duplex.server ∧ Server.Keyed s.duplex.server := by
  obtain ⟨es, hr, -⟩ := h
  obtain ⟨ds, hds⟩ := duplexView.run hr
  obtain ⟨gs, hgs⟩ := Duplex.serverView.run hds
  exact ⟨Server.linked_run hgs, Server.keyed_run hgs⟩

/-- A run of an open tunnel is one in which the connection's stream stays open. -/
theorem leads_on (h : (machine key sid).Leads (Open key sid) init tr s)
    (hf : Server.Fits key j s.duplex.server) :
    (machine key sid).Leads (OpenOn key sid j) init tr s := by
  refine h.induction (b := []) (fun (s : Tunnel) tr => ∀ j, Server.Fits key j s.duplex.server →
    (machine key sid).Leads (OpenOn key sid j) init tr s) ?_ (fun _ _ => .refl _) j hf
  intro s tr e s' out hi ho hs j hf
  obtain ⟨hl, hk⟩ := linked_of_leads (hi _ (Server.fits_indexOf key s.duplex.server))
  obtain ⟨hon, hf'⟩ := ho.on hs hl hk hf
  exact (hi j hf').trans (.single hs hon)

section Runs
variable (h : (machine key sid).Leads (Open key sid) init tr s)
  (hf : Server.Fits key j s.duplex.server)
include h hf

theorem duplex_leads : ∃ fs, (Duplex.machine key sid).run .init fs = some (s.duplex, tr) ∧
    (Duplex.machine key sid).Along (Duplex.Open key sid j) .init fs := by
  obtain ⟨es, hr, hg⟩ := leads_on h hf
  exact duplex_run (fun _ _ _ _ h => h.1) hr hg

theorem server_leads_on : EchoServer.machine.Leads (EchoServer.Steady j) .init
    (Duplex.serverTrace tr) s.server := by
  obtain ⟨es, hr, hg⟩ := leads_on h hf
  exact serverView.run_along (fun _ _ f _ _ h hf => h.2 f hf) hr hg

theorem streams_on : Duplex.streams key tr = [j] ∨
    Duplex.streams key tr = [] ∧ s.duplex.server.streams.length ≤ j := by
  obtain ⟨fs, hfs, hfg⟩ := duplex_leads h hf
  obtain ⟨gs, hgs, hgg⟩ := Duplex.server_run (H := Server.Belongs key j)
    (fun _ _ _ _ hs h he => (h.server hs he).2.2) hfs hfg
  exact (Server.single_run hgs hgg).imp id fun ⟨ha, hn⟩ => ⟨ha, hf.2 hn⟩

theorem heardOn_eq : Duplex.heardOn key tr = Duplex.heard j tr := by
  obtain ⟨fs, hfs, -⟩ := duplex_leads h hf
  obtain ⟨gs, hgs⟩ := Duplex.serverView.run hfs
  rw [Duplex.heardOn]
  obtain ha | ⟨ha, hlt⟩ := streams_on h hf
  · rw [ha, List.flatMap_singleton]
  · rw [ha, Duplex.heard]
    exact congrArg (fun t => (reads t).flatten) (Server.bridgeTrace_run hgs hlt).symm

end Runs

/-! ## What is on its way -/

/-- What the handler has heard is what it has answered, and what it holds. -/
theorem answered_rest {gs : List EchoEvent} {u : EchoServer} {str : List ServerObs}
    (hr : EchoServer.machine.run .init gs = some (u, str))
    (hg : EchoServer.machine.Along (EchoServer.Steady j) .init gs) :
    (reads (Server.bridgeTrace j str)).flatten =
      (queued (Server.bridgeTrace j str)).flatten ++ (u.task j).rest :=
  (EchoServer.echoInv_run hr j).copy (EchoServer.not_returned hr hg)

/-- What the handler has heard is what the application has read back and what is coming back. -/
theorem heard_run (h : (machine key sid).Leads (Open key sid) init tr s)
    (hh : s.duplex.client.bridge.owner = .held) :
    Duplex.heardOn key tr = Duplex.readBack tr ++ s.comingBack key := by
  have hf := Server.fits_indexOf key s.duplex.server
  obtain ⟨fs, hfs, hfg⟩ := duplex_leads h hf
  obtain ⟨gs, hgs, hgg⟩ := server_leads_on h hf
  have hback := Duplex.answered_run hfs hfg hh
  have hheard : Duplex.heard (s.index key) tr =
      (Duplex.answered (s.index key) tr).flatten ++ (s.task (s.index key)).rest :=
    answered_rest hgs hgg
  calc Duplex.heardOn key tr
      = (Duplex.answered (s.index key) tr).flatten ++ (s.task (s.index key)).rest :=
        (heardOn_eq h hf).trans hheard
    _ = Duplex.readBack tr ++ s.comingBack key := by
        rw [comingBack, ← List.append_assoc]
        exact congrArg (· ++ (s.task (s.index key)).rest) hback

/-- What the application has written is what the handler has heard and what is going out. -/
theorem written_run (h : (machine key sid).Leads (Open key sid) init tr s) :
    (Duplex.written tr).flatten = Duplex.heardOn key tr ++ s.goingOut key := by
  have hf := Server.fits_indexOf key s.duplex.server
  obtain ⟨fs, hfs, hfg⟩ := duplex_leads h hf
  obtain ⟨gs, hgs, hgg⟩ := server_leads_on h hf
  have hheld := (EchoServer.echoInv_run hgs _).agrees.held (EchoServer.not_returned hgs hgg)
  rw [heardOn_eq h hf]
  exact Duplex.written_run hfs hfg hheld

end Tunnel
end TransportProxy.Slipstream
