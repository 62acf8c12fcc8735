import TransportProxy.Client.SendOrder

/-! # Closing the client's connection

`should_close` is raised when the async side is found gone, and acted on in a later callback. It is
found gone in two ways. Through `send_rx`, whose `Disconnected` is reported once the queue is empty,
nothing can be left. Through `recv_tx.is_closed()`, at the start of a TIME_CHECK, entries may still
wait: the close then overtakes them. `QuietDrop` is the condition that it finds none.

The second part is about the other order: the peer closes first. Only the `should_close` branch
looks at `disconnected`; the drain does not. `CallsOpen` is the condition that it never has to.
-/
namespace TransportProxy.Slipstream
open Foundations
set_option autoImplicit false

namespace Client

/-! ## Dropping the stream -/

/-- The peer does not close and every call of `picoquic_add_to_stream` returns 0. -/
def Undisturbed (_ : Client) : ClientEvent → Prop
  | .stream cb _ _ => cb.event.closes = false
  | .loop _ _ ret | .resume ret => ret = 0
  | _ => True

instance Undisturbed.decidable (s : Client) : ∀ e, Decidable (s.Undisturbed e)
  | .stream cb _ _ => inferInstanceAs (Decidable (cb.event.closes = false))
  | .loop _ _ ret | .resume ret => inferInstanceAs (Decidable (ret = 0))
  | .app _ | .loopReturn => .isTrue trivial

/-- A TIME_CHECK that finds the receiving half dropped finds no entry waiting. -/
def QuietDrop (s : Client) : ClientEvent → Prop
  | .loop cbMode _ _ =>
    cbMode = picoquicPacketLoopTimeCheck → s.bridge.recvQ.isClosed = true → s.unsent = []
  | _ => True

instance QuietDrop.decidable (s : Client) : ∀ e, Decidable (s.QuietDrop e)
  | .loop _ _ _ => inferInstanceAs (Decidable (_ → _ → _))
  | .app _ | .stream _ _ _ | .resume _ | .loopReturn => .isTrue trivial

/-- Once a close is requested the application is gone and nothing waits. -/
structure CloseInv (s : Client) : Prop where
  owned : s.bridge.Owned
  close : s.ctx.shouldClose = true → s.bridge.owner ≠ .held ∧ s.unsent = []
  peek : s.pc.draining = true → s.ctx.peekBuf = none

theorem CloseInv.init : CloseInv init :=
  ⟨.new, by simp [Client.init], by simp [Client.init, LoopPc.draining]⟩

theorem Undisturbed.retZero {s : Client} {e : ClientEvent} (h : s.Undisturbed e) : e.RetZero := by
  cases e with
  | loop | resume => exact h
  | app | stream | loopReturn => trivial

theorem CloseInv.keepsOrder {s : Client} {e : ClientEvent} (hi : CloseInv s)
    (hu : s.Undisturbed e) : s.KeepsOrder e := keepsOrder_of_retZero hi.peek hu.retZero

/-- With the application gone and nothing waiting, both stay so. -/
theorem Step.gone {s s' : Client} {e : ClientEvent} {out : List ClientObs} (h : Step s e s' out)
    (ho : s.bridge.Owned) (hk : s.KeepsOrder e)
    (hg : s.bridge.owner ≠ .held ∧ s.unsent = []) :
    s'.bridge.owner ≠ .held ∧ s'.unsent = [] := by
  have hq : enqueued out = [] ∧ s'.bridge.owner ≠ .held := by
    obtain ⟨hb, ht⟩ | ⟨op, hop⟩ := h.bridge
    · rw [hb, enqueued, ht]
      exact ⟨rfl, hg.1⟩
    · refine ⟨?_, Bridge.not_held_step hg.1 hop⟩
      by_contra hne
      exact hg.1 (Bridge.held_of_queued ho hop hne)
  refine ⟨hq.2, ?_⟩
  obtain ⟨-, hu⟩ | ⟨v, rest, ok, -, -, hu, -⟩ := h.sends hk
  · rw [hu, hg.2, hq.1, List.append_nil]
  · rw [hg.2] at hu
    cases hu

theorem Step.closeInv {s s' : Client} {e : ClientEvent} {out : List ClientObs}
    (h : Step s e s' out) (hi : CloseInv s) (hu : s.Undisturbed e) (hq : s.QuietDrop e) :
    CloseInv s' where
  owned := h.owned hi.owned
  close := by
    have hk := hi.keepsOrder hu
    by_cases hs : s.ctx.shouldClose = true
    · exact fun _ => h.gone hi.owned hk (hi.close hs)
    · -- otherwise the request is raised by this step
      intro hc
      cases h with
      | timeCheck hp hm =>
        have hr : s.bridge.recvQ.isClosed = true := by simpa [hs] using hc
        exact ⟨hi.owned.isClosed_iff.mp hr, hq hm hr⟩
      | peekClosed hp hr hn hb ho =>
        obtain ⟨hb, hd⟩ := Bridge.sendTryRecv_disconnected hb
        exact ⟨hi.owned.sender_false hd, by simp [unsent, hn, hb]⟩
      | drainClosed hp hb =>
        obtain ⟨hb, hd⟩ := Bridge.sendTryRecv_disconnected hb
        exact ⟨hi.owned.sender_false hd, by simp [unsent, hi.peek (by rw [hp]; rfl), hb]⟩
      | _ => exact absurd hc hs
  peek := h.peek_none hi.peek hu.retZero

theorem closeInv_run {es : List ClientEvent} {s : Client} {tr : List ClientObs}
    (hr : machine.run Client.init es = some (s, tr))
    (hg : machine.Along (fun s e => s.Undisturbed e ∧ s.QuietDrop e) Client.init es) :
    CloseInv s :=
  Machine.run_invariant CloseInv (fun _ _ _ _ hi hk hs => (step_cases hs).closeInv hi hk.1 hk.2)
    hr hg .init

theorem Step.shouldClose_of_close {s s' : Client} {e : ClientEvent} {out : List ClientObs}
    {cnx : CnxPtr} (h : Step s e s' out) (hc : ClientObs.close cnx ∈ out) :
    s.ctx.shouldClose = true := by
  cases h with
  | afterClose hp hs => exact hs
  | ready hp he hm hq => obtain ⟨-, rfl⟩ | ⟨-, rfl⟩ := hq <;> simp at hc
  | noop hp hn ha ho => obtain rfl | rfl := ho <;> simp at hc
  | checked hp hr ho | peeked hp hr hn hb ho | peekClosed hp hr hn hb ho =>
    obtain ⟨d, rfl⟩ := ho
    simp at hc
  | _ => simp at hc

/-- When `picoquic_close` is called, everything that entered the send queue has been handed over,
in order and with a FIN for the marker only, if no TIME_CHECK came upon a dropped receiving half
with entries waiting. -/
theorem close_after_handover {es : List ClientEvent} {e : ClientEvent} {s s' : Client}
    {tr out : List ClientObs} {cnx : CnxPtr} (hr : machine.run Client.init es = some (s, tr))
    (hs : machine.step s e = some (s', out))
    (hg : machine.Along (fun s e => s.Undisturbed e ∧ s.QuietDrop e) Client.init es)
    (hc : ClientObs.close cnx ∈ out) :
    handed tr = enqueued tr ∧ ∀ c ∈ adds tr, c.setFin = finOf c.data := by
  have hi := closeInv_run hr hg
  have hk : machine.Along KeepsOrder Client.init es :=
    hg.strengthen CloseInv (fun _ _ _ _ hi hk hs => (step_cases hs).closeInv hi hk.1 hk.2)
      (fun _ _ hi hk => hi.keepsOrder hk.1) .init
  have hu := (hi.close ((step_cases hs).shouldClose_of_close hc)).2
  have hsplit := (served_run hr hk).split
  rw [hu, List.append_nil] at hsplit
  exact ⟨hsplit.symm, setFin_run hr⟩

/-- The chunk is handed over, the stream dropped, and the empty queue found disconnected. -/
def writeThenDrop : List ClientEvent :=
  [.stream ⟨1, 0, none, .ready⟩ 0 0, .app (.pollWrite [1]), .loop 5 .null 0, .resume 0,
    .loop 3 .null 0, .resume 0, .resume 0, .resume 0, .app .dropStream, .app .dropStream,
    .app .dropStream, .loop 5 .null 0, .resume 0]

theorem close_after_handover_writeThenDrop : ∃ s tr s' out,
    machine.run Client.init writeThenDrop = some (s, tr) ∧
      machine.step s (.loop 3 .null 0) = some (s', out) ∧ ClientObs.close 1 ∈ out ∧
      enqueued tr = [[1]] ∧ handed tr = enqueued tr ∧
      ∀ c ∈ adds tr, c.setFin = finOf c.data :=
  ⟨_, _, _, _, rfl, rfl, by decide, by decide,
    @close_after_handover writeThenDrop (.loop 3 .null 0) _ _ _ _ 1 rfl rfl (by decide)
      (by decide)⟩

/-- The stream is dropped right after the write: TIME_CHECK peeks the chunk and requests the close
that the next callback makes. -/
def dropAfterWrite : List ClientEvent :=
  [.stream ⟨1, 0, none, .ready⟩ 0 0, .app (.pollWrite [1]), .app .dropStream, .app .dropStream,
    .app .dropStream, .loop 5 .null 0, .resume 0]

theorem dropAfterWrite_loses_chunk : ∃ s tr s' out,
    machine.run Client.init dropAfterWrite = some (s, tr) ∧
      machine.Along Undisturbed Client.init dropAfterWrite ∧
      machine.step s (.loop 3 .null 0) = some (s', out) ∧ ClientObs.close 1 ∈ out ∧
      BridgeObs.wrote 1 ∈ bridgeTrace tr ∧ enqueued tr = [[1]] ∧ calls tr = [] :=
  ⟨_, _, _, _, rfl, by decide, rfl, by decide, by decide, by decide, by decide⟩

/-! ## The peer closes first -/

end Client

@[simp] def ClientObs.cnx? : ClientObs → Option CnxPtr
  | .add cnx .. | .close cnx => some cnx
  | _ => none

namespace Client

/-- The connections that the packet-loop callbacks pass to picoquic, one for each call. -/
def cnxUses (tr : List ClientObs) : List CnxPtr := tr.filterMap ClientObs.cnx?

@[simp] theorem cnxUses_nil : cnxUses [] = [] := rfl

@[simp] theorem cnxUses_cons (o : ClientObs) (t : List ClientObs) :
    cnxUses (o :: t) = o.cnx?.toList ++ cnxUses t := filterMap_cons_toList ..

@[simp] theorem cnxUses_append (t u : List ClientObs) :
    cnxUses (t ++ u) = cnxUses t ++ cnxUses u := List.filterMap_append ..

@[simp] theorem cnxUses_map_bridge (t : List BridgeObs) : cnxUses (t.map .bridge) = [] :=
  filterMap_map_none (fun _ => rfl) t

@[simp] theorem cnxUses_map_deltaT (t : List ℤ) : cnxUses (t.map .deltaT) = [] :=
  filterMap_map_none (fun _ => rfl) t

/-- No AFTER_* callback comes upon a peeked entry of a closed connection. -/
def CallsOpen (s : Client) : ClientEvent → Prop
  | .loop cbMode _ _ => s.ctx.disconnected = true → s.Drains cbMode → s.ctx.peekBuf = none
  | _ => True

instance CallsOpen.decidable (s : Client) : ∀ e, Decidable (s.CallsOpen e)
  | .loop _ _ _ => inferInstanceAs (Decidable (_ → _ → _))
  | .app _ | .stream _ _ _ | .resume _ | .loopReturn => .isTrue trivial

theorem Step.disconnected {s s' : Client} {e : ClientEvent} {out : List ClientObs}
    (h : Step s e s' out) (hd : s.ctx.disconnected = true ∨
      ∃ cb, e.callback = some cb ∧ cb.event.closes = true) : s'.ctx.disconnected = true := by
  obtain hd | ⟨cb, he, hc⟩ := hd
  · cases h <;> simp [hd]
  · cases h with
    | readyFailed hp hr | ready hp hr =>
      obtain rfl := Option.some.inj he
      rw [hr] at hc
      cases hc
    | chunk =>
      obtain rfl := Option.some.inj he
      simp [hc]
    | ignored hp hv =>
      obtain rfl := Option.some.inj he
      rw [StreamCallback.clientPush_of_closes hc] at hv
      cases hv
    | _ => cases he

/-- A connection that the peer has closed is not being drained. -/
def ClosedInv (s : Client) : Prop := s.ctx.disconnected = true → s.pc.draining = false

theorem Step.cnxUses_nil {s s' : Client} {e : ClientEvent} {out : List ClientObs}
    (h : Step s e s' out) (hi : ClosedInv s) (hd : s.ctx.disconnected = true)
    (hk : s.CallsOpen e) : cnxUses out = [] := by
  cases h with
  | afterPeek hp hs hm hr hb =>
    rw [hk hd ⟨hm, hs, hr⟩] at hb
    cases hb
  | afterClose hp hs hm hn =>
    rw [hd] at hn
    cases hn
  | drained hp =>
    have hn := hi hd
    rw [hp] at hn
    cases hn
  | ready hp he hm hq => obtain ⟨-, rfl⟩ | ⟨-, rfl⟩ := hq <;> rfl
  | noop hp hn ha ho => obtain rfl | rfl := ho <;> rfl
  | checked hp hr ho | peeked hp hr hn hb ho | peekClosed hp hr hn hb ho =>
    obtain ⟨d, rfl⟩ := ho
    simp
  | _ => simp

/-- On a closed connection exactly the steps that break the condition use it. -/
theorem Step.cnxUses_nil_iff {s s' : Client} {e : ClientEvent} {out : List ClientObs}
    (h : Step s e s' out) (hi : ClosedInv s) (hd : s.ctx.disconnected = true) :
    cnxUses out = [] ↔ s.CallsOpen e := by
  refine ⟨?_, h.cnxUses_nil hi hd⟩
  intro hu
  cases e with
  | loop cbMode arg ret =>
    rintro - ⟨hm, hs, hr⟩
    cases h with
    | noop hp hn ha => exact (ha hm).2 hr
    | timeCheck hp ht =>
      rw [ht] at hm
      exact absurd hm (by decide)
    | afterStop hp hc | afterClose hp hc =>
      rw [hs] at hc
      cases hc
    | afterPeek => simp at hu
  | app | stream | resume | loopReturn => trivial

theorem Step.closedInv {s s' : Client} {e : ClientEvent} {out : List ClientObs}
    (h : Step s e s' out) (hi : ClosedInv s) (ho : s.CallsOpen e) : ClosedInv s' := by
  intro hd
  cases h with
  | app => exact hi hd
  | readyFailed hp | ready hp | chunk hp | ignored hp => exact LoopPc.draining_of_calm hp
  | noop hp => simp [hp, LoopPc.draining]
  | afterClose => simp
  | afterPeek hp hs hm hr hb =>
    rw [ho hd ⟨hm, hs, hr⟩] at hb
    cases hb
  | wakeFirst hp | drained hp | drainEmpty hp | drainClosed hp =>
    have hn := hi hd
    rw [hp] at hn
    cases hn
  | _ => rfl

/-- Once the peer's close was reported, no connection is passed to picoquic any more, if no AFTER_*
callback comes upon a peeked entry of the closed connection. -/
theorem no_call_after_close {es fs : List ClientEvent} {s t : Client} {tr tr' : List ClientObs}
    (hr : machine.run Client.init es = some (s, tr)) (hr' : machine.run s fs = some (t, tr'))
    (hg : machine.Along CallsOpen Client.init (es ++ fs))
    (hc : ∃ cb ∈ callbacks tr, cb.event.closes = true) : cnxUses tr' = [] := by
  obtain ⟨hg₁, hg₂⟩ := hg.append hr
  have hseen : ∀ cb ∈ callbacks tr, cb.event.closes = true → s.ctx.disconnected = true :=
    Machine.run_trace
      (fun (s : Client) tr => ∀ cb ∈ callbacks tr, cb.event.closes = true →
        s.ctx.disconnected = true)
      (fun s tr e s' out hi _ hs cb hcb he => by
        have hst := step_cases hs
        rw [callbacks_append, hst.callbacks, List.mem_append, Option.mem_toList] at hcb
        obtain hcb | hcb := hcb
        · exact hst.disconnected (.inl (hi cb hcb he))
        · exact hst.disconnected (.inr ⟨cb, hcb, he⟩))
      hr (Machine.Along.true _ _) (by simp)
  have hinv : ClosedInv s :=
    Machine.run_invariant ClosedInv (fun _ _ _ _ hi hk hs => (step_cases hs).closedInv hi hk) hr
      hg₁ (by simp [ClosedInv, Client.init])
  obtain ⟨cb, hcb, he⟩ := hc
  have hrun := Machine.run_trace
    (fun (s : Client) tr => s.ctx.disconnected = true ∧ ClosedInv s ∧ cnxUses tr = [])
    (fun s tr e s' out hi hk hs => by
      have hst := step_cases hs
      refine ⟨hst.disconnected (.inl hi.1), hst.closedInv hi.2.1 hk, ?_⟩
      rw [cnxUses_append, hi.2.2, hst.cnxUses_nil hi.2.1 hi.1 hk]
      rfl)
    hr' hg₂ ⟨hseen cb hcb he, hinv, rfl⟩
  exact hrun.2.2

/-- The entry is handed over before the peer closes. -/
def closedAfterDrain : List ClientEvent :=
  [.stream ⟨1, 0, none, .ready⟩ 0 0, .app (.pollWrite [1]), .loop 5 .null 0, .resume 0,
    .loop 3 .null 0, .resume 0, .resume 0, .resume 0, .stream ⟨1, 0, none, .close⟩ 0 0]

theorem no_call_after_close_closedAfterDrain : ∃ s tr t tr',
    machine.run Client.init closedAfterDrain = some (s, tr) ∧
      machine.run s [.loop 3 .null 0] = some (t, tr') ∧ cnxUses tr = [1] ∧ cnxUses tr' = [] :=
  ⟨_, _, _, _, rfl, rfl, by decide,
    @no_call_after_close closedAfterDrain [.loop 3 .null 0] _ _ _ _ rfl rfl (by decide)
      ⟨⟨1, 0, none, .close⟩, by decide, by decide⟩⟩

/-- The peer closes between the TIME_CHECK that peeks an entry and the callback that drains. -/
def closedAfterPeek : List ClientEvent :=
  [.stream ⟨1, 0, none, .ready⟩ 0 0, .app (.pollWrite [1]), .loop 5 .null 0, .resume 0,
    .stream ⟨1, 0, none, .close⟩ 0 0]

theorem closedAfterPeek_uses_cnx : ∃ s tr t tr',
    machine.run Client.init closedAfterPeek = some (s, tr) ∧ s.ctx.disconnected = true ∧
      (∃ cb ∈ callbacks tr, cb.event.closes = true) ∧
      machine.run s [.loop 3 .null 0] = some (t, tr') ∧ cnxUses tr' = [1] :=
  ⟨_, _, _, _, rfl, by decide, by decide, rfl, by decide⟩

end Client
end TransportProxy.Slipstream
