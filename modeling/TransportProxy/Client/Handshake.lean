import TransportProxy.Client.Close

/-! # The close handshake of the client

`should_close` asks for a close; the next AFTER_* callback makes it, notes that in `close_sent` and
counts the callbacks that follow in `close_wait_ticks`. `Handshake` ties the flags and the counter
to the history of the run: what was called, what was reported, and how many callbacks there were.
-/
namespace TransportProxy.Slipstream
open Foundations
set_option autoImplicit false

@[simp] def ClientObs.closed? : ClientObs → Option CnxPtr
  | .close cnx => some cnx
  | _ => none

/-- AFTER_RECEIVE or AFTER_SEND. -/
def ClientEvent.isAfter : ClientEvent → Bool
  | .loop cbMode _ _ =>
    cbMode == picoquicPacketLoopAfterReceive || cbMode == picoquicPacketLoopAfterSend
  | _ => false

/-- A ready event brings its connection. -/
def ClientEvent.NonNull : ClientEvent → Prop
  | .stream cb _ _ => cb.event = .ready → cb.cnx ≠ 0
  | _ => True

instance ClientEvent.NonNull.decidable : ∀ e : ClientEvent, Decidable e.NonNull
  | .stream cb _ _ => inferInstanceAs (Decidable (_ → cb.cnx ≠ 0))
  | .app _ | .loop _ _ _ | .resume _ | .loopReturn => .isTrue trivial

theorem ClientEvent.isAfter_loop {cbMode : ℤ} {arg : LoopArg} {ret : ℤ}
    (h : cbMode = picoquicPacketLoopAfterReceive ∨ cbMode = picoquicPacketLoopAfterSend) :
    (ClientEvent.loop cbMode arg ret).isAfter = true := by
  obtain rfl | rfl := h <;> rfl

namespace Client

/-- The calls of `picoquic_close`. -/
def closes (tr : List ClientObs) : List CnxPtr := tr.filterMap ClientObs.closed?

@[simp] theorem closes_nil : closes [] = [] := rfl

@[simp] theorem closes_cons (o : ClientObs) (t : List ClientObs) :
    closes (o :: t) = o.closed?.toList ++ closes t := filterMap_cons_toList ..

@[simp] theorem closes_append (t u : List ClientObs) : closes (t ++ u) = closes t ++ closes u :=
  List.filterMap_append ..

@[simp] theorem closes_map_bridge (t : List BridgeObs) : closes (t.map .bridge) = [] :=
  filterMap_map_none (fun _ => rfl) t

@[simp] theorem closes_map_deltaT (t : List ℤ) : closes (t.map .deltaT) = [] :=
  filterMap_map_none (fun _ => rfl) t

theorem mem_closes {cnx : CnxPtr} {tr : List ClientObs} :
    cnx ∈ closes tr ↔ ClientObs.close cnx ∈ tr := by
  rw [closes, List.mem_filterMap]
  constructor
  · rintro ⟨o, ho, hc⟩
    cases o <;> simp at hc
    rwa [← hc]
  · exact fun h => ⟨_, h, rfl⟩

/-! ## What one step does to the flags -/

/-- A step calls `picoquic_close` at most once, and only to raise `close_sent`. -/
theorem Step.closes {s s' : Client} {e : ClientEvent} {out : List ClientObs}
    (h : Step s e s' out) :
    (closes out = [] ∧ s'.ctx.closeSent = s.ctx.closeSent) ∨
    (closes out = [s.ctx.cnx] ∧ s.ctx.closeSent = false ∧ s'.ctx.closeSent = true ∧
      e.isAfter = true ∧ s.ctx.cnx ≠ 0 ∧ s.ctx.disconnected = false) := by
  cases h with
  | afterClose hp hc hm hd hn =>
    cases hs : s.ctx.closeSent with
    | true => exact .inl ⟨by simp, rfl⟩
    | false =>
      exact .inr ⟨by simp, rfl, rfl, ClientEvent.isAfter_loop hm, hn, hd⟩
  | ready hp he hm hq => obtain ⟨-, rfl⟩ | ⟨-, rfl⟩ := hq <;> exact .inl ⟨rfl, rfl⟩
  | noop hp hn ha ho => obtain rfl | rfl := ho <;> exact .inl ⟨rfl, rfl⟩
  | checked hp hr ho | peeked hp hr hn hb ho | peekClosed hp hr hn hb ho =>
    obtain ⟨d, rfl⟩ := ho
    exact .inl ⟨by simp, rfl⟩
  | _ => exact .inl ⟨by simp, rfl⟩

/-- The counter is not touched before the close, and never runs ahead of the AFTER_* callbacks. -/
theorem Step.ticks {s s' : Client} {e : ClientEvent} {out : List ClientObs}
    (h : Step s e s' out) :
    (s'.ctx.closeSent = false → s'.ctx.closeWaitTicks = s.ctx.closeWaitTicks) ∧
      s'.ctx.closeWaitTicks.toNat ≤ s.ctx.closeWaitTicks.toNat + e.isAfter.toNat := by
  cases h with
  | afterClose hp hc hm hd hn =>
    refine ⟨nofun, ?_⟩
    rw [ClientEvent.isAfter_loop hm]
    show (s.ctx.closeWaitTicks + 1).toNat ≤ _
    rw [UInt32.toNat_add]
    exact Nat.mod_le _ _
  | _ => exact ⟨fun _ => rfl, Nat.le_add_right _ _⟩

theorem Step.shouldClose {s s' : Client} {e : ClientEvent} {out : List ClientObs}
    (h : Step s e s' out) (hc : s.ctx.shouldClose = true) : s'.ctx.shouldClose = true := by
  cases h <;> simp [hc]

theorem Step.disconnected_iff {s s' : Client} {e : ClientEvent} {out : List ClientObs}
    (h : Step s e s' out) : s'.ctx.disconnected = true ↔
      s.ctx.disconnected = true ∨ ∃ cb ∈ Client.callbacks out, cb.event.closes = true := by
  simp only [h.callbacks, Option.mem_toList]
  refine ⟨fun hd => ?_, fun hd => h.disconnected (hd.imp_right fun ⟨cb, he, hc⟩ => ⟨cb, he, hc⟩)⟩
  cases h with
  | @chunk cb =>
    rw [Bool.or_eq_true] at hd
    exact hd.imp_right fun hc => ⟨cb, rfl, hc⟩
  | _ => exact .inl hd

/-- A connection is not forgotten, and a ready event brings one. -/
theorem Step.cnx {s s' : Client} {e : ClientEvent} {out : List ClientObs}
    (h : Step s e s' out) (hk : e.NonNull) (hn : s'.ctx.cnx = 0) :
    s.ctx.cnx = 0 ∧ ∀ cb ∈ Client.callbacks out, cb.event ≠ .ready := by
  rw [h.callbacks]
  cases h with
  | readyFailed hp he | ready hp he => exact absurd hn (hk he)
  | chunk hp hv =>
    refine ⟨hn, fun cb hcb he => ?_⟩
    obtain rfl := Option.some.inj (Option.mem_toList.mp hcb)
    simp [StreamCallback.clientPush, he] at hv
  | ignored hp hv he =>
    refine ⟨hn, fun cb hcb => ?_⟩
    obtain rfl := Option.some.inj (Option.mem_toList.mp hcb)
    exact he
  | _ => exact ⟨hn, by simp [ClientEvent.callback]⟩

/-! ## The history of a close -/

/-- `picoquic_close` was called, and at least `n` AFTER_* callbacks came after that call. -/
def ClosedFor (es : List ClientEvent) (n : ℕ) : Prop :=
  ∃ es₁ e es₂ m tr₁ m' out cnx, es = es₁ ++ e :: es₂ ∧ machine.run init es₁ = some (m, tr₁) ∧
    machine.step m e = some (m', out) ∧ ClientObs.close cnx ∈ out ∧
    n ≤ es₂.countP ClientEvent.isAfter

theorem ClosedFor.snoc {es : List ClientEvent} {n k : ℕ} (h : ClosedFor es n) (e : ClientEvent)
    (hk : k ≤ n + e.isAfter.toNat) : ClosedFor (es ++ [e]) k := by
  obtain ⟨es₁, d, es₂, m, tr₁, m', out, cnx, rfl, hr, hs, hc, hn⟩ := h
  refine ⟨es₁, d, es₂ ++ [e], m, tr₁, m', out, cnx, by simp, hr, hs, hc, ?_⟩
  rw [List.countP_append, List.countP_singleton]
  cases he : e.isAfter <;> simp [he] at hk ⊢ <;> omega

structure Handshake (s : Client) (es : List ClientEvent) (tr : List ClientObs) : Prop where
  run : machine.run init es = some (s, tr)
  fresh : s.ctx.closeSent = false → closes tr = [] ∧ s.ctx.closeWaitTicks = 0
  once : (closes tr).length ≤ 1
  waited : s.ctx.closeSent = true → ClosedFor es (s.ctx.closeWaitTicks.toNat - 1)
  seen : s.ctx.disconnected = true ↔ ∃ cb ∈ callbacks tr, cb.event.closes = true
  cnx : s.ctx.cnx = 0 → ∀ cb ∈ callbacks tr, cb.event ≠ .ready

theorem Handshake.init : Handshake init [] [] where
  run := rfl
  fresh _ := ⟨rfl, rfl⟩
  once := Nat.zero_le _
  waited := nofun
  seen := by simp [Client.init]
  cnx := by simp

theorem Handshake.step {s s' : Client} {es : List ClientEvent} {e : ClientEvent}
    {tr out : List ClientObs} (hi : Handshake s es tr) (hk : e.NonNull)
    (hs : machine.step s e = some (s', out)) : Handshake s' (es ++ [e]) (tr ++ out) := by
  have hst := step_cases hs
  obtain ⟨hkeep, hle⟩ := hst.ticks
  have hcl := hst.closes
  refine ⟨machine.run_step hi.run hs, ?_, ?_, ?_, ?_, ?_⟩
  · intro hn
    obtain ⟨hc, he⟩ | ⟨-, -, hc, -⟩ := hcl
    · rw [he] at hn
      rw [closes_append, hc, hkeep (by rw [he, hn]), List.append_nil]
      exact hi.fresh hn
    · rw [hn] at hc
      cases hc
  · rw [closes_append]
    obtain ⟨hc, -⟩ | ⟨hc, hn, -⟩ := hcl
    · rw [hc, List.append_nil]
      exact hi.once
    · rw [hc, (hi.fresh hn).1]
      exact Nat.le_refl 1
  · intro hsent
    obtain ⟨-, he⟩ | ⟨hc, hn, -, ha, -⟩ := hcl
    · rw [he] at hsent
      apply (hi.waited hsent).snoc e
      omega
    · refine ⟨es, e, [], s, tr, s', out, s.ctx.cnx, rfl, hi.run, hs, ?_, ?_⟩
      · rw [← mem_closes, hc]
        exact List.mem_singleton_self _
      · have h0 := (hi.fresh hn).2
        rw [h0, ha] at hle
        simp at hle ⊢
        omega
  · rw [hst.disconnected_iff, hi.seen, callbacks_append]
    constructor
    · rintro (⟨cb, hcb, hc⟩ | ⟨cb, hcb, hc⟩)
      · exact ⟨cb, List.mem_append_left _ hcb, hc⟩
      · exact ⟨cb, List.mem_append_right _ hcb, hc⟩
    · rintro ⟨cb, hcb, hc⟩
      obtain hcb | hcb := List.mem_append.mp hcb
      · exact .inl ⟨cb, hcb, hc⟩
      · exact .inr ⟨cb, hcb, hc⟩
  · intro hn cb hcb
    obtain ⟨hn', hout⟩ := hst.cnx hk hn
    rw [callbacks_append] at hcb
    obtain hcb | hcb := List.mem_append.mp hcb
    · exact hi.cnx hn' cb hcb
    · exact hout cb hcb

theorem handshake_run {es : List ClientEvent} {s : Client} {tr : List ClientObs}
    (hr : machine.run Client.init es = some (s, tr))
    (hg : machine.Along (fun _ e => e.NonNull) Client.init es) : Handshake s es tr :=
  Machine.run_events Handshake (fun _ _ _ _ _ _ hi hk hs => hi.step hk hs) hr hg .init

/-! ## No more calls -/

/-- With a close requested, no callback is where it would hand an entry over. -/
def Stopped (s : Client) : Prop :=
  s.ctx.shouldClose = true → s.pc ≠ .wakeFirst ∧ s.pc ≠ .drain

theorem Step.stopped {s s' : Client} {e : ClientEvent} {out : List ClientObs}
    (h : Step s e s' out) (hi : Stopped s) : Stopped s' := by
  intro hc
  cases h with
  | app => exact hi hc
  | readyFailed hp | ready hp | chunk hp | ignored hp =>
    constructor <;> intro hw <;> rw [show s.pc = _ from hw] at hp <;> cases hp
  | noop hp => simp [hp]
  | afterClose => simp only; split <;> simp
  | afterPeek hp hn =>
    rw [hn] at hc
    cases hc
  | wakeFirst hp => exact absurd hp (hi hc).1
  | drained hp => exact absurd hp (hi hc).2
  | _ => simp

theorem Step.calls_nil {s s' : Client} {e : ClientEvent} {out : List ClientObs}
    (h : Step s e s' out) (hi : Stopped s) (hc : s.ctx.shouldClose = true) : calls out = [] := by
  cases h with
  | afterPeek hp hn =>
    rw [hn] at hc
    cases hc
  | drained hp => exact absurd hp (hi hc).2
  | afterClose => split <;> rfl
  | ready hp he hm hq => obtain ⟨-, rfl⟩ | ⟨-, rfl⟩ := hq <;> rfl
  | noop hp hn ha ho => obtain rfl | rfl := ho <;> rfl
  | checked hp hr ho | peeked hp hr hn hb ho | peekClosed hp hr hn hb ho =>
    obtain ⟨d, rfl⟩ := ho
    simp
  | _ => simp

theorem stopped_run {es : List ClientEvent} {s : Client} {tr : List ClientObs}
    (hr : machine.run Client.init es = some (s, tr)) : Stopped s :=
  Machine.run_invariant Stopped (fun _ _ _ _ hi _ hs => (step_cases hs).stopped hi) hr
    (Machine.Along.true _ _) nofun

/-- A requested close stays requested, and nothing is handed over any more. -/
theorem calls_nil_run {s t : Client} {fs : List ClientEvent} {tr : List ClientObs}
    (hr : machine.run s fs = some (t, tr)) (hi : Stopped s) (hc : s.ctx.shouldClose = true) :
    t.ctx.shouldClose = true ∧ calls tr = [] := by
  refine (Machine.run_trace (fun (t : Client) tr => Stopped t ∧ t.ctx.shouldClose = true ∧
    calls tr = []) ?_ hr (Machine.Along.true _ _) ⟨hi, hc, rfl⟩).2
  rintro t tr e t' out ⟨hi, hc, hn⟩ - hs
  have hst := step_cases hs
  refine ⟨hst.stopped hi, hst.shouldClose hc, ?_⟩
  rw [calls_append, hn, hst.calls_nil hi hc]
  rfl

/-! ## The end of the packet loop -/

theorem Step.terminates {s s' : Client} {e : ClientEvent} {out : List ClientObs}
    (h : Step s e s' out) (ht : .returned picoquicNoErrorTerminatePacketLoop ∈ out) :
    s.ctx.shouldClose = true ∧ e.isAfter = true ∧
      (s.ctx.disconnected = true ∨ s.ctx.cnx = 0 ∨ 5000 < s.ctx.closeWaitTicks) := by
  have h0 : picoquicNoErrorTerminatePacketLoop ≠ 0 := by decide
  have h1 : picoquicNoErrorTerminatePacketLoop ≠ -1 := by decide
  cases h with
  | afterStop hp hc hm hd =>
    exact ⟨hc, ClientEvent.isAfter_loop hm, hd.imp_right .inl⟩
  | afterClose hp hc hm hd hn =>
    refine ⟨hc, ClientEvent.isAfter_loop hm, .inr (.inr ?_)⟩
    by_contra hle
    cases hs : s.ctx.closeSent <;> simp [hs, hle, h0] at ht
  | ready hp he hm hq => obtain ⟨-, rfl⟩ | ⟨-, rfl⟩ := hq <;> simp [h0] at ht
  | noop hp hn ha ho => obtain rfl | rfl := ho <;> simp [h0] at ht
  | checked hp hr ho | peeked hp hr hn hb ho | peekClosed hp hr hn hb ho =>
    obtain ⟨d, rfl⟩ := ho
    simp [h0] at ht
  | _ => simp [h0, h1] at ht

/-- `picoquic_close` is called at most once, from an AFTER_* callback, on a connection that was
not reported closed; a requested close is not taken back and stops the calls; and the packet loop is
asked to terminate only after one, with no connection, a closed one, or a long wait. -/
theorem close_handshake {es : List ClientEvent} {s : Client} {tr : List ClientObs}
    (hr : machine.run Client.init es = some (s, tr))
    (hg : machine.Along (fun _ e => e.NonNull) Client.init es) :
    (closes tr).length ≤ 1 ∧
    (∀ fs t tr', machine.run s fs = some (t, tr') → s.ctx.shouldClose = true →
      t.ctx.shouldClose = true ∧ calls tr' = []) ∧
    ∀ e s' out, machine.step s e = some (s', out) →
      (∀ cnx, ClientObs.close cnx ∈ out → e.isAfter = true ∧ cnx ≠ 0 ∧
        ∀ cb ∈ callbacks tr, cb.event.closes = false) ∧
      (.returned picoquicNoErrorTerminatePacketLoop ∈ out → s.ctx.shouldClose = true ∧
        ((∀ cb ∈ callbacks tr, cb.event ≠ .ready) ∨ (∃ cb ∈ callbacks tr, cb.event.closes = true) ∨
          ClosedFor (es ++ [e]) 5001)) := by
  have hi := handshake_run hr hg
  refine ⟨hi.once, fun fs t tr' hf hc => calls_nil_run hf (stopped_run hr) hc, ?_⟩
  intro e s' out hs
  have hst := step_cases hs
  refine ⟨fun cnx hc => ?_, fun ht => ?_⟩
  · rw [← mem_closes] at hc
    obtain ⟨hn, -⟩ | ⟨hn, -, -, ha, h0, hd⟩ := hst.closes
    · rw [hn] at hc
      cases hc
    · rw [hn, List.mem_singleton] at hc
      refine ⟨ha, by rw [hc]; exact h0, fun cb hcb => ?_⟩
      by_contra hcl
      rw [hi.seen.mpr ⟨cb, hcb, by simpa using hcl⟩] at hd
      cases hd
  · obtain ⟨hc, ha, hd | hn | hw⟩ := hst.terminates ht
    · exact ⟨hc, .inr (.inl (hi.seen.mp hd))⟩
    · exact ⟨hc, .inl (hi.cnx hn)⟩
    · refine ⟨hc, .inr (.inr ?_)⟩
      have hlt : 5000 < s.ctx.closeWaitTicks.toNat := hw
      have hsent : s.ctx.closeSent = true := by
        by_contra hn
        rw [(hi.fresh (by simpa using hn)).2] at hlt
        exact absurd hlt (by decide)
      apply (hi.waited hsent).snoc e
      rw [ha]
      show 5001 ≤ _ + 1
      omega

/-- The stream is dropped before the connection is ready, which it becomes before the next
callback. -/
def dropBeforeReady : List ClientEvent :=
  [.app .dropStream, .app .dropStream, .app .dropStream, .loop 5 .null 0, .resume 0,
    .stream ⟨1, 0, none, .ready⟩ 0 0, .loop 3 .null 0, .loop 2 .null 0,
    .stream ⟨1, 0, none, .close⟩ 0 0]

theorem close_handshake_dropBeforeReady : ∃ s tr s' out,
    machine.run Client.init dropBeforeReady = some (s, tr) ∧ closes tr = [1] ∧
      (closes tr).length ≤ 1 ∧ machine.step s (.loop 3 .null 0) = some (s', out) ∧
      .returned picoquicNoErrorTerminatePacketLoop ∈ out ∧ s.ctx.shouldClose = true := by
  obtain ⟨s, tr, s', out, hr, hg, hc, hs, ht⟩ : ∃ s tr s' out,
      machine.run Client.init dropBeforeReady = some (s, tr) ∧
        machine.Along (fun _ e => e.NonNull) Client.init dropBeforeReady ∧ closes tr = [1] ∧
        machine.step s (.loop 3 .null 0) = some (s', out) ∧
        .returned picoquicNoErrorTerminatePacketLoop ∈ out :=
    ⟨_, _, _, _, rfl, by decide, rfl, rfl, by decide⟩
  obtain ⟨hle, -, hstep⟩ := close_handshake hr hg
  exact ⟨s, tr, s', out, hr, hc, hle, hs, ht, ((hstep _ s' out hs).2 ht).1⟩

end Client
end TransportProxy.Slipstream
