import TransportProxy.Client.Handshake
import TransportProxy.Server.Streams

/-! # The client's drain refines the server's

The server drains a send queue in every AFTER_* callback. The client does so only after a TIME_CHECK
has moved an entry into `peek_buf`. When every call succeeds both make the same calls for the same
entries, and an entry that a TIME_CHECK could see is handed over by the end of the next AFTER_*.
-/
namespace TransportProxy.Slipstream
open Foundations
set_option autoImplicit false

/-- The call that an entry of the send queue asks for. -/
def callFor (v : Bytes) : Bytes × ℤ := (v, finOf v)

/-- The callback in progress looks at the send queue before it returns. -/
def LoopPc.looks : LoopPc → Bool
  | .timeCheck _ | .wakeFirst | .drain => true
  | _ => false

/-! ## The calls of the server -/

namespace Server

/-- The data and the FIN flags that `picoquic_add_to_stream` was called with for stream `j`. -/
def added (j : ℕ) (tr : List ServerObs) : List (Bytes × ℤ) :=
  (adds j tr).map fun c => (c.data, c.setFin)

theorem added_eq {j : ℕ} {tr : List ServerObs} (h : ∀ c ∈ adds j tr, c.setFin = finOf c.data) :
    added j tr = (calls j tr).map fun c => callFor c.1 := by
  rw [added, calls, List.map_map]
  refine List.map_congr_left fun c hc => ?_
  rw [h c hc]
  rfl

/-- A drained queue has been passed to picoquic, entry by entry. -/
theorem added_run {es : List ServerEvent} {s : Server} {tr : List ServerObs} {j : ℕ}
    (hr : machine.run init es = some (s, tr)) (hq : (s.stream j).sendQ.buf = []) :
    added j tr = (queued (bridgeTrace j tr)).map callFor := by
  have hl := (ledger_run hr j).send
  rw [hq, List.append_nil, popped_run hr j] at hl
  rw [added_eq (setFin_run hr j), hl, List.map_map]
  rfl

end Server

/-! ## The calls of the client -/

namespace Client

/-- The data and the FIN flags that `picoquic_add_to_stream` was called with. -/
def added (tr : List ClientObs) : List (Bytes × ℤ) := (adds tr).map fun c => (c.data, c.setFin)

theorem added_eq {tr : List ClientObs} (h : ∀ c ∈ adds tr, c.setFin = finOf c.data) :
    added tr = (calls tr).map fun c => callFor c.1 := by
  rw [added, calls, List.map_map]
  refine List.map_congr_left fun c hc => ?_
  rw [h c hc]
  rfl

/-- With a live handle no close is requested, and with every call successful the calls made are for
the entries that were handed over. -/
structure Granted (s : Client) (tr : List ClientObs) : Prop where
  owned : s.bridge.Owned
  held : s.ctx.shouldClose = true → s.bridge.owner ≠ .held
  peek : s.pc.draining = true → s.ctx.peekBuf = none
  served : Served (enqueued tr) (calls tr) s.unsent
  added : Client.added tr = (handed tr).map callFor

theorem Granted.init : Granted init [] :=
  ⟨.new, by simp [Client.init], by simp [Client.init, LoopPc.draining], .nil, rfl⟩

theorem Step.shouldClose_held {s s' : Client} {e : ClientEvent} {out : List ClientObs}
    (h : Step s e s' out) (ho : s.bridge.Owned)
    (hi : s.ctx.shouldClose = true → s.bridge.owner ≠ .held) :
    s'.ctx.shouldClose = true → s'.bridge.owner ≠ .held := by
  intro hc
  by_cases hs : s.ctx.shouldClose = true
  · exact h.not_held (hi hs)
  · cases h with
    | timeCheck => exact ho.isClosed_iff.mp (by simpa [hs] using hc)
    | peekClosed hp hr hn hb => exact ho.sender_false (Bridge.sendTryRecv_disconnected hb).2
    | drainClosed hp hb => exact ho.sender_false (Bridge.sendTryRecv_disconnected hb).2
    | _ => exact absurd hc hs

theorem handed_append (t u : List ClientObs) : handed (t ++ u) = handed t ++ handed u := by
  rw [handed, calls_append, handedOver_append]
  rfl

theorem Step.handed {s s' : Client} {e : ClientEvent} {out : List ClientObs}
    (h : Step s e s' out) (hz : e.RetZero) : Client.handed out = (calls out).map Prod.fst := by
  rw [Client.handed, handedOver, List.filter_eq_self.mpr]
  cases h with
  | @afterPeek cbMode arg ret data =>
    have h0 : ret = 0 := hz
    simp [h0]
  | @drained ret =>
    have h0 : ret = 0 := hz
    simp [h0]
  | ready hp he hm hq => obtain ⟨-, rfl⟩ | ⟨-, rfl⟩ := hq <;> simp
  | noop hp hn ha ho => obtain rfl | rfl := ho <;> simp
  | afterClose => split <;> simp
  | checked hp hr ho | peeked hp hr hn hb ho | peekClosed hp hr hn hb ho =>
    obtain ⟨d, rfl⟩ := ho
    simp
  | _ => simp

theorem Granted.step {s s' : Client} {e : ClientEvent} {tr out : List ClientObs}
    (hi : Granted s tr) (h : Step s e s' out) (hz : e.RetZero) : Granted s' (tr ++ out) := by
  have hk := keepsOrder_of_retZero hi.peek hz
  refine ⟨h.owned hi.owned, h.shouldClose_held hi.owned hi.held, h.peek_none hi.peek hz, ?_, ?_⟩
  · rw [enqueued_append, calls_append]
    obtain ⟨hc, hu⟩ | ⟨v, rest, ok, hc, hq, hu, hu'⟩ := h.sends hk
    · rw [hc, hu, List.append_nil]
      exact hi.served.enqueue _
    · rw [hc, hq, hu', List.append_nil]
      have hserved := hi.served
      rw [hu] at hserved
      exact hserved.call ok
  · rw [Client.added, adds_append, List.map_append, handed_append, List.map_append, ← hi.added,
      h.handed hz, List.map_map]
    exact congrArg _ (added_eq h.setFin)

/-! ## From a TIME_CHECK to the end of the next AFTER_* -/

theorem Granted.enqueued {s : Client} {tr : List ClientObs} (h : Granted s tr) :
    Client.enqueued tr = handed tr ++ s.unsent := h.served.split

/-- The stream is held, the connection is ready, and calls succeed. -/
def Steady (s : Client) (e : ClientEvent) : Prop :=
  s.bridge.owner = .held ∧ s.streamReady = true ∧ e.RetZero

/-- The first `n` entries are handed over, or one waits in `peek_buf`, or the callback in progress
is going to look for one. -/
def Peeked (n : ℕ) (s : Client) (tr : List ClientObs) : Prop :=
  n ≤ (handed tr).length ∨ s.ctx.peekBuf.isSome = true ∨ s.pc.looks = true

/-- The first `n` entries are handed over, or the callback in progress is going to do it. -/
def Draining (n : ℕ) (s : Client) (tr : List ClientObs) : Prop :=
  n ≤ (handed tr).length ∨ s.pc = .wakeFirst ∨ s.pc = .drain

theorem handed_all {s : Client} {tr : List ClientObs} {n : ℕ} (hi : Granted s tr)
    (hn : n ≤ (Client.enqueued tr).length) (hu : s.unsent = []) (out : List ClientObs) :
    n ≤ (handed (tr ++ out)).length := by
  rw [hi.enqueued, hu, List.append_nil] at hn
  rw [handed_append, List.length_append]
  omega

theorem Step.keepsPeeked {s s' : Client} {e : ClientEvent} {tr out : List ClientObs} {n : ℕ}
    (h : Step s e s' out) (hi : Granted s tr) (hg : s.Steady e)
    (hn : n ≤ (Client.enqueued tr).length) (hp : Peeked n s tr) : Peeked n s' (tr ++ out) := by
  obtain ⟨hheld, hready, hz⟩ := hg
  have hopen : s.ctx.shouldClose ≠ true := fun hc => hi.held hc hheld
  -- what is handed over stays so, and the rest is about the step
  have hkeep : (s.ctx.peekBuf.isSome = true ∨ s.pc.looks = true →
      s'.ctx.peekBuf.isSome = true ∨ s'.pc.looks = true) → Peeked n s' (tr ++ out) := by
    intro hk
    refine hp.imp (fun hle => ?_) hk
    rw [handed_append, List.length_append]
    omega
  cases h with
  | app | readyFailed | ready | chunk | ignored | noop => exact hkeep id
  | timeCheck | afterPeek | peeked | wakeFirst => exact .inr (by simp [LoopPc.looks])
  | afterStop hp hc | afterClose hp hc => exact absurd hc hopen
  | @checked deltaT ret out hp' hr =>
    obtain hr | hr | hr := hr
    · rw [hready] at hr
      cases hr
    · exact .inr (.inl hr)
    · cases hb : s.ctx.peekBuf with
      | some data => exact .inr (.inl (by simp [hb]))
      | none =>
        have hq := Bridge.sendTryRecv_empty hr
        exact .inl (handed_all hi hn (by simp [unsent, hb, hq]) _)
  | peekClosed hp' hr hb hd =>
    exact absurd hheld (hi.owned.sender_false (Bridge.sendTryRecv_disconnected hd).2)
  | @drained ret =>
    have h0 : ret = 0 := hz
    exact .inr (by simp [LoopPc.looks, h0])
  | drainEmpty hp' hb =>
    have hpeek := hi.peek (by rw [hp']; rfl)
    have hq := Bridge.sendTryRecv_empty hb
    exact .inl (handed_all hi hn (by simp [unsent, hpeek, hq]) _)
  | drainClosed hp' hd =>
    exact absurd hheld (hi.owned.sender_false (Bridge.sendTryRecv_disconnected hd).2)
  | wakeLast hp' | dropSendRx hp' | dropWakeTx hp' | dropReadyTx hp' =>
    apply hkeep
    rw [hp']
    exact fun hk => .inl (hk.resolve_right Bool.false_ne_true)
  | loopReturn hp' =>
    apply hkeep
    obtain hp' | hp' := hp' <;> rw [hp'] <;>
      exact fun hk => .inl (hk.resolve_right Bool.false_ne_true)

/-- An AFTER_* hands over what was peeked and then drains the queue. -/
theorem Step.draining_of_after {s s' : Client} {e : ClientEvent} {tr out : List ClientObs} {n : ℕ}
    (h : Step s e s' out) (hi : Granted s tr) (hg : s.Steady e) (he : e.isAfter = true)
    (hp : Peeked n s tr) : Draining n s' (tr ++ out) := by
  obtain ⟨hheld, hready, -⟩ := hg
  have hopen : s.ctx.shouldClose ≠ true := fun hc => hi.held hc hheld
  cases h with
  | @noop cbMode arg ret out hidle hn ha =>
    have hm : cbMode = picoquicPacketLoopAfterReceive ∨ cbMode = picoquicPacketLoopAfterSend := by
      simpa [ClientEvent.isAfter] using he
    refine .inl ?_
    obtain hle | hb | hl := hp
    · rw [handed_append, List.length_append]
      omega
    · rw [(ha hm).2 hready] at hb
      cases hb
    · rw [hidle] at hl
      cases hl
  | @timeCheck cbMode arg ret hidle hm =>
    rw [hm] at he
    cases he
  | afterStop hp' hc | afterClose hp' hc => exact absurd hc hopen
  | afterPeek => exact .inr (.inl rfl)
  | _ => cases he

theorem Step.keepsDraining {s s' : Client} {e : ClientEvent} {tr out : List ClientObs} {n : ℕ}
    (h : Step s e s' out) (hi : Granted s tr) (hg : s.Steady e)
    (hn : n ≤ (Client.enqueued tr).length) (hd : Draining n s tr) :
    Draining n s' (tr ++ out) := by
  obtain ⟨hheld, -, hz⟩ := hg
  obtain hle | hd := hd
  · left
    rw [handed_append, List.length_append]
    omega
  · cases h with
    | app => exact .inr hd
    | wakeFirst => exact .inr (.inr rfl)
    | @drained ret =>
      have h0 : ret = 0 := hz
      exact .inr (.inr (by simp [h0]))
    | drainEmpty hp' hb =>
      have hpeek := hi.peek (by rw [hp']; rfl)
      have hq := Bridge.sendTryRecv_empty hb
      exact .inl (handed_all hi hn (by simp [unsent, hpeek, hq]) _)
    | drainClosed hp' hd =>
      exact absurd hheld (hi.owned.sender_false (Bridge.sendTryRecv_disconnected hd).2)
    | readyFailed hp' | ready hp' | chunk hp' | ignored hp' =>
      obtain hd | hd := hd <;> rw [hd] at hp' <;> cases hp'
    | loopReturn hp' => obtain hp' | hp' := hp' <;> rw [hp'] at hd <;> simp at hd
    | noop hp' | timeCheck hp' | afterStop hp' | afterClose hp' | afterPeek hp' | checked hp'
    | peeked hp' | peekClosed hp' | wakeLast hp' | dropSendRx hp' | dropWakeTx hp'
    | dropReadyTx hp' =>
      rw [hp'] at hd
      simp at hd

theorem granted_run {s t : Client} {es : List ClientEvent} {before tr : List ClientObs}
    (hr : machine.run s es = some (t, tr)) (hz : machine.Along (fun _ e => e.RetZero) s es)
    (hi : Granted s before) : Granted t (before ++ tr) :=
  Machine.run_induction Granted (fun _ _ _ _ _ hi hk hs => hi.step (step_cases hs) hk) hr hz hi

/-- What is enqueued before a TIME_CHECK is handed over by the end of any later AFTER_*. -/
theorem handed_after_peek {s m t : Client} {arg : LoopArg} {ret : ℤ} {es₂ es₃ : List ClientEvent}
    {e : ClientEvent} {tr₁ tr₂ tr₃ : List ClientObs}
    (hr₂ : machine.run s (.loop picoquicPacketLoopTimeCheck arg ret :: es₂) = some (m, tr₂))
    (hr₃ : machine.run m (e :: es₃) = some (t, tr₃)) (hi : Granted s tr₁)
    (hg₂ : machine.Along Steady s (.loop picoquicPacketLoopTimeCheck arg ret :: es₂))
    (hg₃ : machine.Along Steady m (e :: es₃)) (he : e.isAfter = true)
    (ht : t.pc.draining = false) :
    (enqueued tr₁).length ≤ (handed (tr₁ ++ tr₂ ++ tr₃)).length := by
  set n := (enqueued tr₁).length with hn
  have hmono : ∀ {tr out : List ClientObs}, n ≤ (enqueued tr).length →
      n ≤ (enqueued (tr ++ out)).length := by
    intro tr out hle
    rw [enqueued_append, List.length_append]
    omega
  -- up to the AFTER_* callback
  have hpeeked : Granted m (tr₁ ++ tr₂) ∧ n ≤ (enqueued (tr₁ ++ tr₂)).length ∧
      Peeked n m (tr₁ ++ tr₂) := by
    obtain ⟨s', out, rest, hs, hr', rfl⟩ := (Machine.run_cons_iff ..).mp hr₂
    have hst := step_cases hs
    have hfirst : Peeked n s' (tr₁ ++ out) := by
      cases hst with
      | noop hp hne => exact absurd rfl hne
      | timeCheck => exact .inr (.inr rfl)
      | afterStop hp hc hm | afterClose hp hc hm | afterPeek hp hc hm =>
        exact absurd hm (by decide)
    have hrun := Machine.run_induction (fun m tr => Granted m tr ∧ n ≤ (enqueued tr).length ∧
      Peeked n m tr) (fun m tr e m' out h hk hs =>
        ⟨h.1.step (step_cases hs) hk.2.2, hmono h.2.1,
          (step_cases hs).keepsPeeked h.1 hk h.2.1 h.2.2⟩) hr' (hg₂.tail hs)
      ⟨hi.step hst hg₂.head.2.2, hmono (Nat.le_of_eq hn), hfirst⟩
    rwa [List.append_assoc] at hrun
  -- and through it
  obtain ⟨m', out, rest, hs, hr', rfl⟩ := (Machine.run_cons_iff ..).mp hr₃
  have hst := step_cases hs
  have hdrain := Machine.run_induction (fun m tr => Granted m tr ∧ n ≤ (enqueued tr).length ∧
    Draining n m tr) (fun m tr e m' out h hk hs =>
      ⟨h.1.step (step_cases hs) hk.2.2, hmono h.2.1,
        (step_cases hs).keepsDraining h.1 hk h.2.1 h.2.2⟩) hr' (hg₃.tail hs)
    ⟨hpeeked.1.step hst hg₃.head.2.2, hmono hpeeked.2.1,
      hst.draining_of_after hpeeked.1 hg₃.head he hpeeked.2.2⟩
  rw [List.append_assoc] at hdrain
  obtain hle | hp | hp := hdrain.2.2
  · exact hle
  · rw [hp] at ht
    cases ht
  · rw [hp] at ht
    cases ht

end Client

/-- For the same entries the client's calls are a front of the calls that the server makes, and the
entries that a TIME_CHECK could see have been handed over by the end of the next AFTER_*. -/
theorem client_refines_drain {es : List ClientEvent} {s : Client} {tr : List ClientObs}
    {fs : List ServerEvent} {t : Server} {tr' : List ServerObs} {j : ℕ}
    (hr : Client.machine.run Client.init es = some (s, tr))
    (hz : Client.machine.Along (fun _ e => e.RetZero) Client.init es)
    (hr' : Server.machine.run Server.init fs = some (t, tr'))
    (hq : queued (Server.bridgeTrace j tr') = Client.enqueued tr)
    (hd : (t.stream j).sendQ.buf = []) :
    Client.added tr <+: Server.added j tr' ∧
      Server.added j tr' = (Client.enqueued tr).map callFor ∧
      ∀ es₁ arg ret es₂ e es₃ s₁ tr₁,
        es = es₁ ++ .loop picoquicPacketLoopTimeCheck arg ret :: (es₂ ++ e :: es₃) →
        Client.machine.run Client.init es₁ = some (s₁, tr₁) → e.isAfter = true →
        Client.machine.Along (fun s _ => s.bridge.owner = .held ∧ s.streamReady = true) s₁
          (.loop picoquicPacketLoopTimeCheck arg ret :: (es₂ ++ e :: es₃)) →
        s.pc.draining = false → (Client.enqueued tr₁).map callFor <+: Client.added tr := by
  have hi := Client.granted_run hr hz Client.Granted.init
  rw [List.nil_append] at hi
  have hserver : Server.added j tr' = (Client.enqueued tr).map callFor := by
    rw [Server.added_run hr' hd, hq]
  refine ⟨?_, hserver, ?_⟩
  · rw [hi.added, hserver, hi.enqueued, List.map_append]
    exact List.prefix_append _ _
  · rintro es₁ arg ret es₂ e es₃ s₁ tr₁ rfl h₁ he hsteady hpc
    obtain ⟨hz₁, hz₂⟩ := hz.append h₁
    have hi₁ := Client.granted_run h₁ hz₁ Client.Granted.init
    rw [List.nil_append] at hi₁
    obtain ⟨m₁, u, v, hm₁, hv, rfl⟩ := (Machine.run_append_iff ..).mp hr
    rw [h₁, Option.some.injEq, Prod.mk.injEq] at hm₁
    obtain ⟨rfl, rfl⟩ := hm₁
    rw [← List.cons_append] at hv hz₂ hsteady
    obtain ⟨m, tr₂, tr₃, hr₂, hr₃, rfl⟩ := (Machine.run_append_iff ..).mp hv
    have hg : Client.machine.Along Client.Steady s₁ (.loop picoquicPacketLoopTimeCheck arg ret ::
        es₂ ++ e :: es₃) := (hsteady.and hz₂).mono fun _ _ h => ⟨h.1.1, h.1.2, h.2⟩
    obtain ⟨hg₂, hg₃⟩ := hg.append hr₂
    have hle := Client.handed_after_peek hr₂ hr₃ hi₁ hg₂ hg₃ he hpc
    rw [List.append_assoc] at hle
    rw [hi.added]
    apply List.IsPrefix.map
    have hfront : Client.handed (tr₁ ++ (tr₂ ++ tr₃)) <+:
        Client.enqueued (tr₁ ++ (tr₂ ++ tr₃)) := by
      rw [hi.enqueued]
      exact List.prefix_append _ _
    have hpre : Client.enqueued tr₁ <+: Client.enqueued (tr₁ ++ (tr₂ ++ tr₃)) := by
      rw [Client.enqueued_append]
      exact List.prefix_append _ _
    exact List.prefix_of_prefix_length_le hpre hfront hle

/-- A chunk and a FIN; the TIME_CHECK sees the chunk, the AFTER_SEND hands both over. -/
def clientChunkAndFin : List ClientEvent :=
  [.stream ⟨1, 0, none, .ready⟩ 0 0, .app (.pollWrite [1]), .app .pollShutdown, .loop 5 .null 0,
    .resume 0, .loop 3 .null 0, .resume 0, .resume 0, .resume 0, .resume 0]

def serverChunkAndFin : List ServerEvent :=
  [.stream ⟨1, 0, none, .ready⟩, .stream ⟨1, 4, some [7], .streamData⟩, .resume 0, .accept,
    .app 0 (.pollWrite [1]), .app 0 .pollShutdown, .loop 3 .null [1], .resume 0, .resume 0,
    .resume 0, .resume 0, .resume 0, .resume 0]

theorem client_refines_drain_chunkAndFin : ∃ s tr t tr' s₁ tr₁,
    Client.machine.run Client.init clientChunkAndFin = some (s, tr) ∧
      Server.machine.run Server.init serverChunkAndFin = some (t, tr') ∧
      Client.machine.run Client.init (clientChunkAndFin.take 3) = some (s₁, tr₁) ∧
      Server.added 0 tr' = [([1], 0), ([], 1)] ∧ Client.added tr <+: Server.added 0 tr' ∧
      (Client.enqueued tr₁).map callFor <+: Client.added tr := by
  obtain ⟨s, tr, t, tr', s₁, tr₁, hr, hr', h₁, hz, hq, hd, hadd, hg, hp⟩ : ∃ s tr t tr' s₁ tr₁,
      Client.machine.run Client.init clientChunkAndFin = some (s, tr) ∧
        Server.machine.run Server.init serverChunkAndFin = some (t, tr') ∧
        Client.machine.run Client.init (clientChunkAndFin.take 3) = some (s₁, tr₁) ∧
        Client.machine.Along (fun _ e => e.RetZero) Client.init clientChunkAndFin ∧
        queued (Server.bridgeTrace 0 tr') = Client.enqueued tr ∧ (t.stream 0).sendQ.buf = [] ∧
        Server.added 0 tr' = [([1], 0), ([], 1)] ∧
        Client.machine.Along (fun s _ => s.bridge.owner = .held ∧ s.streamReady = true) s₁
          (clientChunkAndFin.drop 3) ∧ s.pc.draining = false :=
    ⟨_, _, _, _, _, _, rfl, rfl, rfl, by decide, by decide, by decide, by decide, by decide,
      by decide⟩
  obtain ⟨hpre, -, hall⟩ := client_refines_drain hr hz hr' hq hd
  exact ⟨s, tr, t, tr', s₁, tr₁, hr, hr', h₁, hadd, hpre,
    hall _ _ _ [.resume 0] (.loop 3 .null 0) [.resume 0, .resume 0, .resume 0, .resume 0] _ _ rfl
      h₁ (by decide) hg hp⟩

end TransportProxy.Slipstream
