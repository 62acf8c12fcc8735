import TransportProxy.Server.Thread
import TransportProxy.Server.Closed
import TransportProxy.Accepting.Starved

/-! # The end of the packet-loop thread

Before the context is boxed, a step of the set-up that fails drops `accept_tx` with the closure;
after that, the thread reclaims the context if `picoquic_create` gave it nothing to run. Once the
packet loop was entered nobody reclaims it: `accept_tx` and the map outlive the thread.
-/
namespace TransportProxy.Slipstream
open Foundations Accepting
set_option autoImplicit false

namespace Bridge
variable {b b' : Bridge} {out : List BridgeObs}

/-- The packet loop is gone for both halves: a read ends once there is nothing left to read, a write
returns an error. -/
structure Over (b : Bridge) : Prop where
  read : ∀ remaining b' out, b.app (.pollRead remaining) = some (b', out) →
    .readPending ∉ out ∧ (b.recvHalf.unread = [] → b.recvQ.buf = [] → out = [.read []])
  write : ∀ op b' out, b.app op = some (b', out) → ¬ WriteReturns out
  pollWrite : ∀ buf b' out, b.app (.pollWrite buf) = some (b', out) →
    out = [.writeError .brokenPipe]

theorem Cut.app (hc : b.Cut) {op : AppOp} (h : b.app op = some (b', out)) : b'.Cut := by
  obtain ⟨h₁, h₂, h₃⟩ := (app_cases h).loopEnds
  exact ⟨by rw [h₁, hc.recv], by rw [h₂, hc.send], by rw [h₃, hc.wake]⟩

theorem pollRead_end {remaining : ℕ} (hu : b.recvHalf.unread = []) (hq : b.recvQ.buf = [])
    (hs : b.recvQ.sender = false) (h : b.app (.pollRead remaining) = some (b', out)) :
    out = [.read []] := by
  have hp : ¬ b.recvHalf.pendingOff < b.recvHalf.pending.length := by
    have hle := List.drop_eq_nil_iff.mp hu
    omega
  have hend : b.recvHalf.pollRead b.recvQ remaining = (.ready [], b.recvHalf, b.recvQ) := by
    rw [SlipstreamRecvHalf.pollRead, if_neg hp]
    obtain ⟨v, rest, hb, -⟩ | ⟨-, ht, -⟩ | ⟨-, -, hr⟩ := b.recvQ.pollRecv_cases
    · rw [hq] at hb
      cases hb
    · rw [hs] at ht
      cases ht
    · rw [hr]
  cases app_cases h with
  | read ho hr =>
    rw [hend] at hr
    cases hr
    rfl
  | readPending ho hr =>
    rw [hend] at hr
    cases hr
  | wrote hw | writeClosed hw | writeFull hw => exact absurd hw not_offers_pollRead

theorem Cut.over (hc : b.Cut) : b.Over := by
  refine ⟨fun remaining b' out h => ⟨?_, fun hu hq => ?_⟩, fun op b' out h => ?_,
    fun buf b' out h => hc.pollWrite h⟩
  · have hs : machine.step b (.app (.pollRead remaining)) = some (b', out) := h
    exact step_readPending hs hc.recv
  · exact pollRead_end hu hq hc.recv h
  · have hs : machine.step b (.app op) = some (b', out) := h
    exact hc.write hs

end Bridge

namespace ServerRun
variable {n : ℕ} {s s' t : ServerRun n} {e : RunEvent} {es : List RunEvent} {out tr : List RunObs}

/-! ## When everything is dropped -/

/-- The thread is gone, and with it every end that it held. -/
structure Dropped (s : ServerRun n) : Prop where
  ended : s.thread = .ended
  acceptTx : s.acceptTx = false
  cut : ∀ b ∈ s.server.streams, b.Cut

theorem Dropped.step (hd : Dropped s) (h : Step s e s' out) : Dropped s' := by
  cases h with
  | prepare hb | box hb | returned hb =>
    rw [hd.ended] at hb
    cases hb
  | retry he hh | reclaim he hh | opened hh =>
    rw [hd.ended] at hh
    cases hh
  | callback hp => obtain hp | hp := hp <;> exact absurd (hd.ended.symm.trans hp) (by simp)
  | loopReturned hp | freed hp => exact absurd (hd.ended.symm.trans hp) (by simp)
  | @app i op sv o h =>
    refine ⟨hd.ended, hd.acceptTx, fun b hm => ?_⟩
    have hs : Server.machine.step s.server (.app i op) = some (sv, o) := h
    cases Server.step_cases hs with
    | @app i op b₀ b₁ o hb ha happ =>
      obtain hm | rfl := List.mem_or_eq_of_mem_set hm
      · exact hd.cut b hm
      · exact (hd.cut b₀ (List.mem_of_getElem? hb)).app happ
  | @accepted a sv out o h hq =>
    have hs : Server.machine.step s.server .accept = some (sv, o) := hq
    cases Server.step_cases hs with
    | accept => exact ⟨hd.ended, hd.acceptTx, hd.cut⟩
  | accepting => exact ⟨hd.ended, hd.acceptTx, hd.cut⟩

theorem Dropped.run (hd : Dropped s) (hr : (machine n).run s es = some (t, tr)) : Dropped t :=
  Machine.run_invariant Dropped (fun _ _ _ _ hd _ h => hd.step (step_cases h)) hr
    (Machine.Along.true _ _) hd

/-- The accept of the loop finds `None`, and that leads out. -/
structure Breaks (s : ServerRun n) : Prop where
  recv : s.acceptRecv = .ready none
  leaves : ∃ t out, (machine n).step s (.accepting (.acceptFailed .closed)) = some (t, out) ∧
    t.acceptor.pc = .left
  only : ∀ e t out, e.own = true → (machine n).step s (.accepting e) = some (t, out) →
    t.acceptor.pc = .left

theorem Dropped.breaks (hd : Dropped s) (hq : s.server.acceptQ = [])
    (hp : s.acceptor.pc = .accept) : Breaks s := by
  have hrecv : s.acceptRecv = .ready none := by simp [acceptRecv, hq, hd.acceptTx]
  refine ⟨hrecv, ⟨{ s with acceptor := { s.acceptor with pc := .left } }, [.loop .left], ?_, rfl⟩,
    fun e t out he h => ?_⟩
  · simp [machine, ServerRun.step, accepting, AcceptLoop.step, runServer, hp, hrecv]
  · cases step_cases h with
    | retry _ hh | reclaim _ hh =>
      rw [hd.ended] at hh
      cases hh
    | @accepted a sv o o' _ hacc =>
      have hs : Server.machine.step s.server .accept = some (sv, o') := hacc
      cases Server.step_cases hs with
      | accept hcons =>
        rw [hq] at hcons
        cases hcons
    | accepting hloop hne hc hpend =>
      have hnp : s.acceptRecv ≠ .pending := by
        rw [hrecv]
        simp
      cases AcceptLoop.step_cases hloop with
      | signal | handlerDone | closeSemaphore => cases he
      | accepted | acceptedUnlimited => exact absurd rfl hne
      | pending => exact absurd (hpend (.inl rfl)) hnp
      | @acceptFailed r pc _ hr =>
        cases r with
        | error => cases hr
        | closed => exact (Option.some.inj hr).symm
        | timedOut => exact absurd (hpend (.inr rfl)) hnp
      | bind hp' | bound hp' | bindFailed hp' | leave hp' | poll hp' | acquired hp'
      | acquireFailed hp' => exact absurd (hp.symm.trans hp') (by simp)
      | slept hp' => obtain hp' | hp' := hp' <;> exact absurd (hp.symm.trans hp') (by simp)

/-- Everybody who depends on the thread learns that it has ended: the accept loop breaks once the
queued pairs are consumed, readers see an end and writers an error; and the context that was boxed
has been released. -/
structure DeathNoticed (s : ServerRun n) (tr : List RunObs) : Prop where
  acceptTx : s.acceptTx = false
  channels : ∀ b ∈ s.server.streams, b.Cut
  released : tr.count .reclaimed = tr.count .boxed ∧ tr.count .boxed ≤ 1
  acceptLoop : ∀ es t tr', (machine n).run s es = some (t, tr') → t.server.acceptQ = [] →
    t.acceptor.pc = .accept → t.Breaks
  streams : ∀ es t tr', (machine n).run s es = some (t, tr') → ∀ b ∈ t.server.streams, b.Over

theorem Dropped.noticed (hd : Dropped s)
    (hc : tr.count .reclaimed = tr.count .boxed ∧ tr.count .boxed ≤ 1) : DeathNoticed s tr where
  acceptTx := hd.acceptTx
  channels := hd.cut
  released := hc
  acceptLoop _ _ _ hr hq hp := (hd.run hr).breaks hq hp
  streams _ _ _ hr b hb := ((hd.run hr).cut b hb).over

/-! ## What becomes of the context -/

/-- As long as `picoquic_create` has given nothing, no callback has run, and the context is boxed
and reclaimed at most once each. -/
inductive Unopened (s : ServerRun n) (tr : List RunObs) : Prop where
  | bare (hp : s.thread.bare = true) (hs : s.server = .init) (htx : s.acceptTx = true)
      (hb : tr.count .boxed = 0) (hr : tr.count .reclaimed = 0)
  | holding (hp : s.thread.holding = true) (hs : s.server = .init) (htx : s.acceptTx = true)
      (hb : tr.count .boxed = 1) (hr : tr.count .reclaimed = 0)
  | ended (hp : s.thread = .ended) (hs : s.server = .init) (htx : s.acceptTx = false)
      (hb : tr.count .boxed ≤ 1) (hr : tr.count .reclaimed = tr.count .boxed)

/-- Once it has given a context, `accept_tx` stays. -/
structure Opened (s : ServerRun n) : Prop where
  thread : s.thread = .packetLoop ∨ s.thread = .free ∨ s.thread = .ended
  acceptTx : s.acceptTx = true

theorem Unopened.init : Unopened (init n) [] := .bare rfl rfl rfl rfl rfl

theorem Unopened.server (hi : Unopened s tr) : s.server = .init := by
  cases hi <;> assumption

theorem Unopened.thread (hi : Unopened s tr) : s.thread ≠ .packetLoop ∧ s.thread ≠ .free := by
  cases hi with
  | bare hp | holding hp => constructor <;> intro h <;> rw [h] at hp <;> cases hp
  | ended hp => simp [hp]

@[simp] theorem count_boxed_loop (l : List LoopObs) : (l.map RunObs.loop).count .boxed = 0 := by
  simp [List.count_eq_zero]

@[simp] theorem count_reclaimed_loop (l : List LoopObs) :
    (l.map RunObs.loop).count .reclaimed = 0 := by
  simp [List.count_eq_zero]

/-- The accept loop and its tasks leave the context alone. -/
theorem Unopened.acceptor (hi : Unopened s tr) (a : Acceptor n) (l : List LoopObs) :
    Unopened { s with acceptor := a } (tr ++ l.map .loop) := by
  cases hi with
  | bare hp hs htx hb hr => exact .bare hp hs htx (by simp [hb]) (by simp [hr])
  | holding hp hs htx hb hr => exact .holding hp hs htx (by simp [hb]) (by simp [hr])
  | ended hp hs htx hb hr => exact .ended hp hs htx (by simpa using hb) (by simpa using hr)

theorem reclaim_init (hs : s.server = .init) :
    s.reclaim = ({ s with thread := .ended, acceptTx := false }, [.reclaimed]) := by
  obtain ⟨thread, acceptTx, server, acceptor⟩ := s
  subst hs
  rfl

theorem Unopened.of_bare (hi : Unopened s tr) (hb : s.thread.bare = true) :
    s.server = .init ∧ s.acceptTx = true ∧ tr.count .boxed = 0 ∧ tr.count .reclaimed = 0 := by
  cases hi with
  | bare _ hs htx h₀ hr => exact ⟨hs, htx, h₀, hr⟩
  | holding hh =>
    rw [ThreadPc.not_holding_of_bare hb] at hh
    cases hh
  | ended hp =>
    rw [hp] at hb
    cases hb

theorem Unopened.of_holding (hi : Unopened s tr) (hh : s.thread.holding = true) :
    s.server = .init ∧ s.acceptTx = true ∧ tr.count .boxed = 1 ∧ tr.count .reclaimed = 0 := by
  cases hi with
  | holding _ hs htx h₁ hr => exact ⟨hs, htx, h₁, hr⟩
  | bare hb =>
    rw [ThreadPc.not_holding_of_bare hb] at hh
    cases hh
  | ended hp =>
    rw [hp] at hh
    cases hh

theorem Unopened.step (hi : Unopened s tr) (h : Step s e s' out) (he : e ≠ .created true) :
    Unopened s' (tr ++ out) := by
  cases h with
  | prepare hb hb' =>
    obtain ⟨hs, htx, h₀, hr⟩ := hi.of_bare hb
    exact .bare hb' hs htx (by simp [h₀]) (by simp [hr])
  | box hb =>
    obtain ⟨hs, htx, h₀, hr⟩ := hi.of_bare hb
    exact .holding rfl hs htx (by simp [h₀]) (by simp [hr])
  | returned hb =>
    obtain ⟨hs, htx, h₀, hr⟩ := hi.of_bare hb
    exact .ended rfl hs rfl (by simp [h₀]) (by simp [h₀, hr])
  | retry _ hh hh' =>
    obtain ⟨hs, htx, h₁, hr⟩ := hi.of_holding hh
    exact .holding hh' hs htx (by simp [h₁]) (by simp [hr])
  | reclaim _ hh =>
    obtain ⟨hs, htx, h₁, hr⟩ := hi.of_holding hh
    rw [reclaim_init hs]
    exact .ended rfl hs rfl (by simp [h₁]) (by simp [h₁, hr])
  | opened => exact absurd rfl he
  | callback hp => exact (hp.elim hi.thread.1 hi.thread.2).elim
  | loopReturned hp => exact absurd hp hi.thread.1
  | freed hp => exact absurd hp hi.thread.2
  | app h =>
    rw [hi.server] at h
    cases h
  | accepted _ hq =>
    rw [hi.server] at hq
    cases hq
  | accepting => exact hi.acceptor _ _

theorem Opened.step (hi : Opened s) (h : Step s e s' out) : Opened s' := by
  cases h with
  | prepare hb | box hb | returned hb =>
    obtain hp | hp | hp := hi.thread <;> rw [hp] at hb <;> cases hb
  | retry _ hh | reclaim _ hh | opened hh =>
    obtain hp | hp | hp := hi.thread <;> rw [hp] at hh <;> cases hh
  | loopReturned => exact ⟨.inr (.inl rfl), hi.acceptTx⟩
  | freed => exact ⟨.inr (.inr rfl), hi.acceptTx⟩
  | callback | app | accepted | accepting => exact ⟨hi.thread, hi.acceptTx⟩

theorem context_run (hr : (machine n).run (init n) es = some (s, tr)) :
    (.created true ∉ es → Unopened s tr) ∧ (.created true ∈ es → Opened s) := by
  refine Machine.run_events (fun s es tr => (.created true ∉ es → Unopened s tr) ∧
    (.created true ∈ es → Opened s)) ?_ hr (Machine.Along.true _ _)
    ⟨fun _ => .init, fun h => absurd h List.not_mem_nil⟩
  rintro s es tr e s' out ⟨hu, ho⟩ - h
  have hs := step_cases h
  by_cases hm : .created true ∈ es
  · exact ⟨fun hn => absurd (List.mem_append_left _ hm) hn, fun _ => (ho hm).step hs⟩
  · by_cases he : e = .created true
    · refine ⟨fun hn => absurd (by simp [he]) hn, fun _ => ?_⟩
      subst he
      have hi := hu hm
      cases hs with
      | retry he | reclaim he => exact absurd rfl he
      | opened hh => exact ⟨.inl rfl, (hi.of_holding hh).2.1⟩
    · refine ⟨fun _ => (hu hm).step hs he, fun hn => ?_⟩
      obtain hn | hn := List.mem_append.mp hn
      · exact absurd hn hm
      · exact absurd (List.mem_singleton.mp hn).symm he

/-- What the callbacks and the halves do in a run is a run of the server bridge. -/
theorem server_run (hr : (machine n).run (init n) es = some (s, tr)) :
    ∃ fs, Server.machine.run .init fs = some (s.server, tr.filterMap RunObs.server?) := by
  refine Machine.run_prefix (fun (s : ServerRun n) tr => ∃ fs, Server.machine.run .init fs =
    some (s.server, tr.filterMap RunObs.server?)) ?_ hr (Machine.Along.true _ _) ⟨[], rfl⟩
  rintro es m tr e m' out hm - ⟨fs, hfs⟩ - h
  rw [List.filterMap_append]
  cases step_cases h with
  | callback _ hs =>
    rw [servers_map_server]
    exact ⟨_, Server.machine.run_step hfs hs⟩
  | @app i op sv o hs =>
    have hs' : Server.machine.step m.server (.app i op) = some (sv, o) := hs
    rw [servers_map_server]
    exact ⟨_, Server.machine.run_step hfs hs'⟩
  | @accepted a sv o o' h hq =>
    have hs : Server.machine.step m.server .accept = some (sv, []) := by
      have hq' : Server.machine.step m.server .accept = some (sv, o') := hq
      cases Server.step_cases hq' with
      | accept => exact hq'
    rw [servers_map_loop]
    exact ⟨_, Server.machine.run_step hfs hs⟩
  | accepting =>
    rw [servers_map_loop, List.append_nil]
    exact ⟨fs, hfs⟩
  | reclaim he hh =>
    -- the map that is dropped is still empty
    have hinit : m.server = .init := by
      obtain ⟨hu, ho⟩ := context_run hm
      by_cases hc : .created true ∈ es
      · obtain hp | hp | hp := (ho hc).thread <;> rw [hp] at hh <;> cases hh
      · exact (hu hc).server
    rw [reclaim_init hinit]
    exact ⟨fs, by simpa [List.filterMap_cons, RunObs.server?] using hfs⟩
  | _ => exact ⟨fs, by simpa [List.filterMap_cons, RunObs.server?] using hfs⟩

/-- The server never runs more handlers than `max_connections`. -/
theorem handlers_le (hn : 0 < n) (hr : (machine n).run (init n) es = some (s, tr)) :
    s.acceptor.handlers ≤ n := by
  obtain ⟨ds, hd⟩ := (acceptorProjection n).run hr
  have hmem : runServer ∈ acceptLoops := by simp [acceptLoops]
  exact AcceptLoop.handlers_le hmem hn hd

/-- The end of the packet-loop thread is noticed if and only if `picoquic_create` never gave it a
context, so that it did not enter the packet loop. -/
theorem thread_end_noticed_iff (hr : (machine n).run (init n) es = some (s, tr))
    (he : s.thread = .ended) : DeathNoticed s tr ↔ .created true ∉ es := by
  obtain ⟨hu, ho⟩ := context_run hr
  constructor
  · intro hd hm
    have htx := (ho hm).acceptTx
    rw [hd.acceptTx] at htx
    cases htx
  · intro hn
    have hi := hu hn
    cases hi with
    | bare hp | holding hp =>
      rw [he] at hp
      cases hp
    | ended hp hs htx hb hr =>
      refine Dropped.noticed ⟨hp, htx, fun b hm => ?_⟩ ⟨hr, hb⟩
      rw [hs] at hm
      cases hm

/-- Neither the given certificate nor a new one can be loaded. -/
def noContext : List RunEvent :=
  [.setup true, .setup true, .setup true, .setup true, .setup true, .created false, .setup true,
    .setup true, .created false]

theorem thread_end_noticed_iff_noContext :
    DeathNoticed (⟨.ended, false, .init, runServer.init 1⟩ : ServerRun 1) [.boxed, .reclaimed] := by
  have hr : (machine 1).run (init 1) noContext =
      some (⟨.ended, false, .init, runServer.init 1⟩, [.boxed, .reclaimed]) := rfl
  exact (thread_end_noticed_iff hr rfl).mpr (by decide)

/-- The port cannot be bound: the packet loop returns at once. -/
def portInUse : List RunEvent :=
  [.setup true, .setup true, .setup true, .setup true, .setup true, .created true, .loopReturned,
    .freed]

theorem portInUse_leaks_context :
    ∃ (s : ServerRun 1) (tr : List RunObs), (machine 1).run (init 1) portInUse = some (s, tr) ∧
      s.thread = .ended ∧ ¬ DeathNoticed s tr := by
  refine ⟨⟨.ended, true, .init, runServer.init 1⟩, [.boxed], rfl, rfl, ?_⟩
  intro hd
  cases hd.acceptTx

end ServerRun
end TransportProxy.Slipstream
