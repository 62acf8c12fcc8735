import TransportProxy.Accepting.Loop

/-! # Leaving an accept loop while handlers run

Every handler that runs under a limit holds one permit, so a loop that waits for a permit with none
to be had waits for a handler. It does not look at the signal there. Everywhere else a signalled
loop finds its way out by steps of its own.
-/
namespace TransportProxy.Accepting
open Foundations
set_option autoImplicit false

/-- The loop waits for a permit while the handlers hold all of them. -/
structure Acceptor.Starved {n : ℕ} (s : Acceptor n) : Prop where
  waits : s.pc = .permit
  handlers : s.handlers = n
  opened : ∀ sem, s.semaphore = some sem → sem.closed = false

/-- An accept without a connection leads to the select, to the next bind or out. -/
theorem onFailure_ne_permit {l : AcceptLoop} (hl : l ∈ acceptLoops) {r : AcceptFailure}
    {pc : AcceptPc} (h : l.onFailure r = some pc) : pc ≠ .permit := by
  simp only [acceptLoops, List.mem_cons, List.not_mem_nil, or_false] at hl
  rintro rfl
  obtain rfl | rfl | rfl | rfl := hl <;> cases r <;> cases h

theorem start_ne_permit {l : AcceptLoop} (hl : l ∈ acceptLoops) : l.start ≠ .permit := by
  simp only [acceptLoops, List.mem_cons, List.not_mem_nil, or_false] at hl
  obtain rfl | rfl | rfl | rfl := hl <;> exact AcceptPc.noConfusion

namespace AcceptLoop
variable {n : ℕ} {l : AcceptLoop} {s s' t : Acceptor n} {e : LoopEvent} {es : List LoopEvent}
  {out tr : List LoopObs}

/-! ## Who holds the permits -/

/-- The permits that are held are those of the running handlers. -/
structure Accounted (s : Acceptor n) : Prop where
  held : ∀ sem, s.semaphore = some sem → sem.held = s.handlers
  limited : s.pc = .permit → s.semaphore ≠ none

theorem Accounted.init (hl : l ∈ acceptLoops) : Accounted (l.init n) := by
  refine ⟨fun sem hsem => ?_, fun hp => absurd hp (start_ne_permit hl)⟩
  simp only [AcceptLoop.init, semaphoreOf, Option.ite_none_right_eq_some, Option.some.injEq] at hsem
  obtain ⟨-, rfl⟩ := hsem
  rfl

theorem Accounted.step (hi : Accounted s) (hl : l ∈ acceptLoops) (h : Step l s e s' out) :
    Accounted s' := by
  have hmap (f : Semaphore n → Semaphore n) (hp : s.pc = .permit) : s.semaphore.map f ≠ none := by
    intro hn
    exact hi.limited hp (Option.map_eq_none_iff.mp hn)
  cases h with
  | signal => exact ⟨hi.held, hi.limited⟩
  | handlerDone hh =>
    refine ⟨fun sem hsem => ?_, hmap _⟩
    obtain ⟨sem₀, h₀, rfl⟩ := Option.map_eq_some_iff.mp hsem
    rw [Semaphore.release_held, hi.held sem₀ h₀]
  | closeSemaphore =>
    refine ⟨fun sem hsem => ?_, hmap _⟩
    obtain ⟨sem₀, h₀, rfl⟩ := Option.map_eq_some_iff.mp hsem
    exact hi.held sem₀ h₀
  | @accepted sem hp hs =>
    refine ⟨hi.held, fun _ hn => ?_⟩
    rw [hs] at hn
    cases hn
  | acceptedUnlimited hp hs =>
    refine ⟨fun sem hsem => ?_, fun hp' => by cases hp'⟩
    rw [hs] at hsem
    cases hsem
  | acceptFailed hp hr => exact ⟨hi.held, fun hp' => absurd hp' (onFailure_ne_permit hl hr)⟩
  | @acquired sem sem' hp hs ha =>
    refine ⟨fun sem₁ hsem => ?_, fun hp' => by cases hp'⟩
    obtain rfl := Option.some.inj hsem
    have hheld := hi.held sem hs
    obtain ⟨-, h'⟩ | ⟨sem₂, h₂, h'⟩ | ⟨-, -, h'⟩ := sem.acquire_cases
    · rw [h'] at ha
      cases ha
    · rw [h', Poll.ready.injEq, Option.some.injEq] at ha
      subst ha
      rw [h₂, hheld]
    · rw [h'] at ha
      cases ha
  | _ => exact ⟨hi.held, fun hp' => by cases hp'⟩

theorem accounted_run (hl : l ∈ acceptLoops)
    (hr : (l.machine n).run (l.init n) es = some (s, tr)) : Accounted s :=
  Machine.run_invariant Accounted (fun _ _ _ _ hi _ h => hi.step hl (step_cases h)) hr
    (Machine.Along.true _ _) (.init hl)

theorem Step.semaphore (h : Step l s e s' out) : s'.semaphore = none ↔ s.semaphore = none := by
  cases h with
  | handlerDone | closeSemaphore => exact Option.map_eq_none_iff
  | acquired _ hs => simp [hs]
  | _ => exact Iff.rfl

/-- Under a limit no more handlers run than it allows. -/
theorem handlers_le (hl : l ∈ acceptLoops) (hn : 0 < n)
    (hr : (l.machine n).run (l.init n) es = some (s, tr)) : s.handlers ≤ n := by
  have hinit : (l.init n).semaphore ≠ none := by simp [AcceptLoop.init, semaphoreOf, hn]
  have hsem : s.semaphore ≠ none :=
    Machine.run_invariant (fun s : Acceptor n => s.semaphore ≠ none)
      (fun _ _ _ _ hi _ h => (step_cases h).semaphore.not.mpr hi) hr (Machine.Along.true _ _) hinit
  obtain ⟨sem, hs⟩ := Option.ne_none_iff_exists'.mp hsem
  have hheld := (accounted_run hl hr).held sem hs
  have hb := sem.balance
  omega

/-! ## The way out -/

/-- The loop reaches its exit by steps of its own. -/
def CanLeave (l : AcceptLoop) (s : Acceptor n) : Prop :=
  ∃ es : List LoopEvent, (∀ e ∈ es, e.own = true) ∧
    ∃ t tr, (l.machine n).run s es = some (t, tr) ∧ t.pc = .left

theorem CanLeave.cons (h : CanLeave l s') (hs : (l.machine n).step s e = some (s', out))
    (he : e.own = true) : CanLeave l s := by
  obtain ⟨es, hown, t, tr, hr, ht⟩ := h
  refine ⟨e :: es, ?_, t, out ++ tr, ?_, ht⟩
  · intro d hd
    obtain rfl | hd := List.mem_cons.mp hd
    · exact he
    · exact hown d hd
  · exact (Machine.run_cons_iff ..).mpr ⟨s', out, tr, hs, hr, rfl⟩

theorem canLeave_select (hp : s.pc = .select) (hs : s.signalled = true) : CanLeave l s := by
  have hleave : (l.machine n).step s .poll = some ({ s with pc := .left }, [.left]) :=
    (Step.leave hp hs).step
  refine ⟨[.poll], by simp [LoopEvent.own], { s with pc := .left }, [.left], ?_, rfl⟩
  exact (Machine.run_single_iff ..).mpr hleave

theorem canLeave_binding (hp : s.pc = .binding) (hs : s.signalled = true) : CanLeave l s := by
  have hnext : CanLeave l { s with pc := .select } := canLeave_select rfl hs
  exact hnext.cons (Step.bound hp).step rfl

theorem canLeave_bind (hp : s.pc = .bind) (hs : s.signalled = true) : CanLeave l s := by
  have hnext : CanLeave l { s with pc := .binding } := canLeave_binding rfl hs
  exact hnext.cons (Step.bind hp).step rfl

theorem canLeave_sleep (hp : s.pc = .retrySleep ∨ s.pc = .rebindSleep)
    (hs : s.signalled = true) : CanLeave l s := by
  have hnext : CanLeave l { s with pc := .bind } := canLeave_bind rfl hs
  exact hnext.cons (Step.slept hp).step rfl

theorem canLeave_accept (hp : s.pc = .accept) (hs : s.signalled = true) : CanLeave l s := by
  have hnext : CanLeave l { s with pc := .select } := canLeave_select rfl hs
  exact hnext.cons (Step.pending hp).step rfl

/-- A permit that can be had, or a closed semaphore, leads back to the select. -/
theorem canLeave_permit (hi : Accounted s) (hp : s.pc = .permit) (hs : s.signalled = true)
    (hn : ¬ s.Starved) : CanLeave l s := by
  obtain ⟨sem, hsem⟩ := Option.ne_none_iff_exists'.mp (hi.limited hp)
  obtain ⟨-, ha⟩ | ⟨sem', -, ha⟩ | ⟨hc, hheld, -⟩ := sem.acquire_cases
  · have hnext : CanLeave l { s with pc := .select } := canLeave_select rfl hs
    exact hnext.cons (Step.acquireFailed hp hsem ha).step rfl
  · have hnext : CanLeave l
        { s with pc := .select, semaphore := some sem', handlers := s.handlers + 1 } :=
      canLeave_select rfl hs
    exact hnext.cons (Step.acquired hp hsem ha).step rfl
  · refine (hn ⟨hp, ?_, fun sem₁ h₁ => ?_⟩).elim
    · rw [← hi.held sem hsem, hheld]
    · rw [hsem] at h₁
      rw [← Option.some.inj h₁, hc]

theorem canLeave_of_not_starved (hi : Accounted s) (hs : s.signalled = true)
    (hn : ¬ s.Starved) : CanLeave l s := by
  cases hp : s.pc with
  | bind => exact canLeave_bind hp hs
  | binding => exact canLeave_binding hp hs
  | retrySleep => exact canLeave_sleep (.inl hp) hs
  | select => exact canLeave_select hp hs
  | accept => exact canLeave_accept hp hs
  | permit => exact canLeave_permit hi hp hs hn
  | rebindSleep => exact canLeave_sleep (.inr hp) hs
  | left => exact ⟨[], by simp, s, [], rfl, hp⟩

/-- A starved loop takes no step of its own. -/
theorem Step.not_starved (h : Step l s e s' out) (he : e.own = true) (hi : Accounted s) :
    ¬ s.Starved := by
  intro hst
  cases h with
  | signal | handlerDone | closeSemaphore => cases he
  | bind hp | bound hp | bindFailed hp | leave hp | poll hp | pending hp | accepted hp
  | acceptedUnlimited hp | acceptFailed hp => exact absurd (hst.waits.symm.trans hp) (by simp)
  | slept hp => obtain hp | hp := hp <;> exact absurd (hst.waits.symm.trans hp) (by simp)
  | @acquired sem sem' hp hs ha | @acquireFailed sem hp hs ha =>
    have hfull : sem.held = n := by rw [hi.held sem hs, hst.handlers]
    rw [sem.acquire_pending_iff.mpr ⟨hst.opened sem hs, hfull⟩] at ha
    cases ha

theorem not_canLeave_of_starved (hi : Accounted s) (hst : s.Starved) : ¬ CanLeave l s := by
  rintro ⟨es, hown, t, tr, hr, ht⟩
  cases es with
  | nil =>
    simp only [Machine.run_nil, Option.some.injEq, Prod.mk.injEq] at hr
    rw [← hr.1, hst.waits] at ht
    cases ht
  | cons e es =>
    obtain ⟨s', out, rest, hs, -⟩ := (Machine.run_cons_iff ..).mp hr
    exact (step_cases hs).not_starved (hown e List.mem_cons_self) hi hst

end AcceptLoop

/-! ## All four loops -/

/-- A signalled accept loop can leave without any handler having to finish, if and only if it is not
waiting for a permit while `max_connections` handlers run. -/
theorem signalled_canLeave_iff {l : AcceptLoop} (hl : l ∈ acceptLoops) {n : ℕ}
    {es : List LoopEvent} {s : Acceptor n} {tr : List LoopObs}
    (hr : (l.machine n).run (l.init n) es = some (s, tr)) (hs : s.signalled = true) :
    l.CanLeave s ↔ ¬ s.Starved := by
  have hi := AcceptLoop.accounted_run hl hr
  constructor
  · intro hc hst
    exact AcceptLoop.not_canLeave_of_starved hi hst hc
  · intro hn
    exact AcceptLoop.canLeave_of_not_starved hi hs hn

/-- The signal comes between the two polls of a select, with one of two permits held. -/
theorem signalled_canLeave_iff_midSelect :
    runQuinnServer.CanLeave (⟨.accept, true, some ⟨1, 1, false, rfl⟩, 1⟩ : Acceptor 2) ↔
      ¬ (⟨.accept, true, some ⟨1, 1, false, rfl⟩, 1⟩ : Acceptor 2).Starved :=
  signalled_canLeave_iff (n := 2) (l := runQuinnServer) (by simp [acceptLoops])
    (show (runQuinnServer.machine 2).run (runQuinnServer.init 2)
      [.poll, .accepted, .acquired, .poll, .signal] = some (_, [.spawned]) from rfl) rfl

/-- With `max_connections = 1`, a second connection comes while the first is open, and then the
signal. -/
theorem signalled_waitsForHandler :
    ∃ (es : List LoopEvent) (s : Acceptor 1) (tr : List LoopObs),
      (runKcpTokioServer.machine 1).run (runKcpTokioServer.init 1) es = some (s, tr) ∧
      s.signalled = true ∧ s.pc ≠ .left ∧ ¬ runKcpTokioServer.CanLeave s := by
  refine ⟨[.bind, .bound true, .poll, .accepted, .acquired, .poll, .accepted, .signal],
    ⟨.permit, true, some ⟨0, 1, false, rfl⟩, 1⟩, [.bind, .spawned], rfl, rfl, by decide, ?_⟩
  apply AcceptLoop.not_canLeave_of_starved
  · refine ⟨fun sem hsem => ?_, by decide⟩
    rw [← Option.some.inj hsem]
  · refine ⟨rfl, rfl, fun sem hsem => ?_⟩
    rw [← Option.some.inj hsem]

end TransportProxy.Accepting
