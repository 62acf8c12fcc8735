import TransportProxy.Accepting.Starved

/-! # Every connection is served

No accept loop drops a connection: each that was accepted has been given to a handler, but for the
one that waits for a permit, and that one gets a permit as soon as there is one. The semaphore is
never closed, so the branch of the loops that gives a connection up is not taken.
-/
namespace TransportProxy.Accepting
open Foundations
set_option autoImplicit false

theorem start_ne_left {l : AcceptLoop} (hl : l ∈ acceptLoops) : l.start ≠ .left := by
  simp only [acceptLoops, List.mem_cons, List.not_mem_nil, or_false] at hl
  obtain rfl | rfl | rfl | rfl := hl <;> exact AcceptPc.noConfusion

namespace AcceptLoop
variable {n : ℕ} {l : AcceptLoop} {s s' : Acceptor n} {e : LoopEvent} {es : List LoopEvent}
  {out tr : List LoopObs}

/-- The semaphore of the loop can still be acquired. -/
def Opened (s : Acceptor n) : Prop := ∀ sem ∈ s.semaphore, sem.closed = false

theorem Opened.init (l : AcceptLoop) (n : ℕ) : Opened (l.init n) := by
  intro sem hsem
  simp only [AcceptLoop.init, semaphoreOf, Option.mem_ite_none_right] at hsem
  rw [← Option.some.inj hsem.2]
  rfl

theorem Opened.step (hi : Opened s) (h : Step l s e s' out) (he : e ≠ .closeSemaphore) :
    Opened s' := by
  cases h with
  | closeSemaphore => exact absurd rfl he
  | handlerDone =>
    intro sem hsem
    obtain ⟨sem₀, h₀, rfl⟩ := Option.map_eq_some_iff.mp hsem
    rw [Semaphore.release_closed]
    exact hi sem₀ h₀
  | @acquired sem sem' hp hs ha =>
    intro sem₁ hsem
    obtain rfl := Option.some.inj hsem
    rw [Semaphore.acquire_closed ha]
    exact hi sem hs
  | _ => exact hi

/-- An acquire fails on a closed semaphore only. -/
theorem Opened.acquire (hi : Opened s) {sem : Semaphore n} (hs : s.semaphore = some sem) :
    sem.acquire ≠ .ready none := by
  intro ha
  obtain ⟨hc, -⟩ | ⟨sem', -, h'⟩ | ⟨-, -, h'⟩ := sem.acquire_cases
  · rw [hi sem hs] at hc
    cases hc
  · rw [h'] at ha
    cases ha
  · rw [h'] at ha
    cases ha

/-- The connections in the hands of the loop itself. -/
def waiting (s : Acceptor n) : ℕ := if s.pc = .permit then 1 else 0

theorem waiting_of_ne (hp : s.pc ≠ .permit) : waiting s = 0 := if_neg hp

/-- A step accepts a connection, gives one to a handler, or ends a handler with its connection. -/
theorem Step.counts (h : Step l s e s' out) (hl : l ∈ acceptLoops) (hi : Opened s) :
    [e].count .accepted + waiting s = out.count .spawned + waiting s' ∧
      out.count .spawned + s.handlers = [e].count .handlerDone + s'.handlers := by
  cases h with
  | signal | closeSemaphore => exact ⟨rfl, rfl⟩
  | handlerDone hh =>
    refine ⟨rfl, ?_⟩
    simp only [List.count_singleton_self, List.count_nil]
    omega
  | bind hp | bound hp | bindFailed hp | leave hp | poll hp | pending hp | accepted hp
  | acceptedUnlimited hp | acquired hp => simp [waiting, hp, Nat.add_comm]
  | slept hp => obtain hp | hp := hp <;> simp [waiting, hp]
  | acceptFailed hp hr =>
    have hpc := onFailure_ne_permit hl hr
    split <;> simp [waiting, hp, hpc]
  | acquireFailed hp hs ha => exact absurd ha (hi.acquire hs)

/-- What has become of the connections. -/
structure Served (s : Acceptor n) (es : List LoopEvent) (tr : List LoopObs) : Prop where
  opened : Opened s
  accepted : es.count .accepted = tr.count .spawned + waiting s
  spawned : tr.count .spawned = es.count .handlerDone + s.handlers

theorem Served.init (hl : l ∈ acceptLoops) : Served (l.init n) [] [] := by
  have hp : (l.init n).pc ≠ .permit := start_ne_permit hl
  exact ⟨.init l n, by rw [waiting_of_ne hp]; rfl, rfl⟩

theorem Served.step (hi : Served s es tr) (hl : l ∈ acceptLoops) (h : Step l s e s' out)
    (he : e ≠ .closeSemaphore) : Served s' (es ++ [e]) (tr ++ out) := by
  obtain ⟨hacc, hsp⟩ := h.counts hl hi.opened
  have hacc' := hi.accepted
  have hsp' := hi.spawned
  refine ⟨hi.opened.step h he, ?_, ?_⟩
  · rw [List.count_append, List.count_append]
    omega
  · rw [List.count_append, List.count_append]
    omega

theorem served_run (hl : l ∈ acceptLoops) (hr : (l.machine n).run (l.init n) es = some (s, tr))
    (hc : .closeSemaphore ∉ es) : Served s es tr := by
  have hg : (l.machine n).Along (fun _ e => e ≠ .closeSemaphore) (l.init n) es :=
    .of_forall fun e he => ne_of_mem_of_not_mem he hc
  exact Machine.run_events Served
    (fun _ _ _ _ _ _ hi he hs => hi.step hl (step_cases hs) he) hr hg (.init hl)

/-! ## After the loop has been left -/

/-- The loop has left if it says so, and says so last. -/
structure Leaves (s : Acceptor n) (tr : List LoopObs) : Prop where
  running : s.pc ≠ .left → .left ∉ tr
  left : s.pc = .left → ∃ before, tr = before ++ [.left] ∧ .left ∉ before

theorem Leaves.step (hi : Leaves s tr) (h : Step l s e s' out) : Leaves s' (tr ++ out) := by
  have hgo {pc : AcceptPc} (hp : s.pc = pc) (hne : pc ≠ .left) : .left ∉ tr :=
    hi.running (hp ▸ hne)
  cases h with
  | signal | handlerDone | closeSemaphore =>
    exact ⟨by simpa using hi.running, by simpa using hi.left⟩
  | bind hp | bound hp | bindFailed hp | poll hp | pending hp | accepted hp
  | acceptedUnlimited hp | acquired hp | acquireFailed hp =>
    exact ⟨fun _ => by simpa using hgo hp (by simp), nofun⟩
  | slept hp =>
    refine ⟨fun _ => ?_, nofun⟩
    obtain hp | hp := hp <;> simpa using hgo hp (by simp)
  | leave hp => exact ⟨fun hne => absurd rfl hne, fun _ => ⟨tr, rfl, hgo hp (by simp)⟩⟩
  | @acceptFailed r pc hp hr =>
    have hnot := hgo hp (by simp)
    by_cases hpc : pc = .left
    · exact ⟨fun hne => absurd hpc hne, fun _ => ⟨tr, by rw [if_pos hpc], hnot⟩⟩
    · exact ⟨fun _ => by simpa [hpc] using hnot, fun hl => absurd hl hpc⟩

/-- Leaving is the last thing that a loop does. -/
theorem left_last (hl : l ∈ acceptLoops)
    (hr : (l.machine n).run (l.init n) es = some (s, tr)) {before after : List LoopObs}
    (htr : tr = before ++ .left :: after) : after = [] := by
  have hstart : (l.init n).pc ≠ .left := start_ne_left hl
  have hi : Leaves s tr :=
    Machine.run_trace Leaves (fun _ _ _ _ _ hi _ hs => hi.step (step_cases hs)) hr
      (Machine.Along.true _ _) ⟨fun _ => List.not_mem_nil, fun h => absurd h hstart⟩
  by_cases hp : s.pc = .left
  · obtain ⟨front, hfront, hnot⟩ := hi.left hp
    rw [hfront] at htr
    obtain ⟨mid, rfl, -⟩ | ⟨mid, -, h⟩ := append_eq_split htr
    · exact absurd (by simp) hnot
    · cases mid with
      | nil => exact (List.cons.inj h).2.symm
      | cons o mid => simp at h
  · exact absurd (by rw [htr]; simp) (hi.running hp)

/-! ## The wait for a permit -/

theorem pos_of_permit (hl : l ∈ acceptLoops)
    (hr : (l.machine n).run (l.init n) es = some (s, tr)) (hp : s.pc = .permit) : 0 < n := by
  refine Nat.pos_of_ne_zero fun hn => (accounted_run hl hr).limited hp ?_
  refine Machine.run_invariant (fun s : Acceptor n => s.semaphore = none)
    (fun _ _ _ _ hi _ h => (step_cases h).semaphore.mpr hi) hr (Machine.Along.true _ _) ?_
  exact if_neg (by omega)

/-- A connection that waits gets its handler at once, or as soon as one of the others ends. -/
theorem served_next (hi : Accounted s) (ho : Opened s) (hp : s.pc = .permit) (hn : 0 < n) :
    ∃ t, (l.machine n).run s [.acquired] = some (t, [.spawned]) ∨
      (l.machine n).run s [.handlerDone, .acquired] = some (t, [.spawned]) := by
  obtain ⟨sem, hs⟩ := Option.ne_none_iff_exists'.mp (hi.limited hp)
  obtain ⟨-, ha⟩ | ⟨sem', -, ha⟩ | ⟨hc, hheld, -⟩ := sem.acquire_cases
  · exact absurd ha (ho.acquire hs)
  · exact ⟨_, .inl ((Machine.run_single_iff ..).mpr (Step.acquired hp hs ha).step)⟩
  · have hh : 0 < s.handlers := by rw [← hi.held sem hs, hheld]; exact hn
    obtain ⟨sem', ha⟩ : ∃ sem', sem.release.acquire = .ready (some sem') := by
      have hb := sem.release.balance
      obtain ⟨hc', -⟩ | ⟨sem', -, ha⟩ | ⟨-, hfull, -⟩ := sem.release.acquire_cases
      · rw [sem.release_closed, hc] at hc'
        cases hc'
      · exact ⟨sem', ha⟩
      · rw [sem.release_held] at hfull
        omega
    have hs' : s.semaphore.map Semaphore.release = some sem.release := by rw [hs]; rfl
    have hacquired : Step l
        { s with handlers := s.handlers - 1, semaphore := s.semaphore.map .release } .acquired _
        [.spawned] := .acquired hp hs' ha
    exact ⟨_, .inr ((Machine.run_cons_iff ..).mpr ⟨_, [], [.spawned], (Step.handlerDone hh).step,
      (Machine.run_single_iff ..).mpr hacquired.step, rfl⟩)⟩

end AcceptLoop

/-! ## All four loops -/

/-- In every run of an accept loop, whose semaphore nobody closes: each connection accepted has been
given to one handler, but for the one that waits for a permit; handlers run until they are done, no
more at a time than there are permits, and the rest of the permits is free; a connection that waits
gets its handler once one of the others is done; and a loop that has left does nothing more. -/
theorem connections_served {l : AcceptLoop} (hl : l ∈ acceptLoops) {n : ℕ} {es : List LoopEvent}
    {s : Acceptor n} {tr : List LoopObs}
    (hr : (l.machine n).run (l.init n) es = some (s, tr)) (hc : .closeSemaphore ∉ es) :
    es.count .accepted = tr.count .spawned + (if s.pc = .permit then 1 else 0) ∧
    tr.count .spawned = es.count .handlerDone + s.handlers ∧
    (∀ sem ∈ s.semaphore, sem.permits + s.handlers = n) ∧
    (s.pc = .permit → ∃ t, (l.machine n).run s [.acquired] = some (t, [.spawned]) ∨
      (l.machine n).run s [.handlerDone, .acquired] = some (t, [.spawned])) ∧
    ∀ before after, tr = before ++ .left :: after → after = [] := by
  have hi := AcceptLoop.served_run hl hr hc
  have ha := AcceptLoop.accounted_run hl hr
  refine ⟨hi.accepted, hi.spawned, fun sem hs => ?_, fun hp => ?_,
    fun _ _ => AcceptLoop.left_last hl hr⟩
  · rw [← ha.held sem hs]
    exact sem.balance
  · exact AcceptLoop.served_next ha hi.opened hp (AcceptLoop.pos_of_permit hl hr hp)

/-- With one permit, a second connection comes while the first is open. -/
theorem connections_served_onePermit : ∃ (es : List LoopEvent) (s : Acceptor 1) (tr : List LoopObs),
    (runQuinnServer.machine 1).run (runQuinnServer.init 1) es = some (s, tr) ∧
    s.pc = .permit ∧ es.count .accepted = 2 ∧
    es.count .accepted = tr.count .spawned + (if s.pc = .permit then 1 else 0) ∧
    tr.count .spawned = es.count .handlerDone + s.handlers ∧
    (∀ sem ∈ s.semaphore, sem.permits + s.handlers = 1) ∧
    (s.pc = .permit → ∃ t, (runQuinnServer.machine 1).run s [.acquired] = some (t, [.spawned]) ∨
      (runQuinnServer.machine 1).run s [.handlerDone, .acquired] = some (t, [.spawned])) ∧
    ∀ before after, tr = before ++ .left :: after → after = [] :=
  ⟨[.poll, .accepted, .acquired, .poll, .accepted],
    ⟨.permit, false, some ⟨0, 1, false, rfl⟩, 1⟩, [.spawned], rfl, rfl, rfl,
    @connections_served runQuinnServer (by simp [acceptLoops]) 1 _ _ _ rfl (by decide)⟩

end TransportProxy.Accepting
