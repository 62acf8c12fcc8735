import TransportProxy.Accepting.Loop

/-! # The KCP server after the shutdown signal

Once the signal has been sent, the next select that polls it leaves the loop, so a handler that is
spawned leads to a select and from there out; so does a bind that succeeds. A bind that fails leads
to the next attempt: the signal is not looked at between them.
-/
namespace TransportProxy.Accepting
open Foundations
set_option autoImplicit false

/-- The places from which a signalled loop goes nowhere but out. -/
def AcceptPc.Leaving (pc : AcceptPc) : Prop := pc = .select ∨ pc = .left

namespace AcceptLoop
variable {n : ℕ} {l : AcceptLoop} {s s' : Acceptor n} {e : LoopEvent} {out : List LoopObs}

theorem Step.signalled (h : Step l s e s' out) (hs : s.signalled = true) :
    s'.signalled = true := by
  cases h <;> first | exact hs | rfl

theorem Step.leaving (h : Step l s e s' out) (hs : s.signalled = true) (hl : s.pc.Leaving) :
    (.bind ∉ out ∧ .spawned ∉ out) ∧ s'.pc.Leaving := by
  have hnot {pc : AcceptPc} (hp : s.pc = pc) (h₁ : pc ≠ .select) (h₂ : pc ≠ .left) : False := by
    rw [AcceptPc.Leaving, hp] at hl
    exact hl.elim h₁ h₂
  cases h with
  | signal | handlerDone | closeSemaphore => exact ⟨by simp, hl⟩
  | leave => exact ⟨by simp, .inr rfl⟩
  | poll hp hf =>
    rw [hs] at hf
    cases hf
  | bind hp | bound hp | bindFailed hp | pending hp | accepted hp | acceptedUnlimited hp
  | acceptFailed hp | acquired hp | acquireFailed hp => exact (hnot hp (by simp) (by simp)).elim
  | slept hp => obtain hp | hp := hp <;> exact (hnot hp (by simp) (by simp)).elim

/-- A handler is spawned once, and the loop is back at the select. -/
theorem Step.spawned (h : Step l s e s' out) (ho : .spawned ∈ out) :
    out.count .spawned ≤ 1 ∧ s'.pc.Leaving := by
  cases h with
  | acceptedUnlimited | acquired => exact ⟨Nat.le_refl 1, .inl rfl⟩
  | acceptFailed => split at ho <;> simp at ho
  | _ => simp at ho

theorem Step.attempted (h : Step l s e s' out) (ho : .bind ∈ out) :
    out.count .bind ≤ 1 ∧ s'.pc = .binding := by
  cases h with
  | bind => exact ⟨Nat.le_refl 1, rfl⟩
  | acceptFailed => split at ho <;> simp at ho
  | _ => simp at ho

/-- A bind in progress ends, and its success leads to the select. -/
theorem Step.binding (h : Step l s e s' out) (hp : s.pc = .binding) (hb : e ≠ .bound false) :
    .bind ∉ out ∧ (s'.pc = .binding ∨ s'.pc.Leaving) := by
  cases h with
  | signal | handlerDone | closeSemaphore => exact ⟨by simp, .inl hp⟩
  | bound => exact ⟨by simp, .inr (.inl rfl)⟩
  | bindFailed => exact absurd rfl hb
  | bind hp' | leave hp' | poll hp' | pending hp' | accepted hp' | acceptedUnlimited hp'
  | acceptFailed hp' | acquired hp' | acquireFailed hp' =>
    exact absurd (hp.symm.trans hp') (by simp)
  | slept hp' => obtain hp' | hp' := hp' <;> exact absurd (hp.symm.trans hp') (by simp)

/-- No bind that is attempted in the course of `es` fails. -/
def BindsHold (l : AcceptLoop) (s : Acceptor n) (es : List LoopEvent) : Prop :=
  (l.machine n).AlongTrace (fun _ tr e => .bind ∈ tr → e ≠ .bound false) s [] es

instance BindsHold.decidable (l : AcceptLoop) (s : Acceptor n) (es : List LoopEvent) :
    Decidable (l.BindsHold s es) :=
  inferInstanceAs (Decidable ((l.machine n).AlongTrace _ s [] es))

variable {t : Acceptor n} {es : List LoopEvent} {tr : List LoopObs}

theorem spawns_after_signal (hr : (l.machine n).run s es = some (t, tr))
    (hs : s.signalled = true) : tr.count .spawned ≤ 1 := by
  apply Machine.run_once (G := fun _ _ _ => True) (I := fun s => s.signalled = true)
    (P := fun s => s.pc.Leaving) ?_ ?_ ?_ hr ?_ hs
  · intro s e s' out hs h
    exact (step_cases h).signalled hs
  · intro s tr e s' out hs hl _ _ h
    have hstep := (step_cases h).leaving hs hl
    exact ⟨hstep.1.2, hstep.2⟩
  · intro s e s' out _ h ho
    exact (step_cases h).spawned ho
  · exact (Machine.alongTrace_iff hr).mpr fun _ _ _ _ _ _ _ => trivial

theorem binds_after_signal (hr : (l.machine n).run s es = some (t, tr))
    (hs : s.signalled = true) (hb : l.BindsHold s es) : tr.count .bind ≤ 1 := by
  apply Machine.run_once (I := fun s => s.signalled = true)
    (P := fun s => s.pc = .binding ∨ s.pc.Leaving) ?_ ?_ ?_ hr hb hs
  · intro s e s' out hs h
    exact (step_cases h).signalled hs
  · intro s tr e s' out hs hp hm hg h
    obtain hp | hl := hp
    · exact (step_cases h).binding hp (hg hm)
    · have hstep := (step_cases h).leaving hs hl
      exact ⟨hstep.1.1, .inr hstep.2⟩
  · intro s e s' out _ h ho
    have hstep := (step_cases h).attempted ho
    exact ⟨hstep.1, .inl hstep.2⟩

end AcceptLoop

/-! ## How far the exit is -/

/-- The steps that a signalled `run_kcp_tokio_server` may still take, with or without a bind attempt
behind it. -/
def AcceptPc.stepsLeft (attempted : Bool) : AcceptPc → ℕ
  | .left => 0
  | .select => 1
  | .permit => 2
  | .bind => 3
  | .retrySleep | .rebindSleep => 4
  | .binding => if attempted then 2 else 5
  | .accept => 5

namespace AcceptLoop
variable {n : ℕ} {l : AcceptLoop} {s s' t : Acceptor n} {e : LoopEvent} {es : List LoopEvent}
  {out tr : List LoopObs}

theorem stepsLeft_le (attempted : Bool) (pc : AcceptPc) : pc.stepsLeft attempted ≤ 5 := by
  cases pc <;> simp only [AcceptPc.stepsLeft] <;> try omega
  split <;> omega

/-- What others do does not move the loop. -/
theorem Step.pc_of_not_own (h : Step l s e s' out) (he : e.own = false) :
    s'.pc = s.pc ∧ out = [] := by
  cases h with
  | signal | handlerDone | closeSemaphore => exact ⟨rfl, rfl⟩
  | _ => cases he

theorem Step.stepsLeft (h : Step runKcpTokioServer s e s' out) (hs : s.signalled = true)
    (he : e.own = true) {a : Bool}
    (ha : a = true → (s.pc = .binding ∨ s.pc.Leaving) ∧ e ≠ .bound false) :
    s'.pc.stepsLeft (a || decide (.bind ∈ out)) + 1 ≤ s.pc.stepsLeft a := by
  cases h with
  | signal | handlerDone | closeSemaphore => cases he
  | bind hp =>
    have hfresh : a = false := by
      apply Bool.eq_false_iff.mpr
      intro hat
      obtain ⟨hb | hb | hb, -⟩ := ha hat <;> rw [hp] at hb <;> cases hb
    simp [AcceptPc.stepsLeft, hp, hfresh]
  | bound hp =>
    simp only [AcceptPc.stepsLeft, hp]
    split <;> omega
  | bindFailed hp =>
    have hfresh : a = false := by
      apply Bool.eq_false_iff.mpr
      intro hat
      exact (ha hat).2 rfl
    simp [AcceptPc.stepsLeft, hp, hfresh]
  | slept hp => obtain hp | hp := hp <;> simp [AcceptPc.stepsLeft, hp]
  | poll hp hf =>
    rw [hs] at hf
    cases hf
  | @acceptFailed r pc hp hr =>
    have hpc : pc = .rebindSleep := by
      cases r with
      | error | timedOut => exact (Option.some.inj hr).symm
      | closed => cases hr
    simp [AcceptPc.stepsLeft, hp, hpc]
  | leave hp | pending hp | accepted hp | acceptedUnlimited hp | acquired hp
  | acquireFailed hp => simp [AcceptPc.stepsLeft, hp]

/-- As long as binds hold, a signalled loop takes at most five more steps. -/
theorem steps_after_signal (hr : (runKcpTokioServer.machine n).run s es = some (t, tr))
    (hs : s.signalled = true) (hb : runKcpTokioServer.BindsHold s es) :
    es.countP LoopEvent.own ≤ 5 := by
  have h := Machine.run_along_events (fun (s : Acceptor n) es tr => s.signalled = true ∧
    (.bind ∈ tr → s.pc = .binding ∨ s.pc.Leaving) ∧
    es.countP LoopEvent.own + s.pc.stepsLeft (decide (.bind ∈ tr)) ≤ 5) ?_ [] hr hb
    ⟨hs, fun h => absurd h List.not_mem_nil, ?_⟩
  · have hle := h.2.2
    rw [List.nil_append] at hle
    omega
  · rintro s es tr e s' out ⟨hs, hp, hle⟩ hg h
    have hstep := step_cases h
    refine ⟨hstep.signalled hs, fun hm => ?_, ?_⟩
    · by_cases hat : .bind ∈ tr
      · obtain hp | hl := hp hat
        · exact (hstep.binding hp (hg hat)).2
        · exact .inr (hstep.leaving hs hl).2
      · exact .inl (hstep.attempted ((List.mem_append.mp hm).resolve_left hat)).2
    · rw [List.countP_append, List.countP_singleton]
      cases he : e.own with
      | false =>
        obtain ⟨hpc, rfl⟩ := hstep.pc_of_not_own he
        rw [hpc, List.append_nil]
        simpa using hle
      | true =>
        have hlt := hstep.stepsLeft hs he (a := decide (.bind ∈ tr)) fun hat =>
          ⟨hp (of_decide_eq_true hat), hg (of_decide_eq_true hat)⟩
        have hmem : decide (.bind ∈ tr ++ out) = (decide (.bind ∈ tr) || decide (.bind ∈ out)) := by
          simp [List.mem_append]
        rw [hmem, if_pos rfl]
        omega
  · rw [List.countP_nil, Nat.zero_add]
    exact stepsLeft_le _ _

end AcceptLoop

/-! ## The bound -/

/-- After the signal, `run_kcp_tokio_server` attempts at most one more bind and spawns at most one
more handler, and is out after five more steps, provided that no bind it still attempts fails. -/
theorem kcp_honours_shutdown {n : ℕ} (before after : List LoopEvent) {s t : Acceptor n}
    {tr tr' : List LoopObs}
    (hr : (runKcpTokioServer.machine n).run (runKcpTokioServer.init n) (before ++ [.signal]) =
      some (s, tr))
    (ha : (runKcpTokioServer.machine n).run s after = some (t, tr'))
    (hb : runKcpTokioServer.BindsHold s after) :
    tr'.count .bind ≤ 1 ∧ tr'.count .spawned ≤ 1 ∧ after.countP LoopEvent.own ≤ 5 := by
  obtain ⟨m, tr₁, tr₂, -, hm, rfl⟩ := (Machine.run_append_iff ..).mp hr
  have hsig := (Machine.run_single_iff ..).mp hm
  have hs : s.signalled = true := by
    rw [← (Prod.mk.inj (Option.some.inj hsig)).1]
  refine ⟨?_, ?_, ?_⟩
  · exact AcceptLoop.binds_after_signal ha hs hb
  · exact AcceptLoop.spawns_after_signal ha hs
  · exact AcceptLoop.steps_after_signal ha hs hb

/-- The signal comes during the sleep after a failed bind, and the next attempt succeeds. -/
theorem kcp_honours_shutdown_retrySleep :
    ([.bind, .left] : List LoopObs).count .bind ≤ 1 ∧
      ([.bind, .left] : List LoopObs).count .spawned ≤ 1 ∧
      ([.slept, .bind, .bound true, .poll] : List LoopEvent).countP LoopEvent.own ≤ 5 :=
  kcp_honours_shutdown (n := 1) [.bind, .bound false] [.slept, .bind, .bound true, .poll]
    rfl rfl (by decide)

/-- The signal comes during the sleep after a failed bind, and the address stays in use. -/
theorem failingBinds_outlast_signal :
    ∃ (before after : List LoopEvent) (s t : Acceptor 1) (tr tr' : List LoopObs),
      (runKcpTokioServer.machine 1).run (runKcpTokioServer.init 1) (before ++ [.signal]) =
        some (s, tr) ∧
      (runKcpTokioServer.machine 1).run s after = some (t, tr') ∧
      ¬ (tr'.count .bind ≤ 1 ∧ tr'.count .spawned ≤ 1) :=
  ⟨[.bind, .bound false], [.slept, .bind, .bound false, .slept, .bind], _, _, _, _, rfl, rfl,
    by decide⟩

end TransportProxy.Accepting
