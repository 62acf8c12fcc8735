import TransportProxy.Server.Routing

/-! # Entries that the server loses

The drain takes an entry out of the send queue and calls picoquic for it once, whatever the call
returns. An entry whose call fails is lost. Nobody is told: the drain goes on with the next entry,
and the writer is woken. `FailsForGood` is the condition that nothing else of the stream is affected
by that, because no call succeeds any more and the writer finds the stream closed.
-/
namespace TransportProxy.Slipstream
open Foundations
set_option autoImplicit false

/-- A call for stream `j` that did not return zero. -/
def ServerObs.failed (j : ℕ) : ServerObs → Bool
  | .add i _ _ _ _ ret => i == j && ret != 0
  | _ => false

namespace Server
variable {j : ℕ}

/-- A call for stream `j` has failed. -/
def Failed (j : ℕ) (tr : List ServerObs) : Prop := ∃ c ∈ calls j tr, c.2 = false

instance Failed.decidable (j : ℕ) (tr : List ServerObs) : Decidable (Failed j tr) :=
  inferInstanceAs (Decidable (∃ _ ∈ _, _))

/-- A call for stream `j` has failed, and the callback that made it has returned. -/
def FailedBefore (j : ℕ) (tr : List ServerObs) : Prop :=
  ServerObs.returned 0 ∈ tr.dropWhile fun o => !o.failed j

instance FailedBefore.decidable (j : ℕ) (tr : List ServerObs) : Decidable (FailedBefore j tr) :=
  inferInstanceAs (Decidable (_ ∈ _))

/-- After a call for stream `j` has failed no other call for it returns zero, and its writer begins
no poll once that callback has returned, unless the receiving end of its queue is gone. -/
def FailsForGood (j : ℕ) (s : Server) (tr : List ServerObs) : ServerEvent → Prop
  | .resume ret => s.Hands j → Failed j tr → ret ≠ 0
  | .app i (.pollWrite _) => i = j → FailedBefore j tr → (s.stream j).sendQ.receiver = false
  | _ => True

instance FailsForGood.decidable (j : ℕ) (s : Server) (tr : List ServerObs) (e : ServerEvent) :
    Decidable (s.FailsForGood j tr e) := by
  unfold FailsForGood
  split <;> infer_instance

/-- No entry is handed over after one whose call failed, and once that callback has returned every
poll of the writer gets an error. -/
structure NoSilentLoss (j : ℕ) (es : List ServerEvent) (tr : List ServerObs) : Prop where
  order : (calls j tr).Pairwise fun c d => c.2 = false → d.2 = false
  told : ∀ es₁ buf es₂ m tr₁, es = es₁ ++ .app j (.pollWrite buf) :: es₂ →
    machine.run init es₁ = some (m, tr₁) → FailedBefore j tr₁ →
    ∃ m', machine.step m (.app j (.pollWrite buf)) =
      some (m', [.bridge j (.writeError .brokenPipe)])

/-- A poll of a writer gets its error at once if and only if the receiving end is gone. -/
theorem pollWrite_error_iff {s s' : Server} {buf : Bytes} {out : List ServerObs}
    (hs : machine.step s (.app j (.pollWrite buf)) = some (s', out)) :
    out = [.bridge j (.writeError .brokenPipe)] ↔ (s.stream j).sendQ.receiver = false := by
  cases step_cases hs with
  | @app _ _ b b' bout hb ha h =>
    obtain ⟨hg, -⟩ := getD_of_getElem? hb
    rw [stream, hg]
    cases Bridge.app_cases h with
    | writeClosed hw hr => simp [hr]
    | wrote hw hr | writeFull hw hr => simp [hr]

/-- Entries pass to picoquic once each, on their own stream. None is lost silently if and only if a
failed call is the last that matters: no later call succeeds, and the writer finds the stream
closed. -/
theorem no_silent_loss_iff {es : List ServerEvent} {s : Server} {tr : List ServerObs} {j : ℕ}
    (hr : machine.run init es = some (s, tr)) :
    popped (bridgeTrace j tr) = (calls j tr).map Prod.fst ∧ AddsOwn j tr ∧
      (NoSilentLoss j es tr ↔ machine.AlongTrace (FailsForGood j) init [] es) := by
  refine ⟨popped_run hr j, addsOwn_run hr j, fun h => ?_, fun h => ⟨?_, ?_⟩⟩
  · rw [Machine.alongTrace_iff hr]
    rintro es₁ e es₂ m tr₁ rfl h₁
    obtain ⟨m', out, tr₂, hs, h₂, rfl⟩ := Machine.run_split hr h₁
    rw [List.nil_append]
    cases e with
    | resume ret =>
      rintro hh ⟨c, hc, hf⟩ h0
      obtain ⟨ret', v, he, -, hcalls⟩ | ⟨-, hn⟩ := (step_cases hs).calls_iff j
      · obtain rfl := ServerEvent.resume.inj he
        have hord := h.order
        rw [calls_append, calls_append, hcalls] at hord
        have hd := (List.pairwise_append.mp hord).2.2 c hc (v, ret == 0) (by simp) hf
        simp [h0] at hd
      · exact hn ⟨ret, rfl, hh⟩
    | app i op =>
      cases op with
      | pollWrite buf =>
        rintro rfl hb
        obtain ⟨n, hn⟩ := h.told es₁ buf es₂ m tr₁ rfl h₁ hb
        exact (pollWrite_error_iff hn).mp rfl
      | _ => trivial
    | accept | stream | loop => trivial
  · refine Machine.run_along_trace (fun (_ : Server) tr =>
      (calls j tr).Pairwise fun c d => c.2 = false → d.2 = false) ?_ hr h List.Pairwise.nil
    intro s tr e s' out hi hk hs
    rw [calls_append]
    obtain ⟨ret, v, rfl, hh, hcalls⟩ | ⟨hcalls, -⟩ := (step_cases hs).calls_iff j
    · rw [hcalls]
      refine List.pairwise_append.mpr ⟨hi, List.pairwise_singleton _ _, fun c hc d hd hf => ?_⟩
      rw [List.mem_singleton] at hd
      rw [hd]
      simpa using hk hh ⟨c, hc, hf⟩
    · rwa [hcalls, List.append_nil]
  · rintro es₁ buf es₂ m tr₁ rfl h₁ hb
    obtain ⟨m', out, tr₂, hs, -, -⟩ := Machine.run_split hr h₁
    have hg := (Machine.alongTrace_iff hr).mp h es₁ _ es₂ m tr₁ rfl h₁
    have hout := (pollWrite_error_iff hs).mpr (hg rfl hb)
    exact ⟨m', by rw [hs, hout]⟩

/-- A call fails, and the connection is closed before the handler writes again. -/
def failThenClose : List ServerEvent :=
  [.stream ⟨1, 0, none, .ready⟩, .stream ⟨1, 4, some [7], .streamData⟩, .resume 0, .accept,
    .app 0 (.pollWrite [1]), .loop 3 .null [1], .resume (-1), .resume 0, .resume 0, .resume 0,
    .stream ⟨1, 0, none, .close⟩, .resume 0, .resume 0, .app 0 (.pollWrite [2])]

theorem no_silent_loss_iff_failThenClose : ∃ s tr,
    machine.run init failThenClose = some (s, tr) ∧ calls 0 tr = [([1], false)] ∧
      NoSilentLoss 0 failThenClose tr := by
  obtain ⟨s, tr, hr, hc⟩ : ∃ s tr, machine.run init failThenClose = some (s, tr) ∧
      calls 0 tr = [([1], false)] := ⟨_, _, rfl, rfl⟩
  exact ⟨s, tr, hr, hc, (no_silent_loss_iff hr).2.2.mpr (by decide)⟩

/-- The first of two entries fails, the second does not, and then the handler writes a third. -/
def failThenSend : List ServerEvent :=
  [.stream ⟨1, 0, none, .ready⟩, .stream ⟨1, 4, some [7], .streamData⟩, .resume 0, .accept,
    .app 0 (.pollWrite [1]), .app 0 (.pollWrite [2]), .loop 3 .null [1], .resume (-1), .resume 0,
    .resume 0, .resume 0, .resume 0, .resume 0, .app 0 (.pollWrite [3])]

theorem failThenSend_loses_entry : ∃ s tr, machine.run init failThenSend = some (s, tr) ∧
    calls 0 tr = [([1], false), ([2], true)] ∧ FailedBefore 0 tr ∧
      .bridge 0 (.wrote 1) ∈ tr.dropWhile (fun o => !o.failed 0) ∧
      ¬ NoSilentLoss 0 failThenSend tr := by
  refine ⟨_, _, rfl, by decide, by decide, by decide, ?_⟩
  intro h
  have hcalls := h.order
  revert hcalls
  decide

end Server
end TransportProxy.Slipstream
