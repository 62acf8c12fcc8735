import TransportProxy.Client.Steps
import TransportProxy.Server.Steps

/-! # What a TIME_CHECK does to the wait of the packet loop

Both callbacks cap `delta_t`, and the server does nothing else. The client goes on to overwrite it:
with 0 when it wants to close, and with 500 when there is something to send. The second is meant to
make the loop wake soon, and raises every smaller value.
-/
namespace TransportProxy.Slipstream
open Foundations
set_option autoImplicit false

@[simp] def ClientObs.delta? : ClientObs → Option ℤ
  | .deltaT d => some d
  | _ => none

@[simp] def ServerObs.delta? : ServerObs → Option ℤ
  | .deltaT d => some d
  | _ => none

/-- The wait `d'` that is left of the wait `d` that was asked for. -/
structure NoDelay (d d' : ℤ) : Prop where
  le : d' ≤ d
  capped : d' ≤ 1000
  nonneg : 0 ≤ d'

theorem NoDelay.cap {d : ℤ} (hd : 0 ≤ d) : NoDelay d (capDeltaT d) := by
  unfold capDeltaT
  split <;> constructor <;> omega

namespace Client

/-- The values that a TIME_CHECK leaves in `delta_t`. -/
def deltas (tr : List ClientObs) : List ℤ := tr.filterMap ClientObs.delta?

@[simp] theorem deltas_nil : deltas [] = [] := rfl

@[simp] theorem deltas_cons (o : ClientObs) (t : List ClientObs) :
    deltas (o :: t) = o.delta?.toList ++ deltas t := filterMap_cons_toList ..

@[simp] theorem deltas_append (t u : List ClientObs) : deltas (t ++ u) = deltas t ++ deltas u :=
  List.filterMap_append ..

@[simp] theorem deltas_map_bridge (t : List BridgeObs) : deltas (t.map .bridge) = [] :=
  filterMap_map_none (fun _ => rfl) t

/-- The second half of a TIME_CHECK that starts here comes upon an entry. -/
def FindsData (s : Client) : Prop :=
  s.ctx.shouldClose = false ∧ s.streamReady = true ∧
    (s.ctx.peekBuf.isSome = true ∨ s.bridge.sendQ.buf ≠ [])

/-- A TIME_CHECK that starts here is not to close and comes upon an entry; `written` is what the
task puts into the send queue before the callback looks there. -/
def HasData (s : Client) (written : List Bytes) : Prop :=
  s.ctx.shouldClose = false ∧ s.bridge.recvQ.isClosed = false ∧ s.streamReady = true ∧
    (s.ctx.peekBuf.isSome = true ∨ s.bridge.sendQ.buf ++ written ≠ [])

instance HasData.decidable (s : Client) (written : List Bytes) : Decidable (s.HasData written) :=
  inferInstanceAs (Decidable (_ ∧ _ ∧ _ ∧ _))

/-- The second half of a TIME_CHECK leaves 500 if it finds data, and else 0 or what it was given. -/
theorem timeCheckRest_delta (s : Client) (c : ℤ) :
    ∃ d', deltas (s.timeCheckRest (some c)).2 = [d'] ∧
      ((s.timeCheckRest (some c)).1.ctx.shouldClose = true → d' = 0) ∧
      (d' = 500 ∧ s.FindsData ∨ (d' = 0 ∨ d' = c) ∧ ¬ s.FindsData) := by
  -- what the first half of the callback, or `try_recv`, has made of the flag and the buffer
  have hdelta (r : Client × List ClientObs) (hr : deltas r.2 = [])
      (hfinds : r.1.ctx.shouldClose = false ∧ (r.1.streamReady && r.1.ctx.peekBuf.isSome) = true ↔
        s.FindsData) :
      ∃ d', deltas (r.2 ++ [.deltaT (r.1.timeCheckDelta c)] ++ [.returned 0]) = [d'] ∧
        (r.1.ctx.shouldClose = true → d' = 0) ∧
        (d' = 500 ∧ s.FindsData ∨ (d' = 0 ∨ d' = c) ∧ ¬ s.FindsData) := by
    refine ⟨r.1.timeCheckDelta c, by simp [hr], ?_, ?_⟩
    · intro hc
      simp [timeCheckDelta, hc]
    · rw [← hfinds]
      unfold timeCheckDelta
      cases r.1.ctx.shouldClose <;> cases r.1.streamReady && r.1.ctx.peekBuf.isSome <;> simp
  unfold timeCheckRest
  cases hready : s.streamReady with
  | false => exact hdelta (s, []) rfl (by simp [FindsData, hready])
  | true =>
    simp only [if_true, peek]
    cases hp : s.ctx.peekBuf with
    | some data => exact hdelta (s, []) rfl (by simp [FindsData, hready, hp])
    | none =>
      obtain ⟨v, rest, hb, h⟩ | ⟨hb, -, h⟩ | ⟨hb, -, h⟩ := s.bridge.sendTryRecv_cases
      · rw [h]
        exact hdelta ({ s with
          bridge := { s.bridge with sendQ := s.bridge.sendQ.pop }
          ctx := { s.ctx with peekBuf := some v } }, [.bridge (.popped v)]) rfl
          (by simp_all [FindsData, streamReady])
      · rw [h]
        exact hdelta (s, []) rfl (by simp [FindsData, hp, hb])
      · rw [h]
        exact hdelta ({ s with ctx := { s.ctx with shouldClose := true } }, []) rfl
          (by simp [FindsData, hp, hb])

/-- The task may poll while the callback is between its two halves. -/
theorem apps_run {s t : Client} {ops : List AppOp} {tr : List ClientObs}
    (hr : machine.run s (ops.map .app) = some (t, tr)) : t.pc = s.pc ∧ t.ctx = s.ctx ∧
      t.bridge.sendQ.buf = s.bridge.sendQ.buf ++ queued (bridgeTrace tr) ∧ deltas tr = [] := by
  induction ops generalizing s tr with
  | nil =>
    simp only [List.map_nil, Machine.run_nil, Option.some.injEq, Prod.mk.injEq] at hr
    obtain ⟨rfl, rfl⟩ := hr
    exact ⟨rfl, rfl, (List.append_nil _).symm, rfl⟩
  | cons op ops ih =>
    obtain ⟨s', out, rest, hs, hr', rfl⟩ := (Machine.run_cons_iff ..).mp hr
    obtain ⟨hpc, hctx, hq, hd⟩ := ih hr'
    have hsend := (step_cases hs).conserves.send
    cases step_cases hs with
    | app h =>
      rw [bridgeTrace_map_bridge, (Bridge.app_cases h).popped, List.nil_append] at hsend
      refine ⟨hpc, hctx, ?_, by simp [hd]⟩
      rw [hq, bridgeTrace_append, queued_append, ← List.append_assoc, bridgeTrace_map_bridge]
      exact congrArg (· ++ _) hsend.symm

/-- Up to its second half the callback has set the flag if the receiver is gone, and the task has
put what it wrote into the send queue. -/
theorem findsData_iff {s m : Client} {d : ℤ} {ops : List AppOp} {tr : List ClientObs}
    (hr : machine.run (s.timeCheck (.timeCheck d)).1 (ops.map .app) = some (m, tr)) :
    m.pc = .timeCheck (some (capDeltaT d)) ∧ deltas tr = [] ∧
      (m.FindsData ↔ s.HasData (queued (bridgeTrace tr))) := by
  obtain ⟨hpc, hctx, hq, hd⟩ := apps_run hr
  refine ⟨hpc, hd, ?_⟩
  have hready : m.streamReady = s.streamReady := by
    rw [streamReady, hctx, timeCheck]
    split <;> rfl
  rw [FindsData, HasData, hready, hq, hctx, timeCheck]
  cases s.bridge.recvQ.isClosed <;> simp

end Client

/-- A TIME_CHECK never delays the packet loop, in the client if and only if the wait that it asks
for is long enough or there is nothing to send; in the server always. -/
theorem timeCheck_no_delay_iff {d : ℤ} (hd : 0 ≤ d) :
    (∀ {s m t : Client} {ret ret' : ℤ} {ops : List AppOp} {tr out : List ClientObs},
      Client.machine.run s
        (.loop picoquicPacketLoopTimeCheck (.timeCheck d) ret :: ops.map .app) = some (m, tr) →
      Client.machine.step m (.resume ret') = some (t, out) →
      ∃ d', Client.deltas (tr ++ out) = [d'] ∧
        (NoDelay d d' ∧ (t.ctx.shouldClose = true → d' = 0) ↔
          500 ≤ d ∨ ¬ s.HasData (queued (Client.bridgeTrace tr)))) ∧
    ∀ {s t : Server} {order : List CnxPtr} {out : List ServerObs},
      Server.machine.step s (.loop picoquicPacketLoopTimeCheck (.timeCheck d) order) =
        some (t, out) →
      ∃ d', out.filterMap ServerObs.delta? = [d'] ∧ NoDelay d d' := by
  constructor
  · intro s m t ret ret' ops tr out hr hs
    obtain ⟨s', out₁, rest, hs₁, hr', rfl⟩ := (Machine.run_cons_iff ..).mp hr
    have hfirst : (s', out₁) = s.timeCheck (.timeCheck d) :=
      (Option.some.inj (Option.ite_none_right_eq_some.mp hs₁).2).symm
    obtain ⟨rfl, rfl⟩ := Prod.mk.inj hfirst
    obtain ⟨hpc, hrest, hdata⟩ := Client.findsData_iff hr'
    have hres : m.timeCheckRest (some (capDeltaT d)) = (t, out) := by
      change m.resume ret' = some (t, out) at hs
      rw [Client.resume, hpc] at hs
      exact Option.some.inj hs
    obtain ⟨d', hd', hclose, h⟩ := m.timeCheckRest_delta (capDeltaT d)
    rw [hres] at hd' hclose
    rw [hdata] at h
    refine ⟨d', by simp [hrest, hd'], ?_⟩
    rw [List.nil_append]
    obtain ⟨rfl, hf⟩ | ⟨hd'', hf⟩ := h
    · constructor
      · exact fun hn => .inl hn.1.le
      · rintro (hle | hn)
        · exact ⟨⟨hle, by decide, by decide⟩, hclose⟩
        · exact absurd hf hn
    · refine iff_of_true ⟨?_, hclose⟩ (.inr hf)
      obtain rfl | rfl := hd''
      · exact ⟨hd, by decide, by decide⟩
      · exact .cap hd
  · intro s t order out hs
    refine ⟨capDeltaT d, ?_, .cap hd⟩
    have hloop : s.loopCallback picoquicPacketLoopTimeCheck (.timeCheck d) order =
        some (t, out) := (Option.ite_none_right_eq_some.mp hs).2
    obtain ⟨-, rfl⟩ := Prod.mk.inj (Option.some.inj hloop)
    rfl

/-- A stream with a chunk to send; and one whose receiver is gone, as a TIME_CHECK has noted. -/
def chunkWaiting : List ClientEvent :=
  [.stream ⟨1, 0, none, .ready⟩ 0 0, .app (.pollWrite [1])]

def receiverGone : List ClientEvent :=
  [.stream ⟨1, 0, none, .ready⟩ 0 0, .app (.pollWrite [1]), .app .dropStream,
    .loop picoquicPacketLoopTimeCheck (.timeCheck 70) 0, .resume 0]

/-- The chunk cuts a wait of 600 to 500, the flag one of 70 to 0, and the server one of 5000 to
1000. -/
theorem timeCheck_no_delay_iff_runs :
    (∃ s tr₀ m tr t out, Client.machine.run Client.init chunkWaiting = some (s, tr₀) ∧
      Client.machine.run s [.loop picoquicPacketLoopTimeCheck (.timeCheck 600) 0] = some (m, tr) ∧
      Client.machine.step m (.resume 0) = some (t, out) ∧ s.HasData [] ∧
      Client.deltas (tr ++ out) = [500] ∧ NoDelay 600 500) ∧
    (∃ s tr₀ m tr t out, Client.machine.run Client.init receiverGone = some (s, tr₀) ∧
      Client.machine.run s [.loop picoquicPacketLoopTimeCheck (.timeCheck 70) 0] = some (m, tr) ∧
      Client.machine.step m (.resume 0) = some (t, out) ∧ s.ctx.shouldClose = true ∧
      Client.deltas (tr ++ out) = [0] ∧ NoDelay 70 0) ∧
    ∃ t out, Server.machine.step Server.init
        (.loop picoquicPacketLoopTimeCheck (.timeCheck 5000) []) = some (t, out) ∧
      out.filterMap ServerObs.delta? = [1000] ∧ NoDelay 5000 1000 := by
  refine ⟨?_, ?_, ?_⟩
  · obtain ⟨s, tr₀, m, tr, t, out, hr₀, hr, hs, hdata, hd⟩ : ∃ s tr₀ m tr t out,
        Client.machine.run Client.init chunkWaiting = some (s, tr₀) ∧
        Client.machine.run s (.loop picoquicPacketLoopTimeCheck (.timeCheck 600) 0 ::
          ([] : List AppOp).map .app) = some (m, tr) ∧
        Client.machine.step m (.resume 0) = some (t, out) ∧ s.HasData [] ∧
        Client.deltas (tr ++ out) = [500] :=
      ⟨_, _, _, _, _, _, rfl, rfl, rfl, by decide, by decide⟩
    obtain ⟨d', hd', hiff⟩ := (timeCheck_no_delay_iff (d := 600) (by decide)).1 hr hs
    obtain rfl : d' = 500 := by simpa [hd] using hd'.symm
    exact ⟨s, tr₀, m, tr, t, out, hr₀, hr, hs, hdata, hd, (hiff.mpr (.inl (by decide))).1⟩
  · obtain ⟨s, tr₀, m, tr, t, out, hr₀, hr, hs, hclose, hnone, hd⟩ : ∃ s tr₀ m tr t out,
        Client.machine.run Client.init receiverGone = some (s, tr₀) ∧
        Client.machine.run s (.loop picoquicPacketLoopTimeCheck (.timeCheck 70) 0 ::
          ([] : List AppOp).map .app) = some (m, tr) ∧
        Client.machine.step m (.resume 0) = some (t, out) ∧ s.ctx.shouldClose = true ∧
        ¬ s.HasData (queued (Client.bridgeTrace tr)) ∧ Client.deltas (tr ++ out) = [0] :=
      ⟨_, _, _, _, _, _, rfl, rfl, rfl, rfl, by decide, by decide⟩
    obtain ⟨d', hd', hiff⟩ := (timeCheck_no_delay_iff (d := 70) (by decide)).1 hr hs
    obtain rfl : d' = 0 := by simpa [hd] using hd'.symm
    exact ⟨s, tr₀, m, tr, t, out, hr₀, hr, hs, hclose, hd, (hiff.mpr (.inr hnone)).1⟩
  · have hstep : Server.machine.step Server.init
        (.loop picoquicPacketLoopTimeCheck (.timeCheck 5000) []) = some (_, _) := rfl
    obtain ⟨d', hd', hn⟩ := (timeCheck_no_delay_iff (d := 5000) (by decide)).2 hstep
    obtain rfl : 1000 = d' := List.singleton_inj.mp hd'
    exact ⟨_, _, rfl, hd', hn⟩

/-- A chunk to send, and a packet loop that wants to wake after 70 microseconds. -/
def dueSoon : List ClientEvent :=
  [.stream ⟨1, 0, none, .ready⟩ 0 0, .app (.pollWrite [1]),
    .loop picoquicPacketLoopTimeCheck (.timeCheck 70) 0, .resume 0]

theorem dueSoon_delayed : ∃ s tr, Client.machine.run Client.init dueSoon = some (s, tr) ∧
    s.bridge.owner = .held ∧ Client.deltas tr = [500] ∧ ¬ NoDelay 70 500 :=
  ⟨_, _, rfl, rfl, by decide, fun h => absurd h.le (by decide)⟩

end TransportProxy.Slipstream
