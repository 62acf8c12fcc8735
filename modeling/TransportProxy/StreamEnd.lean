import TransportProxy.ReceivePath

/-! # The end of a stream

The peer ends the stream (stream_fin, stream_reset) or the connection. The client answers each of
these events with a marker in the receive queue, where it competes with the data for a slot; the
server answers stream_fin with a marker and the end of the connection with the drop of its sender,
and does not answer stream_reset.
-/
namespace TransportProxy.Slipstream
open Foundations
set_option autoImplicit false

/-- The peer has ended the stream or the connection. -/
def PicoquicCallBackEvent.ends : PicoquicCallBackEvent → Bool
  | .streamFin | .streamReset => true
  | e => e.closes

/-- The client answers each of these events with a marker. -/
theorem Client.Step.end_marker {s s' : Client} {cb : StreamCallback} {nextId : UInt64}
    {markRet : ℤ} {out : List ClientObs} (h : Client.Step s (.stream cb nextId markRet) s' out)
    (he : cb.event.ends = true) :
    s'.bridge = (s.bridge.recvTrySend []).1 ∧ reads (bridgeTrace out) = [] := by
  have hp : cb.clientPush = some [] := by
    cases hc : cb.event <;>
      simp [hc, PicoquicCallBackEvent.ends, PicoquicCallBackEvent.closes] at he <;>
      simp [StreamCallback.clientPush, hc]
  cases h with
  | readyFailed _ hr | ready _ hr =>
    rw [hr] at he
    cases he
  | ignored _ hv =>
    rw [hp] at hv
    cases hv
  | chunk _ hv =>
    rw [hp] at hv
    obtain rfl := Option.some.inj hv
    exact ⟨rfl, by simpa [Bridge.loop] using (s.bridge.loop_step (.recvTrySend [])).reads⟩

/-- What an event that ends stream `j` does on the server. -/
theorem Server.Step.end_marker {s s' : Server} {cb : StreamCallback} {j : ℕ}
    {out : List ServerObs} (h : Server.Step s (.stream cb) s' out) (hl : Server.Linked s)
    (he : cb.event.ends = true) (hj : s.ownStream cb = some j) :
    reads (bridgeTrace j out) = [] ∧
      ((cb.event = .streamFin ∧ s'.stream j = ((s.stream j).recvTrySend []).1) ∨
        (cb.event.closes = true ∧ s'.stream j = (s.stream j).dropRecvTx) ∨
        (cb.event = .streamReset ∧ s'.stream j = s.stream j)) := by
  have hcases : cb.event = .streamFin ∨ cb.event = .streamReset ∨ cb.event.closes = true := by
    cases hc : cb.event <;>
      simp [hc, PicoquicCallBackEvent.ends, PicoquicCallBackEvent.closes] at he <;>
      simp [PicoquicCallBackEvent.closes]
  have hnd : cb.event ≠ .streamData := by
    intro hc
    rw [hc] at he
    cases he
  have hno : s.opened cb = none := by simp [opened, hnd]
  cases h with
  | openEmpty _ ho | openChunk _ ho =>
    rw [hno] at ho
    cases ho
  | unlink hp hc hn =>
    exfalso
    unfold ownStream at hj
    unfold streamOf at hn
    cases hl : s.connections.lookup cb.cnx with
    | none => simp [hl] at hj
    | some state =>
      rw [hl] at hn
      have hst : state.stream = none := hn
      simp [hl, hst, hnd] at hj
  | @unlinkStream cb conns st hp hc hst =>
    have hcl : cb.event.closes = true := by
      unfold unlinked at hc
      split at hc
      · rename_i hr
        rw [hr] at he
        cases he
      · split at hc
        · assumption
        · cases hc
    have hij : st.index = j := by
      obtain ⟨state, hlk, hs⟩ := streamOf_lookup hst
      simpa [ownStream, hlk, hs, hcl] using hj
    subst hij
    obtain ⟨h₁, h₂⟩ := loopAt_self (l := s.streams) .dropRecvTx (hl.lt hst)
    refine ⟨by simp [h₂, Bridge.loop], .inr (.inl ⟨hcl, ?_⟩)⟩
    exact h₁
  | @push cb i v hp hv =>
    obtain ⟨hown, hsv⟩ := own_of_pushed hv
    obtain ⟨-, -, -, -, hlt⟩ := hl.pushed_lt hv
    rw [hj] at hown
    obtain rfl := Option.some.inj hown
    obtain ⟨h₁, h₂⟩ := loopAt_self (l := s.streams) (.recvTrySend v) hlt
    have hfin : cb.event = .streamFin ∧ v = [] := by
      obtain hf | hf | hf := hcases
      · simp only [StreamCallback.serverPush, hf, Option.some.injEq] at hsv
        exact ⟨hf, hsv.symm⟩
      · simp [StreamCallback.serverPush, hf] at hsv
      · cases hc : cb.event <;> simp [hc, PicoquicCallBackEvent.closes] at hf <;>
          simp [StreamCallback.serverPush, hc] at hsv
    obtain ⟨hf, rfl⟩ := hfin
    refine ⟨?_, .inl ⟨hf, h₁⟩⟩
    have hr := ((s.streams.getD j .new).loop_step (.recvTrySend [])).reads
    rw [← h₂] at hr
    simpa using hr
  | ignored hp hu ho hv =>
    have hn := serverPush_of_ignored ho hv hj
    refine ⟨by simp, .inr (.inr ⟨?_, rfl⟩)⟩
    obtain hf | hf | hf := hcases
    · simp [StreamCallback.serverPush, hf] at hn
    · exact hf
    · unfold unlinked at hu
      split at hu
      · cases hu
      · simp at hu

/-- From the event on, the end is ahead or read in every state, or in none. -/
theorem Client.endSeen_forever {s : Client} {tr : List ClientObs} :
    (∀ {fs t tr'}, Client.machine.run s fs = some (t, tr') →
        Client.machine.Along (fun _ e => e.RealRead) s fs →
        t.bridge.EndSeen (bridgeTrace (tr ++ tr'))) ↔ s.bridge.EndSeen (bridgeTrace tr) := by
  constructor
  · intro h
    have h₀ := @h [] s [] rfl trivial
    simpa using h₀
  · intro h fs t tr' hr _
    obtain ⟨ops, hops⟩ := Client.bridgeProjection.run hr
    rw [bridgeTrace_append]
    exact h.run hops

theorem Server.endSeen_forever {s : Server} {tr : List ServerObs} {j : ℕ} :
    (∀ {fs t tr'}, Server.machine.run s fs = some (t, tr') →
        Server.machine.Along (fun _ e => e.RealRead j) s fs →
        (t.stream j).EndSeen (bridgeTrace j (tr ++ tr'))) ↔
      (s.stream j).EndSeen (bridgeTrace j tr) := by
  constructor
  · intro h
    have h₀ := @h [] s [] rfl trivial
    simpa using h₀
  · intro h fs t tr' hr _
    obtain ⟨ops, hops⟩ := (Server.bridgeProjection j).run hr
    rw [bridgeTrace_append]
    exact h.run hops

/-- Whether the reader learns of the end is decided by the event that brings it: the end reaches the
reader in every later state if and only if the marker found room, the event dropped the sender, or
the reader had an end already. A reader with an end ahead gets it after what is queued before it. -/
theorem end_reaches_reader (j : ℕ) :
    (∀ {es s tr cb nextId markRet s' out}, Client.machine.run Client.init es = some (s, tr) →
      Client.machine.Along (fun _ e => e.RealRead) Client.init es → cb.event.ends = true →
      Client.machine.step s (.stream cb nextId markRet) = some (s', out) →
      ((∀ {fs t tr'}, Client.machine.run s' fs = some (t, tr') →
          Client.machine.Along (fun _ e => e.RealRead) s' fs →
          t.bridge.EndSeen (Client.bridgeTrace (tr ++ out ++ tr'))) ↔
        (s.bridge.owner = .held → s.bridge.recvQ.buf.length < recvCapacity ∨ s.bridge.EndAhead ∨
          [] ∈ reads (Client.bridgeTrace tr)))) ∧
    (∀ {es s tr cb s' out}, Server.machine.run Server.init es = some (s, tr) →
      Server.machine.Along (fun _ e => e.RealRead j) Server.init es → cb.event.ends = true →
      s.ownStream cb = some j → Server.machine.step s (.stream cb) = some (s', out) →
      ((∀ {fs t tr'}, Server.machine.run s' fs = some (t, tr') →
          Server.machine.Along (fun _ e => e.RealRead j) s' fs →
          (t.stream j).EndSeen (Server.bridgeTrace j (tr ++ out ++ tr'))) ↔
        ((s.stream j).owner = .held →
          cb.event = .streamFin ∧ (s.stream j).recvQ.buf.length < recvCapacity ∨
          cb.event.closes = true ∨ (s.stream j).EndAhead ∨
          [] ∈ reads (Server.bridgeTrace j tr)))) ∧
    ∀ {b : Bridge} {ns : List ℕ}, b.EndAhead → b.owner = .held → (∀ n ∈ ns, 0 < n) →
      (symbolsBeforeEnd b.toRead).length < ns.length →
      ∃ b' tr, Bridge.machine.run b (ns.map fun n => .app (.pollRead n)) = some (b', tr) ∧
        [] ∈ reads tr ∧ beforeEnd (reads tr) = symbolsBeforeEnd b.toRead := by
  refine ⟨?_, ?_, fun ha ho hn hl => ha.drain ho hn hl⟩
  · intro es s tr cb nextId markRet s' out hr _ he hs
    obtain ⟨hb, hn⟩ := (Client.step_cases hs).end_marker he
    rw [Client.endSeen_forever, Client.bridgeTrace_append, hb]
    exact Bridge.endSeen_push (Client.owned_run hr) hn
  · intro es s tr cb s' out hr _ he hj hs
    obtain ⟨hn, hcases⟩ := (Server.step_cases hs).end_marker (Server.linked_run hr) he hj
    rw [Server.endSeen_forever, Server.bridgeTrace_append]
    obtain ⟨hf, hb⟩ | ⟨hc, hb⟩ | ⟨hf, hb⟩ := hcases
    · rw [hb, Bridge.endSeen_push (Server.owned_run hr j) hn]
      simp [hf, PicoquicCallBackEvent.closes]
    · rw [hb]
      exact ⟨fun _ _ => .inr (.inl hc), fun _ _ => .inl (.inr rfl)⟩
    · simp [hb, hf, hn, Bridge.EndSeen, PicoquicCallBackEvent.closes]

/-- A stream_fin that finds room, seen from a later state. -/
def finWithRoom : List ClientEvent :=
  [.stream ⟨1, 0, none, .ready⟩ 0 0, .stream ⟨1, 0, some [1], .streamData⟩ 0 0]

/-- And one on the server. -/
def finOnServer : List ServerEvent :=
  [.stream ⟨1, 0, none, .ready⟩, .stream ⟨1, 0, some [1], .streamData⟩, .accept, .resume 0]

theorem end_reaches_reader_finWithRoom :
    (∃ s tr s' out t tr', Client.machine.run Client.init finWithRoom = some (s, tr) ∧
      Client.machine.step s (.stream ⟨1, 0, none, .streamFin⟩ 0 0) = some (s', out) ∧
      Client.machine.run s' [.app (.pollRead 1), .app (.pollRead 1)] = some (t, tr') ∧
      t.bridge.EndSeen (Client.bridgeTrace (tr ++ out ++ tr'))) ∧
    ∃ s tr s' out t tr', Server.machine.run Server.init finOnServer = some (s, tr) ∧
      Server.machine.step s (.stream ⟨1, 0, none, .streamFin⟩) = some (s', out) ∧
      Server.machine.run s' [.app 0 (.pollRead 1), .app 0 (.pollRead 1)] = some (t, tr') ∧
      (t.stream 0).EndSeen (Server.bridgeTrace 0 (tr ++ out ++ tr')) := by
  constructor
  · obtain ⟨s, tr, s', out, t, tr', hr, hs, hr', hroom, hg⟩ : ∃ s tr s' out t tr',
        Client.machine.run Client.init finWithRoom = some (s, tr) ∧
        Client.machine.step s (.stream ⟨1, 0, none, .streamFin⟩ 0 0) = some (s', out) ∧
        Client.machine.run s' [.app (.pollRead 1), .app (.pollRead 1)] = some (t, tr') ∧
        s.bridge.recvQ.buf.length < recvCapacity ∧ Client.machine.Along (fun _ e => e.RealRead) s'
          [.app (.pollRead 1), .app (.pollRead 1)] :=
      ⟨_, _, _, _, _, _, rfl, rfl, rfl, by decide, by decide⟩
    have hend := (end_reaches_reader 0).1 hr (by decide) rfl hs
    exact ⟨s, tr, s', out, t, tr', hr, hs, hr', hend.mpr (fun _ => .inl hroom) hr' hg⟩
  · obtain ⟨s, tr, s', out, t, tr', hr, hs, hr', hown, hroom, hg⟩ : ∃ s tr s' out t tr',
        Server.machine.run Server.init finOnServer = some (s, tr) ∧
        Server.machine.step s (.stream ⟨1, 0, none, .streamFin⟩) = some (s', out) ∧
        Server.machine.run s' [.app 0 (.pollRead 1), .app 0 (.pollRead 1)] = some (t, tr') ∧
        s.ownStream ⟨1, 0, none, .streamFin⟩ = some 0 ∧
        (s.stream 0).recvQ.buf.length < recvCapacity ∧ Server.machine.Along
          (fun _ e => e.RealRead 0) s' [.app 0 (.pollRead 1), .app 0 (.pollRead 1)] :=
      ⟨_, _, _, _, _, _, rfl, rfl, rfl, by decide, by decide, by decide⟩
    have hend := (end_reaches_reader 0).2.1 hr (by decide) rfl hown hs
    exact ⟨s, tr, s', out, t, tr', hr, hs, hr', hend.mpr (fun _ => .inl ⟨rfl, hroom⟩) hr' hg⟩

/-- On the server a reset of the stream is not answered. -/
def resetEvents : List ServerEvent :=
  [.stream ⟨1, 0, none, .ready⟩, .stream ⟨1, 0, some [1], .streamData⟩, .accept, .resume 0,
    .stream ⟨1, 0, none, .streamReset⟩]

/-- A marker that meets a full queue is gone for good, and so is a reset on the server. -/
theorem lost_end_leaves_reader_pending :
    (∃ s tr, Client.machine.run Client.init
        (floodEvents ++ [.stream ⟨1, 0, none, .streamFin⟩ 0 0]) = some (s, tr) ∧
      ¬ s.bridge.EndSeen (Client.bridgeTrace tr)) ∧
    ∃ s tr, Server.machine.run Server.init resetEvents = some (s, tr) ∧
      ¬ (s.stream 0).EndSeen (Server.bridgeTrace 0 tr) := by
  constructor
  · obtain ⟨s, tr, hr, h⟩ := flood
    obtain ⟨out, hs, h⟩ := h.refuse (List.length_replicate ..) ⟨1, 0, none, .streamFin⟩ rfl rfl
    refine ⟨s, _, Machine.run_step _ hr hs, fun hend => ?_⟩
    obtain (hm | hd) | hread := hend h.owner
    · rw [h.queue] at hm
      cases List.eq_of_mem_replicate hm
    · rw [h.sender] at hd
      cases hd
    · rw [h.reads] at hread
      cases hread
  · refine ⟨_, _, rfl, fun hend => ?_⟩
    obtain (hm | hd) | hread := hend rfl
    · revert hm
      decide
    · cases hd
    · revert hread
      decide

end TransportProxy.Slipstream
