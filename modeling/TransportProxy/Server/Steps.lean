import TransportProxy.Server.Callbacks
import TransportProxy.Bridge.Ownership

/-! # What one step of the server can do

As on the client, `Step` lists the steps with their guards and effects and `step_cases` shows that
the machine takes no other. Seen from one of its bridges, a step of the server is one step of that
bridge or none: `bridgeProjection`.
-/
namespace TransportProxy.Slipstream
open Foundations
set_option autoImplicit false

namespace Server

/-- The map after an event that replaces or removes the entry of its connection. -/
def unlinked (s : Server) (cb : StreamCallback) :
    Option (AList (fun _ : CnxPtr => ServerConnState)) :=
  if cb.event = .ready then some (s.connections.insert cb.cnx ⟨cb.cnx, none⟩)
  else if cb.event.closes then some (s.connections.erase cb.cnx)
  else none

/-- The entry whose stream an event opens. -/
def opened (s : Server) (cb : StreamCallback) : Option ServerConnState :=
  if cb.event = .streamData then
    (s.connections.lookup cb.cnx).filter fun state => state.stream.isNone
  else none

/-- The chunk that `server_stream_callback` puts into the receive queue of an open stream. -/
def pushed (s : Server) (cb : StreamCallback) : Option (ℕ × Bytes) :=
  match s.streamOf cb.cnx with
  | none => none
  | some st =>
    if st.streamId = cb.streamId then
      match cb.event with
      | .streamData => cb.chunk.map fun v => (st.index, v)
      | .streamFin => some (st.index, [])
      | _ => none
    else none

inductive Step (s : Server) : ServerEvent → Server → List ServerObs → Prop where
  | app {i op b b' out} (hb : s.streams[i]? = some b) (ha : i ∈ s.acceptQ → op = .dropStream)
      (h : b.app op = some (b', out)) :
      Step s (.app i op) { s with streams := s.streams.set i b' } (out.map (.bridge i))
  | accept {i rest} (hq : s.acceptQ = i :: rest) : Step s .accept { s with acceptQ := rest } []
  | unlink {cb conns} (hp : s.pc = .idle) (hc : s.unlinked cb = some conns)
      (hn : s.streamOf cb.cnx = none) :
      Step s (.stream cb) { s with connections := conns }
        [.callback cb (s.ownStream cb), .returned 0]
  | unlinkStream {cb conns st} (hp : s.pc = .idle) (hc : s.unlinked cb = some conns)
      (hs : s.streamOf cb.cnx = some st) :
      Step s (.stream cb)
        { s with
          connections := conns
          streams := (loopAt s.streams st.index .dropRecvTx).1
          pc := .dropSendRx st.index }
        (.callback cb (s.ownStream cb) :: (loopAt s.streams st.index .dropRecvTx).2)
  | openEmpty {cb state} (hp : s.pc = .idle) (ho : s.opened cb = some state)
      (hv : cb.chunk = none) :
      Step s (.stream cb)
        { s with
          connections := s.connections.insert cb.cnx
            { state with stream := some ⟨cb.streamId, s.streams.length⟩ }
          streams := s.streams ++ [.new]
          acceptQ := s.acceptQ ++ [s.streams.length] }
        [.callback cb (s.ownStream cb), .accepted cb.cnx s.streams.length, .returned 0]
  | openChunk {cb state v} (hp : s.pc = .idle) (ho : s.opened cb = some state)
      (hv : cb.chunk = some v) :
      Step s (.stream cb)
        { connections := s.connections.insert cb.cnx
            { state with stream := some ⟨cb.streamId, s.streams.length⟩ }
          streams := s.streams ++ [.new]
          acceptQ := s.acceptQ ++ [s.streams.length]
          pc := .firstData s.streams.length v }
        [.callback cb (s.ownStream cb), .accepted cb.cnx s.streams.length]
  | push {cb i v} (hp : s.pc = .idle) (hv : s.pushed cb = some (i, v)) :
      Step s (.stream cb) { s with streams := (loopAt s.streams i (.recvTrySend v)).1 }
        (.callback cb (s.ownStream cb) ::
          ((loopAt s.streams i (.recvTrySend v)).2 ++ [.returned 0]))
  | ignored {cb} (hp : s.pc = .idle) (hu : s.unlinked cb = none) (ho : s.opened cb = none)
      (hv : s.pushed cb = none) :
      Step s (.stream cb) s [.callback cb (s.ownStream cb), .returned 0]
  | noop {cbMode arg order out} (hp : s.pc = .idle)
      (hm : ¬ (cbMode = picoquicPacketLoopAfterReceive ∨ cbMode = picoquicPacketLoopAfterSend))
      (ho : out = [.returned 0] ∨ out = [.flags 1, .returned 0] ∨
        ∃ d, out = [.deltaT d, .returned 0]) :
      Step s (.loop cbMode arg order) s out
  | drainStart {cbMode arg order} (hp : s.pc = .idle)
      (hm : cbMode = picoquicPacketLoopAfterReceive ∨ cbMode = picoquicPacketLoopAfterSend)
      (ho : order.Perm s.connections.keys) :
      Step s (.loop cbMode arg order) { s with pc := .drain (order.filterMap s.target) } []
  | firstChunk {ret i v} (hp : s.pc = .firstData i v) :
      Step s (.resume ret)
        { s with streams := (loopAt s.streams i (.recvTrySend v)).1, pc := .idle }
        ((loopAt s.streams i (.recvTrySend v)).2 ++ [.returned 0])
  | drainEnd {ret} (hp : s.pc = .drain []) :
      Step s (.resume ret) { s with pc := .idle } [.returned 0]
  | drained {ret now todo b data} (hp : s.pc = .drain (now :: todo))
      (hb : s.streams[now.2.index]? = some b) (hd : b.sendQ.buf = data :: b.sendQ.buf.tail) :
      Step s (.resume ret)
        { s with
          streams := s.streams.set now.2.index { b with sendQ := b.sendQ.pop }
          pc := .wake now todo }
        [.bridge now.2.index (.popped data),
          .add now.2.index now.1 now.2.streamId data (finOf data) ret]
  | drainNext {ret now todo} (hp : s.pc = .drain (now :: todo))
      (hb : ∀ b, s.streams[now.2.index]? = some b → b.sendQ.buf = []) :
      Step s (.resume ret) { s with pc := .drain todo } []
  | token {ret now todo} (hp : s.pc = .wake now todo) :
      Step s (.resume ret)
        { s with
          streams := (loopAt s.streams now.2.index .wakeTrySend).1
          pc := .drain (now :: todo) }
        (loopAt s.streams now.2.index .wakeTrySend).2
  | dropSendRx {ret i} (hp : s.pc = .dropSendRx i) :
      Step s (.resume ret)
        { s with streams := (loopAt s.streams i .dropSendRx).1, pc := .dropWakeTx i }
        (loopAt s.streams i .dropSendRx).2
  | dropWakeTx {ret i} (hp : s.pc = .dropWakeTx i) :
      Step s (.resume ret)
        { s with streams := (loopAt s.streams i .dropWakeTx).1, pc := .idle }
        ((loopAt s.streams i .dropWakeTx).2 ++ [.returned 0])

theorem unlink_cases {s : Server} {cb : StreamCallback}
    {conns : AList (fun _ : CnxPtr => ServerConnState)} (hp : s.pc = .idle)
    (hc : s.unlinked cb = some conns) :
    Step s (.stream cb)
      ({ s with connections := conns }.dropState (s.connections.lookup cb.cnx)).1
      (.callback cb (s.ownStream cb) ::
        ({ s with connections := conns }.dropState (s.connections.lookup cb.cnx)).2) := by
  unfold dropState
  cases hs : s.streamOf cb.cnx with
  | none =>
    rw [← streamOf, hs]
    exact .unlink hp hc hs
  | some st =>
    rw [← streamOf, hs]
    exact .unlinkStream hp hc hs

theorem streamCallback_cases {s : Server} (hp : s.pc = .idle) (cb : StreamCallback) :
    Step s (.stream cb) (s.streamCallback cb).1
      (.callback cb (s.ownStream cb) :: (s.streamCallback cb).2) := by
  cases he : cb.event
  case ready =>
    simp only [streamCallback, he, callbackReady]
    exact unlink_cases hp (by simp [unlinked, he])
  case close | applicationClose | statelessReset =>
    simp only [streamCallback, he]
    exact unlink_cases hp (by simp [unlinked, he, PicoquicCallBackEvent.closes])
  case streamData =>
    have hu : s.unlinked cb = none := by simp [unlinked, he, PicoquicCallBackEvent.closes]
    simp only [streamCallback, he]
    cases hl : s.connections.lookup cb.cnx with
    | none => exact .ignored hp hu (by simp [opened, hl]) (by simp [pushed, streamOf, hl])
    | some state =>
      cases hst : state.stream with
      | none =>
        have ho : s.opened cb = some state := by simp [opened, he, hl, hst]
        simp only [hst, openStream]
        cases hv : cb.chunk with
        | none => exact .openEmpty hp ho hv
        | some v => exact .openChunk hp ho hv
      | some st =>
        have hof : s.streamOf cb.cnx = some st := by simp [streamOf, hl, hst]
        have ho : s.opened cb = none := by simp [opened, hl, hst]
        simp only [hst]
        by_cases hid : st.streamId = cb.streamId
        · rw [if_pos hid]
          cases hv : cb.chunk with
          | none => exact .ignored hp hu ho (by simp [pushed, hof, he, hv])
          | some v => exact .push hp (by simp [pushed, hof, he, hv, hid])
        · rw [if_neg hid]
          exact .ignored hp hu ho (by simp [pushed, hof, hid])
  case streamFin =>
    have hu : s.unlinked cb = none := by simp [unlinked, he, PicoquicCallBackEvent.closes]
    have ho : s.opened cb = none := by simp [opened, he]
    simp only [streamCallback, he]
    cases hof : s.streamOf cb.cnx with
    | none => exact .ignored hp hu ho (by simp [pushed, hof])
    | some st =>
      simp only
      by_cases hid : st.streamId = cb.streamId
      · rw [if_pos hid]
        exact .push hp (by simp [pushed, hof, he, hid])
      · rw [if_neg hid]
        exact .ignored hp hu ho (by simp [pushed, hof, hid])
  all_goals
    have hu : s.unlinked cb = none := by simp [unlinked, he, PicoquicCallBackEvent.closes]
    have hv : s.pushed cb = none := by
      unfold pushed
      cases s.streamOf cb.cnx <;> simp [he]
    simp only [streamCallback, he]
    exact .ignored hp hu (by simp [opened, he]) hv

theorem loopCallback_cases {s s' : Server} {cbMode : ℤ} {arg : LoopArg} {order : List CnxPtr}
    {out : List ServerObs} (hp : s.pc = .idle)
    (h : s.loopCallback cbMode arg order = some (s', out)) :
    Step s (.loop cbMode arg order) s' out := by
  unfold loopCallback at h
  by_cases hready : cbMode = picoquicPacketLoopReady
  · simp only [if_pos hready, Option.some.injEq, Prod.mk.injEq] at h
    obtain ⟨rfl, rfl⟩ := h
    refine .noop hp (by rw [hready]; decide) ?_
    by_cases ha : arg = .null <;> simp [ha]
  rw [if_neg hready] at h
  by_cases htime : cbMode = picoquicPacketLoopTimeCheck
  · simp only [if_pos htime, Option.some.injEq, Prod.mk.injEq] at h
    obtain ⟨rfl, rfl⟩ := h
    refine .noop hp (by rw [htime]; decide) ?_
    cases arg.deltaT <;> simp
  rw [if_neg htime] at h
  by_cases hm : cbMode = picoquicPacketLoopAfterReceive ∨ cbMode = picoquicPacketLoopAfterSend
  · simp only [if_pos hm, Option.ite_none_right_eq_some, Option.some.injEq, Prod.mk.injEq] at h
    obtain ⟨ho, rfl, rfl⟩ := h
    exact .drainStart hp hm ho
  · simp only [if_neg hm, Option.some.injEq, Prod.mk.injEq] at h
    obtain ⟨rfl, rfl⟩ := h
    exact .noop hp hm (.inl rfl)

theorem drainOne_cases {s : Server} {now : CnxPtr × ServerStream}
    {todo : List (CnxPtr × ServerStream)} (hp : s.pc = .drain (now :: todo)) (ret : ℤ) :
    Step s (.resume ret) (s.drainOne now todo ret).1 (s.drainOne now todo ret).2 := by
  unfold drainOne
  cases hb : s.streams[now.2.index]? with
  | none => exact .drainNext hp (by simp [hb])
  | some b =>
    obtain ⟨v, rest, hq, h⟩ | ⟨hq, -, h⟩ | ⟨hq, -, h⟩ := b.sendTryRecv_cases
    · simp only [h]
      exact .drained hp hb (by rw [hq, List.tail_cons])
    · simp only [h]
      exact .drainNext hp (by simp [hb, hq])
    · simp only [h]
      exact .drainNext hp (by simp [hb, hq])

theorem resume_cases {s s' : Server} {ret : ℤ} {out : List ServerObs}
    (h : s.resume ret = some (s', out)) : Step s (.resume ret) s' out := by
  unfold resume at h
  cases hp : s.pc with
  | idle => simp [hp] at h
  | firstData i v =>
    simp only [hp, Option.some.injEq, pushChunk, onStream, Prod.mk.injEq] at h
    obtain ⟨rfl, rfl⟩ := h
    exact .firstChunk hp
  | drain todo =>
    cases todo with
    | nil =>
      simp only [hp, Option.some.injEq, Prod.mk.injEq] at h
      obtain ⟨rfl, rfl⟩ := h
      exact .drainEnd hp
    | cons now todo =>
      simp only [hp, Option.some.injEq] at h
      have hs := drainOne_cases hp ret
      rwa [h] at hs
  | wake now todo =>
    simp only [hp, Option.some.injEq, onStream, Prod.mk.injEq] at h
    obtain ⟨rfl, rfl⟩ := h
    exact .token hp
  | dropSendRx i =>
    simp only [hp, Option.some.injEq, onStream, Prod.mk.injEq] at h
    obtain ⟨rfl, rfl⟩ := h
    exact .dropSendRx hp
  | dropWakeTx i =>
    simp only [hp, Option.some.injEq, onStream, Prod.mk.injEq] at h
    obtain ⟨rfl, rfl⟩ := h
    exact .dropWakeTx hp

theorem step_cases {s s' : Server} {e : ServerEvent} {out : List ServerObs}
    (h : machine.step s e = some (s', out)) : Step s e s' out := by
  change s.step e = some (s', out) at h
  cases e with
  | app i op =>
    simp only [step, appStep] at h
    cases hb : s.streams[i]? with
    | none => simp [hb] at h
    | some b =>
      simp only [hb] at h
      by_cases ha : i ∈ s.acceptQ ∧ op ≠ .dropStream
      · simp [ha] at h
      · rw [if_neg ha] at h
        simp only [Option.map_eq_some_iff, Prod.mk.injEq] at h
        obtain ⟨⟨b', bout⟩, hop, rfl, rfl⟩ := h
        exact .app hb (by simpa using ha) hop
  | accept =>
    cases hq : s.acceptQ with
    | nil => simp [step, hq] at h
    | cons i rest =>
      simp only [step, hq, Option.some.injEq, Prod.mk.injEq] at h
      obtain ⟨rfl, rfl⟩ := h
      exact .accept hq
  | stream cb =>
    simp only [step, Option.ite_none_right_eq_some, Option.some.injEq, Prod.mk.injEq] at h
    obtain ⟨hp, rfl, rfl⟩ := h
    exact streamCallback_cases hp cb
  | loop cbMode arg order =>
    simp only [step, Option.ite_none_right_eq_some] at h
    exact loopCallback_cases h.1 h.2
  | resume ret => exact resume_cases h

/-! ## And the steps are steps of the machine -/

theorem dropState_of_unlinked {s t : Server} {cb : StreamCallback}
    (hc : s.unlinked cb = some t.connections) (hs : t.streams = s.streams)
    (hq : t.acceptQ = s.acceptQ) (hp : t.pc = s.pc) :
    s.streamCallback cb = t.dropState (s.connections.lookup cb.cnx) := by
  have ht : t = { s with connections := t.connections } := by
    cases t
    simp_all
  cases he : cb.event <;>
    simp only [unlinked, he, PicoquicCallBackEvent.closes, reduceCtorEq, if_true, if_false,
      Bool.false_eq_true, Option.some.injEq] at hc
  all_goals
    rw [ht, ← hc]
    simp only [streamCallback, he, callbackReady]

theorem streamCallback_ignored {s : Server} {cb : StreamCallback} (hu : s.unlinked cb = none)
    (ho : s.opened cb = none) (hv : s.pushed cb = none) :
    s.streamCallback cb = (s, [.returned 0]) := by
  cases he : cb.event <;> simp only [streamCallback, he] <;>
    simp [unlinked, he, PicoquicCallBackEvent.closes] at hu
  case streamData =>
    cases hl : s.connections.lookup cb.cnx with
    | none => rfl
    | some state =>
      cases hst : state.stream with
      | none => simp [opened, he, hl, hst] at ho
      | some st =>
        simp only [hst]
        by_cases hid : st.streamId = cb.streamId
        · cases hc : cb.chunk with
          | none => simp [hid]
          | some v => simp [pushed, streamOf, hl, hst, hid, he, hc] at hv
        · simp [hid]
  case streamFin =>
    cases hs : s.streamOf cb.cnx with
    | none => rfl
    | some st =>
      by_cases hid : st.streamId = cb.streamId
      · simp [pushed, hs, hid, he] at hv
      · simp [hid]

theorem streamCallback_pushed {s : Server} {cb : StreamCallback} {i : ℕ} {v : Bytes}
    (hv : s.pushed cb = some (i, v)) : s.streamCallback cb = s.pushChunk i v := by
  unfold pushed at hv
  cases hs : s.streamOf cb.cnx with
  | none => simp [hs] at hv
  | some st =>
    obtain ⟨state, hl, hst⟩ := Option.bind_eq_some_iff.mp hs
    simp only [hs, Option.ite_none_right_eq_some] at hv
    obtain ⟨hid, hv⟩ := hv
    cases he : cb.event <;> simp only [he, reduceCtorEq, Option.some.injEq, Prod.mk.injEq] at hv
    · obtain ⟨w, hw, heq⟩ := Option.map_eq_some_iff.mp hv
      obtain ⟨rfl, rfl⟩ := Prod.mk.inj heq
      simp [streamCallback, he, hl, hst, hid, hw]
    · obtain ⟨rfl, rfl⟩ := hv
      simp [streamCallback, he, hs, hid]

theorem streamCallback_opened {s : Server} {cb : StreamCallback} {state : ServerConnState}
    (ho : s.opened cb = some state) : s.streamCallback cb = s.openStream state cb := by
  simp only [opened, Option.ite_none_right_eq_some, Option.filter_eq_some_iff] at ho
  obtain ⟨he, hl, hn⟩ := ho
  have hst : state.stream = none := by simpa using hn
  simp [streamCallback, he, hl, hst]

/-- The list is exact; only what a callback of another mode shows is left open. -/
theorem Step.step {s s' : Server} {e : ServerEvent} {out : List ServerObs} (h : Step s e s' out)
    (hm : ∀ cbMode arg order, e = .loop cbMode arg order →
      cbMode = picoquicPacketLoopAfterReceive ∨ cbMode = picoquicPacketLoopAfterSend) :
    machine.step s e = some (s', out) := by
  show s.step e = some (s', out)
  cases h with
  | app hb ha h =>
    simp only [Server.step, appStep, hb]
    rw [if_neg (by simpa using ha), h]
    rfl
  | accept hq => simp [Server.step, hq]
  | @unlink cb conns hp hc hn =>
    have hd := dropState_of_unlinked (t := { s with connections := conns }) hc rfl rfl rfl
    rw [dropState, show (s.connections.lookup cb.cnx).bind _ = none from hn] at hd
    simp [Server.step, hp, hd]
  | @unlinkStream cb conns st hp hc hs =>
    have hd := dropState_of_unlinked (t := { s with connections := conns }) hc rfl rfl rfl
    rw [dropState, show (s.connections.lookup cb.cnx).bind _ = some st from hs] at hd
    simp [Server.step, hp, hd, onStream]
  | openEmpty hp ho hv => simp [Server.step, hp, streamCallback_opened ho, openStream, hv]
  | openChunk hp ho hv => simp [Server.step, hp, streamCallback_opened ho, openStream, hv]
  | push hp hv => simp [Server.step, hp, streamCallback_pushed hv, pushChunk, onStream]
  | ignored hp hu ho hv => simp [Server.step, hp, streamCallback_ignored hu ho hv]
  | noop hp hn => exact absurd (hm _ _ _ rfl) hn
  | drainStart hp ha ho =>
    obtain rfl | rfl := ha <;>
      simp [Server.step, hp, loopCallback, ho, picoquicPacketLoopReady, picoquicPacketLoopTimeCheck,
        picoquicPacketLoopAfterReceive, picoquicPacketLoopAfterSend]
  | firstChunk hp => simp [Server.step, resume, hp, pushChunk, onStream]
  | drainEnd hp => simp [Server.step, resume, hp]
  | @drained ret now todo b data hp hb hd =>
    simp [Server.step, resume, hp, drainOne, hb, Bridge.sendTryRecv_of_buf hd]
  | @drainNext ret now todo hp hb =>
    simp only [Server.step, resume, hp, drainOne]
    cases hs : s.streams[now.2.index]? with
    | none => rfl
    | some b =>
      obtain ⟨v, rest, hq, -⟩ | ⟨-, -, hr⟩ | ⟨-, -, hr⟩ := b.sendTryRecv_cases
      · rw [hb b hs] at hq
        cases hq
      all_goals simp [hr]
  | token hp => simp [Server.step, resume, hp, onStream]
  | dropSendRx hp => simp [Server.step, resume, hp, onStream]
  | dropWakeTx hp => simp [Server.step, resume, hp, onStream]

end Server
end TransportProxy.Slipstream
