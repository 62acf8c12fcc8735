import TransportProxy.Bridge.Receive
import TransportProxy.Server.Links

/-! # The receive path of the server

`server_stream_callback` offers a chunk for every stream_data event of an open stream that brings
bytes, the one that opens it included, and an end marker for its stream_fin. The first chunk is
queued one step after the halves were sent to the acceptor; until then it is `firstOf`.
-/
namespace TransportProxy.Slipstream
open Foundations
set_option autoImplicit false

/-- The chunk that the server offers for an event about an open stream. -/
def StreamCallback.serverPush (cb : StreamCallback) : Option Bytes :=
  match cb.event with
  | .streamData => cb.chunk
  | .streamFin => some []
  | _ => none

theorem StreamCallback.serverPush_data (cb : StreamCallback) :
    cb.serverPush.getD [] = cb.data.getD [] := by
  cases he : cb.event <;> simp [serverPush, data, he]

theorem StreamCallback.data_of_serverPush {cb : StreamCallback} {v : Bytes}
    (h : cb.serverPush = some v) (hv : v ≠ []) : cb.data = some v := by
  cases he : cb.event <;> simp [serverPush, he] at h <;> first
    | exact absurd h hv
    | simp [data, he, h]

/-- The reader of stream `j` polls with a non-empty buffer. -/
def ServerEvent.RealRead (j : ℕ) : ServerEvent → Prop
  | .app i (.pollRead remaining) => i = j → 0 < remaining
  | _ => True

instance ServerEvent.RealRead.decidable (j : ℕ) (e : ServerEvent) : Decidable (e.RealRead j) := by
  unfold ServerEvent.RealRead
  split <;> infer_instance

namespace Server

def pushes (j : ℕ) (tr : List ServerObs) : List Bytes :=
  (callbacks j tr).filterMap StreamCallback.serverPush

/-- The bytes that the stream_data events of stream `j` brought. -/
def delivered (j : ℕ) (tr : List ServerObs) : Bytes :=
  ((callbacks j tr).filterMap StreamCallback.data).flatten

@[simp] theorem pushes_append (j : ℕ) (t u : List ServerObs) :
    pushes j (t ++ u) = pushes j t ++ pushes j u := by
  simp [pushes]

theorem pushes_flatten (j : ℕ) (tr : List ServerObs) :
    (pushes j tr).flatten = delivered j tr := by
  unfold pushes delivered
  induction callbacks j tr with
  | nil => rfl
  | cons cb cbs ih =>
    rw [filterMap_cons_toList, filterMap_cons_toList, List.flatten_append, List.flatten_append, ih]
    have h := cb.serverPush_data
    congr 1
    cases hp : cb.serverPush <;> cases hd : cb.data <;> simp [hp, hd] at h ⊢ <;> simp [h]

/-! ## What an event is about -/

theorem own_of_opened {s : Server} {cb : StreamCallback} {state : ServerConnState}
    (ho : s.opened cb = some state) : s.ownStream cb = some s.streams.length ∧
      cb.event = .streamData ∧ s.connections.lookup cb.cnx = some state := by
  unfold opened at ho
  split at ho
  · rename_i he
    obtain ⟨hl, hn⟩ := Option.filter_eq_some_iff.mp ho
    have hst : state.stream = none := by simpa using hn
    exact ⟨by simp [ownStream, hl, hst, he], he, hl⟩
  · cases ho

theorem streamOf_lookup {s : Server} {key : CnxPtr} {st : ServerStream}
    (h : s.streamOf key = some st) :
    ∃ state, s.connections.lookup key = some state ∧ state.stream = some st :=
  Option.bind_eq_some_iff.mp h

theorem own_of_pushed {s : Server} {cb : StreamCallback} {i : ℕ} {v : Bytes}
    (hv : s.pushed cb = some (i, v)) : s.ownStream cb = some i ∧ cb.serverPush = some v := by
  unfold pushed at hv
  cases hs : s.streamOf cb.cnx with
  | none => simp [hs] at hv
  | some st =>
    simp only [hs] at hv
    obtain ⟨state, hl, hst⟩ := streamOf_lookup hs
    split at hv
    · rename_i hid
      split at hv
      · rename_i he
        obtain ⟨w, hc, hw⟩ := Option.map_eq_some_iff.mp hv
        obtain ⟨rfl, rfl⟩ := Prod.mk.inj hw
        exact ⟨by simp [ownStream, hl, hst, hid], by simp [StreamCallback.serverPush, he, hc]⟩
      · rename_i he
        obtain ⟨rfl, rfl⟩ := Prod.mk.inj (Option.some.inj hv)
        exact ⟨by simp [ownStream, hl, hst, hid], by simp [StreamCallback.serverPush, he]⟩
      · cases hv
    · cases hv

theorem serverPush_of_ignored {s : Server} {cb : StreamCallback} {j : ℕ}
    (ho : s.opened cb = none) (hv : s.pushed cb = none) (hj : s.ownStream cb = some j) :
    cb.serverPush = none := by
  unfold ownStream at hj
  cases hl : s.connections.lookup cb.cnx with
  | none => simp [hl] at hj
  | some state =>
    cases hst : state.stream with
    | none =>
      simp only [hl, hst] at hj
      split at hj
      · rename_i he
        simp [opened, he, hl, hst] at ho
      · cases hj
    | some st =>
      simp only [hl, hst] at hj
      have hs : s.streamOf cb.cnx = some st := by simp [streamOf, hl, hst]
      simp only [pushed, hs] at hv
      by_cases hid : st.streamId = cb.streamId
      · rw [if_pos hid] at hv
        cases he : cb.event <;> simp [StreamCallback.serverPush, he] at hv ⊢
        exact hv
      · simp only [hid, false_or] at hj
        split at hj
        · rename_i hc
          cases he : cb.event <;> simp [he, PicoquicCallBackEvent.closes] at hc <;>
            simp [StreamCallback.serverPush, he]
        · cases hj

theorem serverPush_of_unlinked {s : Server} {cb : StreamCallback}
    {conns : AList (fun _ : CnxPtr => ServerConnState)} (hc : s.unlinked cb = some conns) :
    cb.serverPush = none := by
  cases he : cb.event <;> simp [unlinked, he, PicoquicCallBackEvent.closes] at hc <;>
    simp [StreamCallback.serverPush, he]

/-! ## What is queued -/

/-- The first chunk of a stream between the hand-over of its halves and its own `try_send`. -/
def firstOf (s : Server) (j : ℕ) : List Bytes :=
  match s.pc with
  | .firstData i v => if i = j then [v] else []
  | _ => []

/-- What is offered in this step to stream `j` finds room, if it is one of the chunks that count. -/
def Room (keep : Bytes → Bool) (j : ℕ) (s : Server) : ServerEvent → Prop
  | .stream cb => s.ownStream cb = some j → ∀ v ∈ cb.serverPush, keep v = true →
      (s.stream j).recvQ.buf.length < recvCapacity
  | _ => True

instance Room.decidable (keep : Bytes → Bool) (j : ℕ) (s : Server) :
    ∀ e, Decidable (s.Room keep j e)
  | .stream cb => inferInstanceAs (Decidable (_ → ∀ v ∈ cb.serverPush, _))
  | .app _ _ | .accept | .loop _ _ _ | .resume _ => .isTrue trivial

variable {keep : Bytes → Bool} {j : ℕ}

structure FedInv (keep : Bytes → Bool) (s : Server) (j : ℕ) (t : List BridgeObs)
    (offered : List Bytes) : Prop where
  fed : Bridge.Fed keep (s.stream j) t offered ((s.firstOf j).filter keep)
  first : s.firstOf j ≠ [] → (s.stream j).recvQ.buf = []

theorem FedInv.init : FedInv keep init j [] [] := by
  constructor
  · simpa [Server.init, stream, firstOf] using Bridge.Fed.new
  · simp [Server.init, firstOf]

theorem FedInv.quiet {s s' : Server} {t bt : List BridgeObs} {offered : List Bytes}
    (h : FedInv keep s j t offered) (hf : s'.firstOf j = s.firstOf j)
    (hq : (s.stream j).recvQ.buf = [] → (s'.stream j).recvQ.buf = []) (hr : received bt = [])
    (hd : (s'.stream j).recvQ.receiver = true → (s.stream j).recvQ.receiver = true) :
    FedInv keep s' j (t ++ bt) (offered ++ []) where
  fed := by
    rw [List.append_nil, hf]
    exact h.fed.quiet hr hd
  first hn := by
    rw [hf] at hn
    exact hq (h.first hn)

/-- An operation of the packet loop other than `recv_tx.try_send`, between two callbacks or in one
that queues nothing. -/
theorem FedInv.loopAt {s u : Server} {t : List BridgeObs} {offered : List Bytes} {i : ℕ}
    {op : LoopOp} (h : FedInv keep s j t offered) (hi : i < s.streams.length)
    (hs : u.streams = (loopAt s.streams i op).1) (hop : ∀ v, op ≠ .recvTrySend v)
    (hf : u.firstOf j = s.firstOf j) :
    FedInv keep u j (t ++ bridgeTrace j (Server.loopAt s.streams i op).2) (offered ++ []) := by
  have hu : Bridge.Untouched (s.stream j) (u.stream j)
      (bridgeTrace j (Server.loopAt s.streams i op).2) := by
    rw [stream, stream, hs]
    exact loopAt_rule_trace hi (fun _ => ⟨rfl, rfl, id, id, rfl, rfl⟩)
      fun _ => (Bridge.loop_step _ op).untouched hop
  exact h.quiet hf (fun hb => by rw [hu.recvQ, hb]) hu.received hu.receiver

theorem FedInv.app {s : Server} {t bout : List BridgeObs} {offered : List Bytes} {i : ℕ}
    {op : AppOp} {b b' : Bridge} (hi : FedInv keep s j t offered) (hb : s.streams[i]? = some b)
    (h : b.app op = some (b', bout)) :
    FedInv keep { s with streams := s.streams.set i b' } j
      (t ++ bridgeTrace j (bout.map (.bridge i))) (offered ++ []) := by
  obtain ⟨hg, hlt⟩ := getD_of_getElem? hb
  have hs := Bridge.app_cases h
  by_cases hij : i = j
  · subst hij
    rw [bridgeTrace_map_self, List.append_nil]
    have hfed := hi.fed
    have hfirst := hi.first
    rw [stream, hg] at hfed hfirst
    refine ⟨?_, ?_⟩
    · rw [stream, getD_set_self hlt]
      exact hfed.app hs
    · intro hn
      rw [stream, getD_set_self hlt]
      exact hs.recvQ_nil (hfirst hn)
  · rw [bridgeTrace_map_ne j hij]
    have hst : (({ s with streams := s.streams.set i b' } : Server).stream j) = s.stream j :=
      getD_set_ne hij b'
    exact hi.quiet rfl (by rw [hst]; exact id) rfl (by rw [hst]; exact id)

/-- The chunk that opens a stream is offered, and nothing is ahead of it. -/
theorem FedInv.openChunk {s : Server} {t : List BridgeObs} {offered : List Bytes}
    {cb : StreamCallback} {state : ServerConnState} {v : Bytes} {acceptQ : List ℕ}
    {conns : AList (fun _ : CnxPtr => ServerConnState)} (hi : FedInv keep s j t offered)
    (hp : s.pc = .idle) (ho : s.opened cb = some state) (hv : cb.chunk = some v) :
    FedInv keep ⟨conns, s.streams ++ [.new], acceptQ, .firstData s.streams.length v⟩ j (t ++ [])
      (offered ++ ((s.about j (.stream cb)).toList.filterMap StreamCallback.serverPush).filter
        keep) := by
  obtain ⟨hown, he, -⟩ := own_of_opened ho
  have hfo : s.firstOf j = [] := by simp [firstOf, hp]
  have hfed := hi.fed
  rw [hfo] at hfed
  by_cases hj : s.streams.length = j
  · subst hj
    refine ⟨?_, fun _ => ?_⟩
    · rw [stream] at hfed
      rw [stream, getD_append_new]
      simpa [about, hown, StreamCallback.serverPush, he, hv, firstOf] using hfed.offer v
    · simp [stream, Bridge.new]
  · have hab : s.about j (.stream cb) = none := by simp [about, hown, hj]
    rw [hab]
    refine hi.quiet (by simp [firstOf, hp, hj]) ?_ rfl ?_ <;>
      simp only [stream, getD_append_new] <;> exact id

/-- A chunk of an open stream is offered and queued in one step. -/
theorem FedInv.push {s : Server} {t : List BridgeObs} {offered : List Bytes} {cb : StreamCallback}
    {i : ℕ} {v : Bytes} (hi : FedInv keep s j t offered) (hl : Linked s) (hp : s.pc = .idle)
    (hv : s.pushed cb = some (i, v)) (hr : s.Room keep j (.stream cb)) :
    FedInv keep { s with streams := (Server.loopAt s.streams i (.recvTrySend v)).1 } j
      (t ++ bridgeTrace j (Server.loopAt s.streams i (.recvTrySend v)).2)
      (offered ++ ((s.about j (.stream cb)).toList.filterMap StreamCallback.serverPush).filter
        keep) := by
  obtain ⟨-, -, -, -, hlt⟩ := hl.pushed_lt hv
  obtain ⟨hown, hsv⟩ := own_of_pushed hv
  have hfo : s.firstOf j = [] := by simp [firstOf, hp]
  have hfed := hi.fed
  rw [hfo] at hfed
  refine ⟨?_, fun hn => absurd hfo hn⟩
  by_cases hij : i = j
  · subst hij
    have hp := (hfed.offer v).push (hr hown v hsv)
    rw [stream] at hp
    have hself := loopAt_self (l := s.streams) (.recvTrySend v) hlt
    have hfo' : ({ s with streams := (Server.loopAt s.streams i (.recvTrySend v)).1 } :
        Server).firstOf i = [] := hfo
    rw [stream, hself.1, hfo']
    simpa [about, hown, hsv, hself.2, Bridge.loop] using hp
  · have hne := loopAt_ne (l := s.streams) (.recvTrySend v) hij
    have hfo' : ({ s with streams := (Server.loopAt s.streams i (.recvTrySend v)).1 } :
        Server).firstOf j = [] := hfo
    rw [stream] at hfed
    rw [stream, hne.1, hfo']
    simpa [about, hown, hij, hne.2] using hfed

/-- The first chunk, which was offered before, finds an empty queue. -/
theorem FedInv.firstChunk {s : Server} {t : List BridgeObs} {offered : List Bytes} {i : ℕ}
    {v : Bytes} (hi : FedInv keep s j t offered) (hl : Linked s) (hp : s.pc = .firstData i v) :
    FedInv keep { s with streams := (Server.loopAt s.streams i (.recvTrySend v)).1, pc := .idle } j
      (t ++ bridgeTrace j (Server.loopAt s.streams i (.recvTrySend v)).2) offered := by
  have hlt := hl.first_lt hp
  refine ⟨?_, by simp [firstOf]⟩
  by_cases hij : i = j
  · subst hij
    have hfo : s.firstOf i = [v] := by simp [firstOf, hp]
    have hfed := hi.fed
    rw [hfo] at hfed
    have hb := hi.first (by simp [hfo])
    have hpush := hfed.push (fun _ => by rw [hb]; decide)
    rw [stream] at hpush
    have hself := loopAt_self (l := s.streams) (.recvTrySend v) hlt
    rw [stream, hself.1]
    simpa [about, hself.2, Bridge.loop, firstOf] using hpush
  · have hne := loopAt_ne (l := s.streams) (.recvTrySend v) hij
    have hfed := hi.fed
    rw [stream] at hfed
    rw [stream, hne.1]
    simpa [about, hij, hne.2, firstOf, hp] using hfed

theorem Step.fed {s s' : Server} {e : ServerEvent} {out : List ServerObs} {t : List BridgeObs}
    {offered : List Bytes} (h : Step s e s' out) (hl : Linked s) (hi : FedInv keep s j t offered)
    (hr : s.Room keep j e) :
    FedInv keep s' j (t ++ bridgeTrace j out) (offered ++ (pushes j out).filter keep) := by
  have hc : pushes j out = (s.about j e).toList.filterMap StreamCallback.serverPush := by
    rw [pushes, h.callbacks]
  rw [hc]
  -- an event that offers nothing, whatever it is about
  have hnone : ∀ {cb : StreamCallback}, cb.serverPush = none →
      ((s.about j (.stream cb)).toList.filterMap StreamCallback.serverPush).filter keep = [] := by
    intro cb hn
    simp only [about]
    split <;> simp [hn]
  cases h with
  | app hb _ h => exact hi.app hb h
  | accept => exact hi.quiet rfl id rfl id
  | drainStart hp | drainEnd hp | drainNext hp =>
    exact hi.quiet (by simp [firstOf, hp]) id rfl id
  | noop hp hm ho => obtain rfl | rfl | ⟨d, rfl⟩ := ho <;> exact hi.quiet rfl id rfl id
  | @unlink cb conns hp hu hn =>
    rw [hnone (serverPush_of_unlinked hu)]
    exact hi.quiet rfl id rfl id
  | @ignored cb hp hu ho hv =>
    have hn : ((s.about j (.stream cb)).toList.filterMap StreamCallback.serverPush).filter keep
        = [] := by
      simp only [about]
      split
      · rename_i hj
        simp [serverPush_of_ignored ho hv hj]
      · rfl
    rw [hn]
    exact hi.quiet rfl id rfl id
  | @unlinkStream cb conns st hp hu hst =>
    rw [hnone (serverPush_of_unlinked hu)]
    simpa using hi.loopAt (u := { connections := conns, acceptQ := s.acceptQ
                                  streams := (Server.loopAt s.streams st.index .dropRecvTx).1
                                  pc := .dropSendRx st.index })
      (hl.lt hst) rfl (by simp) (by simp [firstOf, hp])
  | @token ret now todo hp =>
    exact hi.loopAt (hl.wake_lt hp) rfl (by simp) (by simp [firstOf, hp])
  | @dropSendRx ret i hp =>
    exact hi.loopAt (hl.drop_lt (by rw [hp]; rfl)) rfl (by simp) (by simp [firstOf, hp])
  | @dropWakeTx ret i hp =>
    simpa [about] using hi.loopAt
      (u := { s with streams := (Server.loopAt s.streams i .dropWakeTx).1, pc := .idle })
      (hl.drop_lt (by rw [hp]; rfl)) rfl (by simp) (by simp [firstOf, hp])
  | @drained ret now todo b data hp hb hd =>
    obtain ⟨hg, hlt⟩ := getD_of_getElem? hb
    by_cases hij : now.2.index = j
    · subst hij
      have hst : s.stream now.2.index = b := hg
      refine hi.quiet (by simp [firstOf, hp]) ?_ (by simp) ?_ <;>
        simp only [stream, getD_set_self hlt, hg] <;> exact id
    · have hst := getD_set_ne (l := s.streams) hij { b with sendQ := b.sendQ.pop }
      refine hi.quiet (by simp [firstOf, hp]) ?_ (by simp [hij]) ?_ <;>
        simp only [stream, hst] <;> exact id
  | @openEmpty cb state hp ho hv =>
    have hn : cb.serverPush = none := by
      simp [StreamCallback.serverPush, (own_of_opened ho).2.1, hv]
    rw [hnone hn]
    exact hi.quiet rfl (by simp only [stream, getD_append_new]; exact id) rfl
      (by simp only [stream, getD_append_new]; exact id)
  | openChunk hp ho hv => exact hi.openChunk hp ho hv
  | push hp hv =>
    simpa using hi.push hl hp hv hr
  | firstChunk hp => simpa [about] using hi.firstChunk hl hp

theorem fed_run {es : List ServerEvent} {s : Server} {tr : List ServerObs}
    (hr : machine.run init es = some (s, tr)) (hg : machine.Along (Room keep j) init es) :
    FedInv keep s j (bridgeTrace j tr) ((pushes j tr).filter keep) := by
  refine (Machine.run_trace
    (fun (s : Server) tr => Linked s ∧
      FedInv keep s j (bridgeTrace j tr) ((pushes j tr).filter keep)) ?_ hr hg
      ⟨.init, .init⟩).2
  intro s tr e s' out hi hk hs
  refine ⟨(step_cases hs).linked hi.1, ?_⟩
  rw [bridgeTrace_append, pushes_append, List.filter_append]
  exact (step_cases hs).fed hi.1 hi.2 hk

/-! ## Without room some chunks are lost -/

theorem received_loopAt {l : List Bridge} {i : ℕ} {op : LoopOp} (h : ∀ v, op ≠ .recvTrySend v)
    (j : ℕ) : received (bridgeTrace j (Server.loopAt l i op).2) = [] := by
  unfold Server.loopAt
  cases l[i]? with
  | none => rfl
  | some b =>
    by_cases hij : i = j
    · subst hij
      rw [bridgeTrace_map_self]
      exact ((b.loop_step op).untouched h).received
    · rw [bridgeTrace_map_ne j hij]
      rfl

theorem received_recvTrySend (l : List Bridge) (i : ℕ) (v : Bytes) (j : ℕ) :
    (received (bridgeTrace j (Server.loopAt l i (.recvTrySend v)).2)).Sublist
      (if i = j then [v] else []) := by
  unfold Server.loopAt
  cases l[i]? with
  | none => exact List.nil_sublist _
  | some b =>
    by_cases hij : i = j
    · subst hij
      rw [bridgeTrace_map_self, if_pos rfl, Bridge.loop]
      obtain ⟨-, _, hv⟩ | ⟨-, hv⟩ := b.recvTrySend_cases v
      · rw [hv]
        exact List.Sublist.refl _
      · rw [hv]
        exact List.nil_sublist _
    · rw [bridgeTrace_map_ne j hij]
      exact List.nil_sublist _

theorem Step.received_sublist {s s' : Server} {e : ServerEvent} {out : List ServerObs}
    (h : Step s e s' out) (j : ℕ) :
    (received (bridgeTrace j out) ++ s'.firstOf j).Sublist (s.firstOf j ++ pushes j out) := by
  have hpush : pushes j out = (s.about j e).toList.filterMap StreamCallback.serverPush := by
    rw [pushes, h.callbacks]
  rw [hpush]
  cases h with
  | @app i op b b' bout hb ha h =>
    have hn : received (bridgeTrace j (bout.map (.bridge i))) = [] := by
      by_cases hij : i = j
      · subst hij
        rw [bridgeTrace_map_self]
        exact (Bridge.app_cases h).received
      · rw [bridgeTrace_map_ne j hij]
        rfl
    rw [hn]
    exact List.sublist_append_left _ _
  | accept => exact List.sublist_append_left _ _
  | drained hp =>
    rename_i now _ _ _ _ _
    by_cases hij : now.2.index = j <;> simp [firstOf, hij]
  | openChunk hp ho hv =>
    obtain ⟨hown, he, -⟩ := own_of_opened ho
    simp only [firstOf, hp, about, hown]
    by_cases hj : s.streams.length = j
    · simp [hj, StreamCallback.serverPush, he, hv]
    · simp [hj]
  | @push cb i v hp hv =>
    obtain ⟨hown, hsv⟩ := own_of_pushed hv
    have hr := received_recvTrySend s.streams i v j
    simp only [firstOf, hp, about, hown, List.append_nil, List.nil_append]
    by_cases hij : i = j
    · simpa [hij, hsv] using hr
    · simpa [hij] using hr
  | @firstChunk ret i v hp =>
    have hr := received_recvTrySend s.streams i v j
    simpa [firstOf, hp, about] using hr
  | noop hp hm ho => obtain rfl | rfl | ⟨d, rfl⟩ := ho <;> simp [firstOf, hp]
  | unlink hp | ignored hp | drainStart hp | drainEnd hp | drainNext hp | openEmpty hp =>
    simp [firstOf, hp]
  | unlinkStream hp | token hp | dropSendRx hp | dropWakeTx hp =>
    simp [received_loopAt, firstOf]

/-- What is queued was offered, in the same order. -/
theorem received_sublist_run {es : List ServerEvent} {s : Server} {tr : List ServerObs}
    (hr : machine.run init es = some (s, tr)) (j : ℕ) :
    (received (bridgeTrace j tr) ++ s.firstOf j).Sublist (pushes j tr) := by
  refine Machine.run_trace (fun (s : Server) tr =>
    (received (bridgeTrace j tr) ++ s.firstOf j).Sublist (pushes j tr)) ?_ hr
    (Machine.Along.true _ _) (List.nil_sublist _)
  rintro s tr e s' out hi - hs
  have hst := (step_cases hs).received_sublist j
  rw [bridgeTrace_append, received_append, pushes_append, List.append_assoc]
  have hoff := hi.append_right (pushes j out)
  rw [List.append_assoc] at hoff
  exact (hst.append_left _).trans hoff

/-- A stream_data event of stream `j` that brings bytes finds room for them. -/
def DataRoom (j : ℕ) (s : Server) : ServerEvent → Prop
  | .stream cb => s.ownStream cb = some j → cb.data.isSome = true →
      (s.stream j).recvQ.buf.length < recvCapacity
  | _ => True

instance DataRoom.decidable (j : ℕ) (s : Server) : ∀ e, Decidable (s.DataRoom j e)
  | .stream _ => inferInstanceAs (Decidable (_ → _ → _ < _))
  | .app _ _ | .accept | .loop _ _ _ | .resume _ => .isTrue trivial

theorem reads_prefix {es : List ServerEvent} {s : Server} {tr : List ServerObs}
    (hr : machine.run init es = some (s, tr)) (hg : machine.Along (DataRoom j) init es) :
    (reads (bridgeTrace j tr)).flatten <+: delivered j tr := by
  have hroom : machine.Along (Room (fun v => !v.isEmpty) j) init es := by
    apply hg.mono
    intro s e h
    cases e with
    | stream cb =>
      intro hj v hv hk
      exact h hj (by rw [StreamCallback.data_of_serverPush hv (by simpa using hk)]; rfl)
    | app | accept | loop | resume => trivial
  have hf := (fed_run hr hroom).fed.front.flatten
  rw [List.flatten_filter_not_isEmpty, List.flatten_filter_not_isEmpty, pushes_flatten,
    (ledger_run hr j).recv] at hf
  exact (List.prefix_append _ _).trans hf

/-! ## Where the reads find the end -/

theorem Step.markedLedger {s s' : Server} {e : ServerEvent} {out : List ServerObs}
    {t : List BridgeObs} (h : Step s e s' out) (hl : Linked s) (he : LoopEnds s j)
    (hr : e.RealRead j) (hi : (s.stream j).MarkedLedger t) :
    (s'.stream j).MarkedLedger (t ++ bridgeTrace j out) := by
  obtain ⟨hb, ht⟩ | ⟨op, hc, hop⟩ := h.bridge_op j
  · rw [hb, ht]
    exact hi.untouched (.refl _)
  · refine hi.step ?_ hop
    cases op with
    | app op =>
      rw [show e = .app j op from hc] at hr
      cases op <;> first | exact hr rfl | exact hr
    | loop op =>
      cases op with
      | recvTrySend v =>
        refine he.recv.mpr (.inl ?_)
        obtain ⟨cb, -, hv⟩ | hp := hc
        · obtain ⟨st, hs, -, hi, -⟩ := hl.pushed_lt hv
          exact ⟨cb.cnx, st, hs, hi⟩
        · exact hl.first hp
      | _ => trivial

theorem markedLedger_run {es : List ServerEvent} {s : Server} {tr : List ServerObs}
    (hr : machine.run init es = some (s, tr))
    (hg : machine.Along (fun _ e => e.RealRead j) init es) :
    (s.stream j).MarkedLedger (bridgeTrace j tr) :=
  (Machine.run_trace
    (fun (s : Server) tr => (Linked s ∧ LoopEnds s j) ∧
      (s.stream j).MarkedLedger (bridgeTrace j tr))
    (fun s tr e s' out hi hk hs => by
      have hst := step_cases hs
      rw [bridgeTrace_append]
      exact ⟨⟨hst.linked hi.1.1, hst.loopEnds hi.1.1 hi.1.2⟩,
        hst.markedLedger hi.1.1 hi.1.2 hk hi.2⟩)
    hr hg ⟨⟨.init, .init j⟩, by simpa [Server.init, stream] using Bridge.MarkedLedger.new⟩).2

end Server
end TransportProxy.Slipstream
