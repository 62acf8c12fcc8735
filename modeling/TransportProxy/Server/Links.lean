import TransportProxy.Server.Streams

/-! # Which bridges are still connected

A bridge is connected from the event that opens its stream to the event that closes or replaces the
entry of its connection. `Linked` collects what the map and the place in a callback say about the
bridges, and `LoopEnds` which of the packet loop's ends of a bridge are alive.
-/
namespace TransportProxy.Slipstream
open Foundations
set_option autoImplicit false

namespace Server

/-- Some entry of the map holds the ends of this bridge. -/
def Connected (s : Server) (i : ℕ) : Prop := ∃ key st, s.streamOf key = some st ∧ st.index = i

structure Linked (s : Server) : Prop where
  lt : ∀ {key st}, s.streamOf key = some st → st.index < s.streams.length
  inj : ∀ {key key' st st'}, s.streamOf key = some st → s.streamOf key' = some st' →
    st.index = st'.index → key = key'
  dropping : ∀ {i}, s.pc.dropping = some i → i < s.streams.length ∧ ¬ s.Connected i
  first : ∀ {i v}, s.pc = .firstData i v → s.Connected i
  todo : ∀ t ∈ s.pc.todo, ∃ key, s.streamOf key = some t.2

theorem Linked.init : Linked init := by
  constructor <;> simp [Server.init, streamOf, ServerPc.dropping, ServerPc.todo]

theorem Linked.connected_lt {s : Server} (h : Linked s) {i : ℕ} (hc : s.Connected i) :
    i < s.streams.length := by
  obtain ⟨key, st, hs, rfl⟩ := hc
  exact h.lt hs

theorem Linked.pushed_lt {s : Server} (h : Linked s) {cb : StreamCallback} {i : ℕ} {v : Bytes}
    (hv : s.pushed cb = some (i, v)) : ∃ st, s.streamOf cb.cnx = some st ∧
      st.streamId = cb.streamId ∧ st.index = i ∧ i < s.streams.length := by
  unfold pushed at hv
  cases hs : s.streamOf cb.cnx with
  | none => simp [hs] at hv
  | some st =>
    simp only [hs] at hv
    have hlt := h.lt hs
    split at hv
    · rename_i hid
      have hi : st.index = i := by
        split at hv
        · obtain ⟨w, -, he⟩ := Option.map_eq_some_iff.mp hv
          exact (Prod.mk.inj he).1
        · exact (Prod.mk.inj (Option.some.inj hv)).1
        · cases hv
      exact ⟨st, rfl, hid, hi, by rwa [← hi]⟩
    · cases hv

theorem Linked.first_lt {s : Server} (h : Linked s) {i : ℕ} {v : Bytes}
    (hp : s.pc = .firstData i v) : i < s.streams.length := h.connected_lt (h.first hp)

theorem Linked.wake_lt {s : Server} (h : Linked s) {now : CnxPtr × ServerStream}
    {todo : List (CnxPtr × ServerStream)} (hp : s.pc = .wake now todo) :
    now.2.index < s.streams.length := by
  obtain ⟨key, hk⟩ := h.todo now (by rw [hp]; exact List.mem_cons_self)
  exact h.lt hk

theorem Linked.drop_lt {s : Server} (h : Linked s) {i : ℕ} (hp : s.pc.dropping = some i) :
    i < s.streams.length := (h.dropping hp).1

/-! ## The map after a step -/

theorem streamOf_of_unlinked {s t : Server} {cb : StreamCallback}
    (hc : s.unlinked cb = some t.connections) (key : CnxPtr) :
    t.streamOf key = if key = cb.cnx then none else s.streamOf key := by
  unfold unlinked at hc
  unfold streamOf
  split at hc
  · rw [← Option.some.inj hc]
    by_cases hk : key = cb.cnx
    · rw [hk, AList.lookup_insert, if_pos rfl]
      rfl
    · rw [AList.lookup_insert_ne hk, if_neg hk]
  · split at hc
    · rw [← Option.some.inj hc]
      by_cases hk : key = cb.cnx
      · rw [hk, AList.lookup_erase, if_pos rfl]
        rfl
      · rw [AList.lookup_erase_ne hk, if_neg hk]
    · cases hc

theorem streamOf_of_opened {s : Server} {cb : StreamCallback} {state : ServerConnState}
    (ho : s.opened cb = some state) : s.streamOf cb.cnx = none := by
  unfold opened at ho
  split at ho
  · obtain ⟨hl, hn⟩ := Option.filter_eq_some_iff.mp ho
    rw [streamOf, hl]
    simpa using hn
  · cases ho

theorem streamOf_insert {s s' : Server} {key : CnxPtr} {state : ServerConnState}
    {st : ServerStream}
    (hc : s'.connections = s.connections.insert key { state with stream := some st })
    (key' : CnxPtr) : s'.streamOf key' = if key' = key then some st else s.streamOf key' := by
  unfold streamOf
  rw [hc]
  by_cases hk : key' = key
  · rw [hk, AList.lookup_insert, if_pos rfl]
    rfl
  · rw [AList.lookup_insert_ne hk, if_neg hk]

theorem connected_of_unlinked {s t : Server} {cb : StreamCallback}
    (hc : s.unlinked cb = some t.connections) (hn : s.streamOf cb.cnx = none) (i : ℕ) :
    t.Connected i ↔ s.Connected i := by
  simp only [Connected, streamOf_of_unlinked hc]
  constructor
  · rintro ⟨key, st, hs, hi⟩
    split at hs
    · cases hs
    · exact ⟨key, st, hs, hi⟩
  · rintro ⟨key, st, hs, hi⟩
    refine ⟨key, st, ?_, hi⟩
    rw [if_neg, hs]
    rintro rfl
    rw [hn] at hs
    cases hs

theorem Linked.connected_of_unlinkStream {s t : Server} (h : Linked s) {cb : StreamCallback}
    {st : ServerStream} (hc : s.unlinked cb = some t.connections)
    (hs : s.streamOf cb.cnx = some st) (i : ℕ) :
    t.Connected i ↔ s.Connected i ∧ i ≠ st.index := by
  simp only [Connected, streamOf_of_unlinked hc]
  constructor
  · rintro ⟨key, st', hs', rfl⟩
    split at hs'
    · cases hs'
    · rename_i hk
      exact ⟨⟨key, st', hs', rfl⟩, fun he => hk (h.inj hs' hs he)⟩
  · rintro ⟨⟨key, st', hs', rfl⟩, hne⟩
    refine ⟨key, st', ?_, rfl⟩
    rw [if_neg, hs']
    rintro rfl
    rw [hs] at hs'
    exact hne (by rw [Option.some.inj hs'])

theorem connected_of_opened {s s' : Server} {cb : StreamCallback} {state : ServerConnState}
    {st : ServerStream}
    (hc : s'.connections = s.connections.insert cb.cnx { state with stream := some st })
    (ho : s.opened cb = some state) (i : ℕ) :
    s'.Connected i ↔ s.Connected i ∨ i = st.index := by
  simp only [Connected, streamOf_insert hc]
  constructor
  · rintro ⟨key, st', hs, rfl⟩
    split at hs
    · rw [Option.some.inj hs]
      exact .inr rfl
    · exact .inl ⟨key, st', hs, rfl⟩
  · rintro (⟨key, st', hs, rfl⟩ | rfl)
    · refine ⟨key, st', ?_, rfl⟩
      rw [if_neg, hs]
      rintro rfl
      rw [streamOf_of_opened ho] at hs
      cases hs
    · exact ⟨cb.cnx, st, if_pos rfl, rfl⟩

/-! ## The invariant -/

theorem Linked.congr {s s' : Server} (h : Linked s) (hc : s'.connections = s.connections)
    (hl : s'.streams.length = s.streams.length)
    (hd : ∀ {i}, s'.pc.dropping = some i → s.pc.dropping = some i)
    (hf : ∀ {i v}, s'.pc = .firstData i v → s.pc = .firstData i v)
    (ht : ∀ t ∈ s'.pc.todo, ∃ key, s.streamOf key = some t.2) : Linked s' := by
  have hs : ∀ key, s'.streamOf key = s.streamOf key := fun key => by rw [streamOf, hc, streamOf]
  constructor
  · intro key st hst
    rw [hs] at hst
    rw [hl]
    exact h.lt hst
  · intro key key' st st' hst hst'
    rw [hs] at hst hst'
    exact h.inj hst hst'
  · intro i hi
    simpa only [hl, Connected, hs] using h.dropping (hd hi)
  · intro i v hp
    simpa only [Connected, hs] using h.first (hf hp)
  · simpa only [hs] using ht

/-- No event is half handled. -/
theorem Linked.settled {s s' : Server} (h : Linked s) (hc : s'.connections = s.connections)
    (hl : s'.streams.length = s.streams.length) (hd : s'.pc.dropping = none)
    (hf : ∀ i v, s'.pc ≠ .firstData i v)
    (ht : ∀ t ∈ s'.pc.todo, ∃ key, s.streamOf key = some t.2) : Linked s' :=
  h.congr hc hl (fun he => by rw [hd] at he; cases he) (fun he => absurd he (hf _ _)) ht

theorem Linked.opened {s s' : Server} {cb : StreamCallback} {state : ServerConnState}
    (h : Linked s) (ho : s.opened cb = some state)
    (hc : s'.connections = s.connections.insert cb.cnx
      { state with stream := some ⟨cb.streamId, s.streams.length⟩ })
    (hl : s'.streams.length = s.streams.length + 1) (hd : s'.pc.dropping = none)
    (hf : ∀ {i v}, s'.pc = .firstData i v → i = s.streams.length) (ht : s'.pc.todo = []) :
    Linked s' := by
  have hs := streamOf_insert hc
  constructor
  · intro key st hst
    rw [hs] at hst
    split at hst
    · rw [hl, ← Option.some.inj hst]
      exact Nat.lt_succ_self _
    · have := h.lt hst
      omega
  · intro key key' st st' hst hst' he
    rw [hs] at hst hst'
    split at hst <;> split at hst'
    · simp_all
    · have := h.lt hst'
      rw [← he, ← Option.some.inj hst] at this
      exact absurd this (Nat.lt_irrefl _)
    · have := h.lt hst
      rw [he, ← Option.some.inj hst'] at this
      exact absurd this (Nat.lt_irrefl _)
    · exact h.inj hst hst' he
  · intro i hi
    rw [hd] at hi
    cases hi
  · intro i v hp
    rw [connected_of_opened hc ho]
    exact .inr (hf hp)
  · simp [ht]

theorem target_streamOf {s : Server} {key : CnxPtr} {t : CnxPtr × ServerStream}
    (h : s.target key = some t) : s.streamOf key = some t.2 := by
  unfold target at h
  obtain ⟨state, hl, h⟩ := Option.bind_eq_some_iff.mp h
  obtain ⟨st, hst, rfl⟩ := Option.map_eq_some_iff.mp h
  rw [streamOf, hl]
  exact hst

theorem Step.linked {s s' : Server} {e : ServerEvent} {out : List ServerObs}
    (h : Step s e s' out) (hi : Linked s) : Linked s' := by
  cases h with
  | app => exact hi.congr rfl (by simp) id id hi.todo
  | accept | ignored | noop => exact hi.congr rfl rfl id id hi.todo
  | push => exact hi.congr rfl (by simp) id id hi.todo
  | firstChunk | drainEnd | dropWakeTx =>
    exact hi.settled rfl (by simp) rfl (by simp) (by simp [ServerPc.todo])
  | dropSendRx hp =>
    exact hi.congr rfl (by simp) (fun h => by rw [hp]; exact h) (fun h => by cases h)
      (by simp [ServerPc.todo])
  | drainStart hp hm ho =>
    refine hi.settled rfl rfl rfl (by simp) ?_
    intro t ht
    obtain ⟨key, -, hk⟩ := List.mem_filterMap.mp ht
    exact ⟨key, target_streamOf hk⟩
  | drained hp =>
    have ht := hi.todo
    rw [hp] at ht
    exact hi.settled rfl (by simp) rfl (by simp) ht
  | drainNext hp =>
    have ht := hi.todo
    rw [hp] at ht
    exact hi.settled rfl rfl rfl (by simp) fun t h => ht t (List.mem_cons_of_mem _ h)
  | token hp =>
    have ht := hi.todo
    rw [hp] at ht
    exact hi.settled rfl (by simp) rfl (by simp) ht
  | openEmpty hp ho =>
    exact hi.opened ho rfl (by simp) (by rw [hp]; rfl) (by simp [hp]) (by rw [hp]; rfl)
  | openChunk hp ho =>
    refine hi.opened ho rfl (by simp) rfl ?_ rfl
    intro i v h
    exact (ServerPc.firstData.inj h).1.symm
  | @unlink cb conns hp hc hn =>
    have hs := streamOf_of_unlinked (s := s) (t := { s with connections := conns }) hc
    constructor
    · intro key st hst
      rw [hs] at hst
      split at hst
      · cases hst
      · exact hi.lt hst
    · intro key key' st st' hst hst' he
      rw [hs] at hst hst'
      split at hst <;> split at hst' <;> first | cases hst | cases hst' | exact hi.inj hst hst' he
    · intro i h
      rw [hp] at h
      cases h
    · intro i v h
      rw [hp] at h
      cases h
    · rw [hp]
      simp [ServerPc.todo]
  | @unlinkStream cb conns st hp hc hst =>
    have hs := streamOf_of_unlinked (s := s)
      (t := { connections := conns, streams := (loopAt s.streams st.index .dropRecvTx).1
              acceptQ := s.acceptQ, pc := .dropSendRx st.index }) hc
    have hconn := hi.connected_of_unlinkStream
      (t := { connections := conns, streams := (loopAt s.streams st.index .dropRecvTx).1
              acceptQ := s.acceptQ, pc := .dropSendRx st.index }) hc hst
    constructor
    · intro key st hst
      rw [hs] at hst
      split at hst
      · cases hst
      · simpa using hi.lt hst
    · intro key key' st st' hst hst' he
      rw [hs] at hst hst'
      split at hst <;> split at hst' <;> first | cases hst | cases hst' | exact hi.inj hst hst' he
    · intro i h
      obtain rfl := Option.some.inj h
      rw [hconn]
      simpa using hi.lt hst
    · intro i v h
      cases h
    · simp [ServerPc.todo]

theorem linked_run {s : Server} {es : List ServerEvent} {tr : List ServerObs}
    (hr : machine.run init es = some (s, tr)) : Linked s :=
  Machine.run_invariant Linked (fun _ _ _ _ hi _ hs => (step_cases hs).linked hi) hr
    (Machine.Along.true _ _) .init

/-! ## The keys of the map -/

/-- An entry is kept under its own pointer, and a drain goes through entries of the map. -/
structure Keyed (s : Server) : Prop where
  cnx : ∀ {key state}, s.connections.lookup key = some state → state.cnx = key
  todo : ∀ t ∈ s.pc.todo, s.streamOf t.1 = some t.2

theorem Keyed.init : Keyed init := by
  constructor <;> simp [Server.init, ServerPc.todo]

theorem Keyed.congr {s s' : Server} (h : Keyed s) (hc : s'.connections = s.connections)
    (ht : ∀ t ∈ s'.pc.todo, t ∈ s.pc.todo) : Keyed s' where
  cnx := by rw [hc]; exact h.cnx
  todo t hm := by
    rw [streamOf, hc]
    exact h.todo t (ht t hm)

theorem Keyed.target {s : Server} (h : Keyed s) {key : CnxPtr} {t : CnxPtr × ServerStream}
    (ht : s.target key = some t) : t.1 = key ∧ s.streamOf key = some t.2 := by
  refine ⟨?_, target_streamOf ht⟩
  obtain ⟨state, hl, hst⟩ := Option.bind_eq_some_iff.mp ht
  obtain ⟨st, -, rfl⟩ := Option.map_eq_some_iff.mp hst
  exact h.cnx hl

theorem Keyed.unlinked {s s' : Server} {cb : StreamCallback} (h : Keyed s)
    (hc : s.unlinked cb = some s'.connections) (ht : s'.pc.todo = []) : Keyed s' where
  cnx := by
    intro key state hl
    unfold Server.unlinked at hc
    split at hc
    · rw [← Option.some.inj hc] at hl
      by_cases hk : key = cb.cnx
      · rw [hk, AList.lookup_insert, Option.some.injEq] at hl
        rw [hk, ← hl]
      · rw [AList.lookup_insert_ne hk] at hl
        exact h.cnx hl
    · split at hc
      · rw [← Option.some.inj hc] at hl
        by_cases hk : key = cb.cnx
        · rw [hk, AList.lookup_erase] at hl
          cases hl
        · rw [AList.lookup_erase_ne hk] at hl
          exact h.cnx hl
      · cases hc
  todo := by simp [ht]

theorem Keyed.opened {s s' : Server} {cb : StreamCallback} {state : ServerConnState}
    {st : ServerStream} (h : Keyed s) (ho : s.opened cb = some state)
    (hc : s'.connections = s.connections.insert cb.cnx { state with stream := some st })
    (ht : s'.pc.todo = []) : Keyed s' where
  cnx := by
    intro key state' hl
    rw [hc] at hl
    by_cases hk : key = cb.cnx
    · rw [hk, AList.lookup_insert, Option.some.injEq] at hl
      rw [hk, ← hl]
      simp only [Server.opened, Option.ite_none_right_eq_some, Option.filter_eq_some_iff] at ho
      have hcnx := h.cnx ho.2.1
      exact hcnx
    · rw [AList.lookup_insert_ne hk] at hl
      exact h.cnx hl
  todo := by simp [ht]

theorem Step.keyed {s s' : Server} {e : ServerEvent} {out : List ServerObs}
    (h : Step s e s' out) (hi : Keyed s) : Keyed s' := by
  cases h with
  | app | accept | ignored | noop | push => exact hi.congr rfl fun t ht => ht
  | firstChunk hp | drainEnd hp | dropSendRx hp | dropWakeTx hp =>
    exact hi.congr rfl (by simp [ServerPc.todo])
  | drainStart hp hm ho =>
    refine ⟨hi.cnx, ?_⟩
    intro t ht
    obtain ⟨key, -, hk⟩ := List.mem_filterMap.mp ht
    obtain ⟨rfl, hst⟩ := hi.target hk
    exact hst
  | drained hp | token hp =>
    refine hi.congr (by rfl) fun t ht => ?_
    rwa [hp]
  | drainNext hp =>
    refine hi.congr (by rfl) fun t ht => ?_
    rw [hp]
    exact List.mem_cons_of_mem _ ht
  | unlink hp hc => exact hi.unlinked hc (by simp [hp, ServerPc.todo])
  | unlinkStream hp hc => exact hi.unlinked hc rfl
  | openEmpty hp ho => exact hi.opened ho rfl (by simp [hp, ServerPc.todo])
  | openChunk hp ho => exact hi.opened ho rfl rfl

theorem keyed_run {s : Server} {es : List ServerEvent} {tr : List ServerObs}
    (hr : machine.run init es = some (s, tr)) : Keyed s :=
  Machine.run_invariant Keyed (fun _ _ _ _ hi _ hs => (step_cases hs).keyed hi) hr
    (Machine.Along.true _ _) .init

/-! ## The ends of the packet loop -/

/-- Connected, or not opened yet. -/
def Live (s : Server) (j : ℕ) : Prop := s.Connected j ∨ s.streams.length ≤ j

structure LoopEnds (s : Server) (j : ℕ) : Prop where
  recv : (s.stream j).recvQ.sender = true ↔ s.Live j
  send : (s.stream j).sendQ.receiver = true ↔ s.Live j ∨ s.pc = .dropSendRx j
  wake : (s.stream j).wakeQ.sender = true ↔ s.Live j ∨ s.pc.dropping = some j

theorem LoopEnds.init (j : ℕ) : LoopEnds init j := by
  constructor <;> simp [Server.init, stream, Live, Bridge.new]

theorem LoopEnds.congr {s s' : Server} {j : ℕ} (h : LoopEnds s j) (hl : s'.Live j ↔ s.Live j)
    (hr : (s'.stream j).recvQ.sender = (s.stream j).recvQ.sender)
    (hs : (s'.stream j).sendQ.receiver = (s.stream j).sendQ.receiver)
    (hw : (s'.stream j).wakeQ.sender = (s.stream j).wakeQ.sender)
    (hp : s'.pc = .dropSendRx j ↔ s.pc = .dropSendRx j)
    (hd : s'.pc.dropping = some j ↔ s.pc.dropping = some j) : LoopEnds s' j where
  recv := by rw [hr, hl, h.recv]
  send := by rw [hs, hl, hp, h.send]
  wake := by rw [hw, hl, hd, h.wake]

theorem live_of_streams {s t : Server} (hc : t.connections = s.connections)
    (hl : t.streams.length = s.streams.length) (j : ℕ) : t.Live j ↔ s.Live j := by
  simp only [Live, Connected, streamOf, hc, hl]

theorem live_of_opened {s s' : Server} {cb : StreamCallback} {state : ServerConnState}
    (ho : s.opened cb = some state)
    (hc : s'.connections = s.connections.insert cb.cnx
      { state with stream := some ⟨cb.streamId, s.streams.length⟩ })
    (hl : s'.streams.length = s.streams.length + 1) (j : ℕ) : s'.Live j ↔ s.Live j := by
  simp only [Live, connected_of_opened hc ho, hl, or_assoc]
  apply or_congr_right
  omega

theorem loopAt_ends {l : List Bridge} {op : LoopOp} (i j : ℕ)
    (hop : op.drops = false) :
    ((loopAt l i op).1.getD j .new).recvQ.sender = (l.getD j .new).recvQ.sender ∧
      ((loopAt l i op).1.getD j .new).sendQ.receiver = (l.getD j .new).sendQ.receiver ∧
      ((loopAt l i op).1.getD j .new).wakeQ.sender = (l.getD j .new).wakeQ.sender := by
  obtain ⟨hb, -⟩ | ⟨-, hb⟩ := loopAt_bridge l i j op
  · rw [hb]
    exact ⟨rfl, rfl, rfl⟩
  · have hb' := congrArg Prod.fst (Option.some.inj hb)
    simp only at hb'
    rw [← hb']
    exact ((l.getD j .new).loop_step op).loopEnds hop

/-- The close event drops `recv_tx`. -/
theorem LoopEnds.unlinkStream {s : Server} {j : ℕ} {cb : StreamCallback} {st : ServerStream}
    {conns : AList (fun _ : CnxPtr => ServerConnState)} (hi : LoopEnds s j) (hl : Linked s)
    (hp : s.pc = .idle) (hc : s.unlinked cb = some conns) (hst : s.streamOf cb.cnx = some st) :
    LoopEnds { s with
      connections := conns
      streams := (loopAt s.streams st.index .dropRecvTx).1
      pc := .dropSendRx st.index } j := by
  have hlt := hl.lt hst
  have hconn := hl.connected_of_unlinkStream
    (t := { connections := conns, streams := (loopAt s.streams st.index .dropRecvTx).1
            acceptQ := s.acceptQ, pc := .dropSendRx st.index }) hc hst j
  by_cases hij : st.index = j
  · subst hij
    have hlive : s.Live st.index := .inl ⟨_, st, hst, rfl⟩
    have hself := (loopAt_self .dropRecvTx hlt).1
    constructor <;> simp only [stream, hself, Live, hconn, loopAt_length]
    · simp [Bridge.loop, Bridge.dropRecvTx, hlt]
    · have := hi.send.mpr (.inl hlive)
      simpa [Bridge.loop, Bridge.dropRecvTx, stream] using this
    · have := hi.wake.mpr (.inl hlive)
      simpa [Bridge.loop, Bridge.dropRecvTx, stream, ServerPc.dropping] using this
  · have hne := (loopAt_ne (l := s.streams) .dropRecvTx hij).1
    refine hi.congr ?_ ?_ ?_ ?_ (by simp [hp, hij]) (by simp [hp, ServerPc.dropping, hij])
    · simp [Live, hconn, Ne.symm hij]
    all_goals simp only [stream, hne]

theorem LoopEnds.dropSendRx {s : Server} {i j : ℕ} (hi : LoopEnds s j) (hl : Linked s)
    (hp : s.pc = .dropSendRx i) :
    LoopEnds { s with
      streams := (loopAt s.streams i .dropSendRx).1, pc := .dropWakeTx i } j := by
  obtain ⟨hlt, hnc⟩ := hl.dropping (i := i) (by rw [hp]; rfl)
  by_cases hij : i = j
  · subst hij
    have hself := (loopAt_self .dropSendRx hlt).1
    have hdead : ¬ s.Live i := by simp [Live, hnc, hlt]
    have h₁ := hi.recv
    have h₃ := hi.wake
    rw [hp] at h₃
    constructor <;> simp only [stream, hself, live_of_streams
      (t := { s with streams := (loopAt s.streams i .dropSendRx).1, pc := .dropWakeTx i })
      (s := s) rfl (by simp) i] <;>
      simp_all [Bridge.loop, Bridge.dropSendRx, stream, ServerPc.dropping]
  · have hne := (loopAt_ne (l := s.streams) .dropSendRx hij).1
    refine hi.congr (live_of_streams (by rfl) (by simp) j) ?_ ?_ ?_ (by simp [hp, hij])
      (by simp [hp, ServerPc.dropping]) <;> simp only [stream, hne]

theorem LoopEnds.dropWakeTx {s : Server} {i j : ℕ} (hi : LoopEnds s j) (hl : Linked s)
    (hp : s.pc = .dropWakeTx i) :
    LoopEnds { s with streams := (loopAt s.streams i .dropWakeTx).1, pc := .idle } j := by
  obtain ⟨hlt, hnc⟩ := hl.dropping (i := i) (by rw [hp]; rfl)
  by_cases hij : i = j
  · subst hij
    have hself := (loopAt_self .dropWakeTx hlt).1
    have hdead : ¬ s.Live i := by simp [Live, hnc, hlt]
    have h₁ := hi.recv
    have h₂ := hi.send
    rw [hp] at h₂
    constructor <;> simp only [stream, hself, live_of_streams
      (t := { s with streams := (loopAt s.streams i .dropWakeTx).1, pc := .idle })
      (s := s) rfl (by simp) i] <;>
      simp_all [Bridge.loop, Bridge.dropWakeTx, stream, ServerPc.dropping]
  · have hne := (loopAt_ne (l := s.streams) .dropWakeTx hij).1
    refine hi.congr (live_of_streams (by rfl) (by simp) j) ?_ ?_ ?_ (by simp [hp])
      (by simp [hp, ServerPc.dropping, hij]) <;> simp only [stream, hne]

theorem Step.loopEnds {s s' : Server} {e : ServerEvent} {out : List ServerObs} {j : ℕ}
    (h : Step s e s' out) (hl : Linked s) (hi : LoopEnds s j) : LoopEnds s' j := by
  cases h with
  | @app i op b b' bout hb ha h =>
    obtain ⟨hr, hs, hw⟩ := (Bridge.app_cases h).loopEnds
    obtain ⟨hg, hlt⟩ := getD_of_getElem? hb
    have hlive := live_of_streams (s := s) (t := { s with streams := s.streams.set i b' }) rfl
      (by simp) j
    by_cases hij : i = j
    · subst hij
      refine hi.congr hlive ?_ ?_ ?_ .rfl .rfl <;> simp only [stream, getD_set_self hlt, hg]
      · exact hr
      · exact hs
      · exact hw
    · refine hi.congr hlive ?_ ?_ ?_ .rfl .rfl <;> simp only [stream, getD_set_ne hij]
  | accept | ignored | noop => exact hi.congr .rfl rfl rfl rfl .rfl .rfl
  | @push cb i v =>
    obtain ⟨hr, hs, hw⟩ := @loopAt_ends s.streams (.recvTrySend v) i j rfl
    exact hi.congr (live_of_streams (by rfl) (by simp) j) hr hs hw .rfl .rfl
  | @firstChunk ret i v hp =>
    obtain ⟨hr, hs, hw⟩ := @loopAt_ends s.streams (.recvTrySend v) i j rfl
    exact hi.congr (live_of_streams (by rfl) (by simp) j) hr hs hw (by simp [hp])
      (by simp [hp, ServerPc.dropping])
  | drainStart hp | drainEnd hp | drainNext hp =>
    exact hi.congr (live_of_streams (by rfl) (by rfl) j) rfl rfl rfl (by simp [hp])
      (by simp [hp, ServerPc.dropping])
  | @drained ret now todo b data hp hb hd =>
    obtain ⟨hg, hlt⟩ := getD_of_getElem? hb
    by_cases hij : now.2.index = j
    · subst hij
      refine hi.congr (live_of_streams (by rfl) (by simp) _) ?_ ?_ ?_ (by simp [hp])
        (by simp [hp, ServerPc.dropping]) <;> simp only [stream, getD_set_self hlt, hg]
      rfl
    · refine hi.congr (live_of_streams (by rfl) (by simp) _) ?_ ?_ ?_ (by simp [hp])
        (by simp [hp, ServerPc.dropping]) <;> simp only [stream, getD_set_ne hij]
  | @token ret now todo hp =>
    obtain ⟨hr, hs, hw⟩ := @loopAt_ends s.streams .wakeTrySend now.2.index j rfl
    exact hi.congr (live_of_streams (by rfl) (by simp) j) hr hs hw (by simp [hp])
      (by simp [hp, ServerPc.dropping])
  | openEmpty hp ho =>
    refine hi.congr (live_of_opened ho (by rfl) (by simp) j) ?_ ?_ ?_ .rfl .rfl <;>
      simp only [stream, getD_append_new]
  | openChunk hp ho =>
    refine hi.congr (live_of_opened ho (by rfl) (by simp) j) ?_ ?_ ?_ (by simp [hp])
      (by simp [hp, ServerPc.dropping]) <;> simp only [stream, getD_append_new]
  | @unlink cb conns hp hc hn =>
    refine hi.congr ?_ rfl rfl rfl .rfl .rfl
    rw [Live, connected_of_unlinked (s := s) (t := { s with connections := conns }) hc hn]
    rfl
  | unlinkStream hp hc hst => exact hi.unlinkStream hl hp hc hst
  | dropSendRx hp => exact hi.dropSendRx hl hp
  | dropWakeTx hp => exact hi.dropWakeTx hl hp

theorem loopEnds_run {s : Server} {es : List ServerEvent} {tr : List ServerObs}
    (hr : machine.run init es = some (s, tr)) (j : ℕ) : LoopEnds s j :=
  (Machine.run_invariant (fun s => Linked s ∧ LoopEnds s j)
    (fun _ _ _ _ hi _ hs => ⟨(step_cases hs).linked hi.1, (step_cases hs).loopEnds hi.1 hi.2⟩)
    hr (Machine.Along.true _ _) ⟨.init, .init j⟩).2

end Server
end TransportProxy.Slipstream
