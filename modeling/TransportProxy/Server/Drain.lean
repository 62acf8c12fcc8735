import TransportProxy.Server.Links

/-! # One AFTER_* callback of the server

The callback goes through the connections one after the other, and the handlers go on writing while
it does. `passed` is what `picoquic_add_to_stream` was called with for one bridge, connection and
stream id included.
-/
namespace TransportProxy.Slipstream
open Foundations
set_option autoImplicit false

namespace Server

def passed (i : ℕ) (tr : List ServerObs) : List (CnxPtr × UInt64 × Bytes × ℤ) :=
  (adds i tr).map fun c => (c.cnx, c.streamId, c.data, c.setFin)

@[simp] theorem passed_append (i : ℕ) (t u : List ServerObs) :
    passed i (t ++ u) = passed i t ++ passed i u := by
  rw [passed, adds_append, List.map_append]
  rfl

/-- The call that an entry of the send queue of this connection asks for. -/
def callFor (key : CnxPtr) (st : ServerStream) (v : Bytes) : CnxPtr × UInt64 × Bytes × ℤ :=
  (key, st.streamId, v, finOf v)

variable {s s' : Server} {e : ServerEvent} {tr out : List ServerObs} {key : CnxPtr}
  {st : ServerStream}

theorem Linked.todo_unique (hl : Linked s) (hk : Keyed s) {t u : CnxPtr × ServerStream}
    (ht : t ∈ s.pc.todo) (hu : u ∈ s.pc.todo) (h : t.2.index = u.2.index) : t = u := by
  have h₁ := hk.todo t ht
  have h₂ := hk.todo u hu
  have hkey := hl.inj h₁ h₂ h
  rw [hkey, h₂, Option.some.injEq] at h₁
  exact Prod.ext hkey h₁.symm

/-- While a connection waits for its turn or has it, the calls for its bridge are its own. -/
theorem Step.passed_todo (h : Step s e s' out) (hl : Linked s) (hk : Keyed s)
    (ht : (key, st) ∈ s.pc.todo) :
    passed st.index out = (Slipstream.popped (bridgeTrace st.index out)).map (callFor key st) := by
  cases h with
  | @app i op b b' bout hb ha h =>
    rw [passed, adds_map_bridge]
    by_cases hij : i = st.index
    · subst hij
      rw [bridgeTrace_map_self, (Bridge.app_cases h).popped]
      rfl
    · rw [bridgeTrace_map_ne _ hij]
      rfl
  | @drained ret now todo b data hp hb hd =>
    by_cases hij : now.2.index = st.index
    · have hnow : now = (key, st) := hl.todo_unique hk (by rw [hp]; exact List.mem_cons_self) ht hij
      subst hnow
      simp [passed, callFor]
    · simp [passed, hij]
  | token => simp [passed, popped_loopAt]
  | accept | drainNext => rfl
  | _ hp => simp [hp, ServerPc.todo] at ht

/-- A connection that has had its turn has an empty queue at that moment. -/
theorem Step.todo (h : Step s e s' out) (ht : (key, st) ∈ s.pc.todo) :
    (key, st) ∈ s'.pc.todo ∨ (s'.stream st.index).sendQ.buf = [] := by
  cases h with
  | app | accept => exact .inl ht
  | drained hp | token hp =>
    left
    rwa [hp] at ht
  | @drainNext ret now todo hp hb =>
    rw [hp] at ht
    obtain rfl | ht := List.mem_cons.mp ht
    · exact .inr (sendQ_nil hb)
    · exact .inl ht
  | _ hp => simp [hp, ServerPc.todo] at ht

/-- Since the start of the callback: what was queued then has been taken or is still queued, and
once the connection has had its turn it has been passed on. -/
structure Turn (key : CnxPtr) (st : ServerStream) (atStart : List Bytes) (s : Server)
    (tr : List ServerObs) : Prop where
  linked : Linked s
  keyed : Keyed s
  balance : atStart ++ queued (bridgeTrace st.index tr) =
    popped (bridgeTrace st.index tr) ++ (s.stream st.index).sendQ.buf
  turn : (key, st) ∈ s.pc.todo ∧
      passed st.index tr = (popped (bridgeTrace st.index tr)).map (callFor key st) ∨
    atStart <+: popped (bridgeTrace st.index tr) ∧
      atStart.map (callFor key st) <+: passed st.index tr

theorem Step.conserves (h : Step s e s' out) (j : ℕ) :
    Bridge.Conserves (s.stream j) (s'.stream j) (bridgeTrace j out) := by
  obtain ⟨hb, ht⟩ | ⟨op, hop⟩ := h.bridge j
  · rw [hb, ht]
    exact .of_eq rfl rfl rfl rfl rfl rfl rfl
  · exact Bridge.step_conserves hop

theorem Turn.step {atStart : List Bytes} (hi : Turn key st atStart s tr) (h : Step s e s' out) :
    Turn key st atStart s' (tr ++ out) := by
  have hbalance : atStart ++ queued (bridgeTrace st.index (tr ++ out)) =
      popped (bridgeTrace st.index (tr ++ out)) ++ (s'.stream st.index).sendQ.buf := by
    rw [bridgeTrace_append, queued_append, popped_append, ← List.append_assoc, hi.balance,
      List.append_assoc, (h.conserves st.index).send, List.append_assoc]
  refine ⟨h.linked hi.linked, h.keyed hi.keyed, hbalance, ?_⟩
  obtain ⟨ht, hp⟩ | ⟨hpop, hp⟩ := hi.turn
  · have hpassed : passed st.index (tr ++ out) =
        (popped (bridgeTrace st.index (tr ++ out))).map (callFor key st) := by
      rw [passed_append, hp, h.passed_todo hi.linked hi.keyed ht, bridgeTrace_append,
        popped_append, List.map_append]
    refine (h.todo ht).imp (fun ht' => ⟨ht', hpassed⟩) fun hq => ?_
    -- nothing is left in the queue, so all that was there at the start has been taken
    rw [hq, List.append_nil] at hbalance
    have hpop : atStart <+: popped (bridgeTrace st.index (tr ++ out)) :=
      ⟨queued (bridgeTrace st.index (tr ++ out)), hbalance⟩
    exact ⟨hpop, by rw [hpassed]; exact hpop.map _⟩
  · right
    rw [bridgeTrace_append, popped_append, passed_append]
    exact ⟨hpop.trans (List.prefix_append _ _), hp.trans (List.prefix_append _ _)⟩

/-- The start of an AFTER_* callback. -/
theorem Turn.start {s₁ : Server} {cbMode : ℤ} {arg : LoopArg} {order : List CnxPtr}
    (hl : Linked s) (hk : Keyed s)
    (hm : cbMode = picoquicPacketLoopAfterReceive ∨ cbMode = picoquicPacketLoopAfterSend)
    (hs : Step s (.loop cbMode arg order) s₁ out) (hst : s.streamOf key = some st) :
    Turn key st (s.stream st.index).sendQ.buf s₁ [] := by
  refine ⟨hs.linked hl, hs.keyed hk, ?_, .inl ⟨?_, rfl⟩⟩
  · cases hs with
    | drainStart | noop => exact List.append_nil _
  · cases hs with
    | noop hp hn => exact absurd hm hn
    | drainStart hp hm ho =>
      obtain ⟨state, hlook, hstate⟩ := Option.bind_eq_some_iff.mp hst
      have hmem : key ∈ order := ho.mem_iff.mpr (AList.lookup_isSome.mp (by rw [hlook]; rfl))
      refine List.mem_filterMap.mpr ⟨key, hmem, ?_⟩
      rw [target, hlook, Option.bind_some, hstate, hk.cnx hlook]
      rfl

theorem Turn.run {t : Server} {atStart : List Bytes} {es : List ServerEvent}
    (hi : Turn key st atStart s []) (hr : machine.run s es = some (t, tr)) (hp : t.pc = .idle) :
    atStart <+: popped (bridgeTrace st.index tr) ∧
      atStart.map (callFor key st) <+: passed st.index tr := by
  have hturn := Machine.run_trace (Turn key st atStart)
    (fun _ _ _ _ _ hi _ hs => hi.step (step_cases hs)) hr (Machine.Along.true _ _) hi
  refine hturn.turn.resolve_left ?_
  rintro ⟨hmem, -⟩
  rw [hp] at hmem
  cases hmem

/-- Whatever the handlers do meanwhile, an AFTER_* callback that has returned has passed to
picoquic, for every open stream and on its own connection, all that was queued for it at the start
of the callback, in order. -/
theorem callback_drains_all {es fs : List ServerEvent} {s s₁ t : Server}
    {tr out tr' : List ServerObs} {cbMode : ℤ} {arg : LoopArg} {order : List CnxPtr}
    (hr : machine.run init es = some (s, tr))
    (hm : cbMode = picoquicPacketLoopAfterReceive ∨ cbMode = picoquicPacketLoopAfterSend)
    (hs : machine.step s (.loop cbMode arg order) = some (s₁, out))
    (ht : machine.run s₁ fs = some (t, tr')) (hp : t.pc = .idle) {key : CnxPtr}
    {st : ServerStream} (hst : s.streamOf key = some st) :
    (s.stream st.index).sendQ.buf.map (callFor key st) <+: passed st.index tr' :=
  ((Turn.start (linked_run hr) (keyed_run hr) hm (step_cases hs) hst).run ht hp).2

/-- Two streams with an entry each. -/
def twoQueued : List ServerEvent :=
  [.stream ⟨1, 0, none, .ready⟩, .stream ⟨2, 0, none, .ready⟩,
    .stream ⟨1, 0, some [1], .streamData⟩, .resume 0, .stream ⟨2, 4, some [2], .streamData⟩,
    .resume 0, .accept, .accept, .app 0 (.pollWrite [10]), .app 1 (.pollWrite [20])]

/-- The second connection comes first; its handler and that of the first write meanwhile, and the
first call fails. -/
def twoDrained : List ServerEvent :=
  [.resume 1, .app 0 (.pollWrite [11]), .app 1 (.pollWrite [21]), .resume 0, .resume 0, .resume 0,
    .resume 0, .resume 0, .app 1 .pollShutdown, .resume 0, .resume 0, .resume 0, .resume 0,
    .resume 0]

theorem callback_drains_all_twoDrained : ∃ s tr s₁ out t tr',
    machine.run init twoQueued = some (s, tr) ∧
      machine.step s (.loop 3 .null [2, 1]) = some (s₁, out) ∧
      machine.run s₁ twoDrained = some (t, tr') ∧
      passed 1 tr' = [(2, 4, [20], 0), (2, 4, [21], 0)] ∧
      (s.stream 0).sendQ.buf.map (callFor 1 ⟨0, 0⟩) <+: passed 0 tr' :=
  ⟨_, _, _, _, _, _, rfl, rfl, rfl, by decide,
    @callback_drains_all twoQueued twoDrained _ _ _ _ _ _ 3 .null [2, 1] rfl (by decide) rfl rfl
      (by decide) 1 ⟨0, 0⟩ (by decide)⟩

end Server
end TransportProxy.Slipstream
