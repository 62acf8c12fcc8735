import TransportProxy.Foundations.Retry
import TransportProxy.Server.Steps

/-! # The streams of the server

Each step of the server is one step of one of its bridges, or none: `Step.bridge` and
`bridgeProjection`. A bridge stays linked to the entry of its connection from the first stream_data
event to the event that closes or replaces the entry; `Linked` says which ends of it the packet loop
still holds.
-/
namespace TransportProxy.Slipstream
open Foundations
set_option autoImplicit false

@[simp] def ServerObs.bridge? (i : ℕ) : ServerObs → Option BridgeObs
  | .bridge j o => if j = i then some o else none
  | _ => none

@[simp] def ServerObs.callback? (i : ℕ) : ServerObs → Option StreamCallback
  | .callback cb own => if own = some i then some cb else none
  | _ => none

@[simp] def ServerObs.add? (i : ℕ) : ServerObs → Option AddToStream
  | .add j cnx streamId data setFin ret =>
    if j = i then some ⟨cnx, streamId, data, setFin, ret⟩ else none
  | _ => none

/-- `picoquic_add_to_stream` returns zero. -/
def ServerEvent.RetZero : ServerEvent → Prop
  | .resume ret => ret = 0
  | _ => True

instance ServerEvent.RetZero.decidable : ∀ e : ServerEvent, Decidable e.RetZero
  | .resume ret => inferInstanceAs (Decidable (ret = 0))
  | .app _ _ | .accept | .stream _ | .loop _ _ _ => .isTrue trivial

namespace Server

/-- What a trace of the server shows of one bridge. -/
def bridgeTrace (i : ℕ) (tr : List ServerObs) : List BridgeObs :=
  tr.filterMap (ServerObs.bridge? i)

/-- The events about one stream. -/
def callbacks (i : ℕ) (tr : List ServerObs) : List StreamCallback :=
  tr.filterMap (ServerObs.callback? i)

/-- The calls of `picoquic_add_to_stream` for one stream. -/
def adds (i : ℕ) (tr : List ServerObs) : List AddToStream := tr.filterMap (ServerObs.add? i)

/-- The entries that they were for, and whether they returned zero. -/
def calls (i : ℕ) (tr : List ServerObs) : List (Bytes × Bool) :=
  (adds i tr).map AddToStream.entry

section Trace
variable (i : ℕ) (o : ServerObs) (t u : List ServerObs)

@[simp] theorem bridgeTrace_nil : bridgeTrace i [] = [] := rfl

@[simp] theorem bridgeTrace_cons :
    bridgeTrace i (o :: t) = (o.bridge? i).toList ++ bridgeTrace i t := filterMap_cons_toList ..

@[simp] theorem bridgeTrace_append :
    bridgeTrace i (t ++ u) = bridgeTrace i t ++ bridgeTrace i u := List.filterMap_append ..

@[simp] theorem callbacks_nil : callbacks i [] = [] := rfl

@[simp] theorem callbacks_cons :
    callbacks i (o :: t) = (o.callback? i).toList ++ callbacks i t := filterMap_cons_toList ..

@[simp] theorem callbacks_append :
    callbacks i (t ++ u) = callbacks i t ++ callbacks i u := List.filterMap_append ..

@[simp] theorem bridgeTrace_map_self (l : List BridgeObs) :
    bridgeTrace i (l.map (.bridge i)) = l := by
  induction l with
  | nil => rfl
  | cons o l ih => simp [ih]

theorem bridgeTrace_map_ne {j : ℕ} (h : j ≠ i) (l : List BridgeObs) :
    bridgeTrace i (l.map (.bridge j)) = [] := by
  have hn : ∀ o, (ServerObs.bridge j o).bridge? i = none := fun o => if_neg h
  exact filterMap_map_none hn l

@[simp] theorem callbacks_map_bridge (j : ℕ) (l : List BridgeObs) :
    callbacks i (l.map (.bridge j)) = [] :=
  filterMap_map_none (fun _ => rfl) l

@[simp] theorem adds_nil : adds i [] = [] := rfl

@[simp] theorem adds_cons : adds i (o :: t) = (o.add? i).toList ++ adds i t :=
  filterMap_cons_toList ..

@[simp] theorem adds_append : adds i (t ++ u) = adds i t ++ adds i u := List.filterMap_append ..

@[simp] theorem adds_map_bridge (j : ℕ) (l : List BridgeObs) : adds i (l.map (.bridge j)) = [] :=
  filterMap_map_none (fun _ => rfl) l

@[simp] theorem calls_nil : calls i [] = [] := rfl

@[simp] theorem calls_cons :
    calls i (o :: t) = (o.add? i).toList.map AddToStream.entry ++ calls i t := by
  rw [calls, adds_cons, List.map_append]
  rfl

@[simp] theorem calls_append : calls i (t ++ u) = calls i t ++ calls i u := by
  rw [calls, adds_append, List.map_append]
  rfl

@[simp] theorem calls_map_bridge (j : ℕ) (l : List BridgeObs) :
    calls i (l.map (.bridge j)) = [] := by
  rw [calls, adds_map_bridge]
  rfl

end Trace

/-! ## One operation of one bridge -/

section LoopAt
variable (l : List Bridge) (i j : ℕ) (op : LoopOp)

@[simp] theorem loopAt_length : (loopAt l i op).1.length = l.length := by
  unfold loopAt
  cases l[i]? <;> simp

@[simp] theorem callbacks_loopAt : callbacks j (loopAt l i op).2 = [] := by
  unfold loopAt
  cases l[i]? <;> simp

@[simp] theorem adds_loopAt : adds j (loopAt l i op).2 = [] := by
  unfold loopAt
  cases l[i]? <;> simp

@[simp] theorem calls_loopAt : calls j (loopAt l i op).2 = [] := by
  rw [calls, adds_loopAt]
  rfl

variable {l i j}

theorem loopAt_self (h : i < l.length) :
    (loopAt l i op).1.getD i .new = ((l.getD i .new).loop op).1 ∧
      bridgeTrace i (loopAt l i op).2 = ((l.getD i .new).loop op).2 := by
  simp [loopAt, h]

theorem loopAt_ne (h : i ≠ j) :
    (loopAt l i op).1.getD j .new = l.getD j .new ∧ bridgeTrace j (loopAt l i op).2 = [] := by
  unfold loopAt
  cases hb : l[i]? with
  | none => simp
  | some b =>
    refine ⟨?_, bridgeTrace_map_ne j h _⟩
    simp [List.getD_eq_getElem?_getD, List.getElem?_set_ne h]

/-- Seen from bridge `j`, an operation of bridge `i` is that operation or nothing. -/
theorem loopAt_bridge (l : List Bridge) (i j : ℕ) (op : LoopOp) :
    ((loopAt l i op).1.getD j .new = l.getD j .new ∧ bridgeTrace j (loopAt l i op).2 = []) ∨
      (i = j ∧ Bridge.machine.step (l.getD j .new) (.loop op) =
        some ((loopAt l i op).1.getD j .new, bridgeTrace j (loopAt l i op).2)) := by
  by_cases hij : i = j
  · subst hij
    by_cases hi : i < l.length
    · obtain ⟨h₁, h₂⟩ := loopAt_self op hi
      rw [h₁, h₂]
      exact .inr ⟨rfl, rfl⟩
    · simp [loopAt, hi]
  · exact .inl (loopAt_ne op hij)

/-- What holds of every bridge and its trace after an operation of one of them. -/
theorem loopAt_rule_trace {P : Bridge → List BridgeObs → Prop} {op : LoopOp} (hi : i < l.length)
    (hne : i ≠ j → P (l.getD j .new) [])
    (heq : i = j → P ((l.getD j .new).loop op).1 ((l.getD j .new).loop op).2) :
    P ((loopAt l i op).1.getD j .new) (bridgeTrace j (loopAt l i op).2) := by
  by_cases hij : i = j
  · subst hij
    rw [(loopAt_self op hi).1, (loopAt_self op hi).2]
    exact heq rfl
  · rw [(loopAt_ne op hij).1, (loopAt_ne op hij).2]
    exact hne hij

theorem loopAt_rule {P : Bridge → Prop} {op : LoopOp} (hi : i < l.length)
    (hne : i ≠ j → P (l.getD j .new)) (heq : i = j → P ((l.getD j .new).loop op).1) :
    P ((loopAt l i op).1.getD j .new) :=
  loopAt_rule_trace (P := fun b _ => P b) hi hne heq

end LoopAt

theorem getD_append_new (l : List Bridge) (j : ℕ) :
    (l ++ [Bridge.new]).getD j .new = l.getD j .new := by
  rw [List.getD_eq_getElem?_getD, List.getD_eq_getElem?_getD, List.getElem?_append]
  split
  · rfl
  · rename_i h
    rw [List.getElem?_eq_none (Nat.le_of_not_lt h)]
    cases hj : j - l.length <;> simp

theorem getD_of_getElem? {l : List Bridge} {i : ℕ} {b : Bridge} (h : l[i]? = some b) :
    l.getD i .new = b ∧ i < l.length := by
  obtain ⟨hi, hb⟩ := List.getElem?_eq_some_iff.mp h
  exact ⟨by simp [hb, hi], hi⟩

theorem stream_free {s : Server} {j : ℕ} (hj : s.streams.length ≤ j) : s.stream j = .new := by
  rw [stream, List.getD_eq_getElem?_getD, List.getElem?_eq_none hj, Option.getD_none]

theorem getD_set_ne {l : List Bridge} {i j : ℕ} (h : i ≠ j) (b : Bridge) :
    (l.set i b).getD j .new = l.getD j .new := by
  simp [List.getD_eq_getElem?_getD, List.getElem?_set_ne h]

theorem getD_set_self {l : List Bridge} {i : ℕ} (h : i < l.length) (b : Bridge) :
    (l.set i b).getD i .new = b := by
  simp [h]

theorem sendQ_nil {s : Server} {i : ℕ} (h : ∀ b, s.streams[i]? = some b → b.sendQ.buf = []) :
    (s.stream i).sendQ.buf = [] := by
  rw [stream, List.getD_eq_getElem?_getD]
  cases hs : s.streams[i]? with
  | none => rfl
  | some b => exact h b hs

/-- The operation of bridge `j` that a step makes: a poll of its task, the chunk that a callback
offers, or another operation of the packet loop. -/
def Causes (s : Server) (j : ℕ) (e : ServerEvent) : BridgeOp → Prop
  | .app op => e = .app j op
  | .loop (.recvTrySend v) =>
    (∃ cb, e = .stream cb ∧ s.pushed cb = some (j, v)) ∨ s.pc = .firstData j v
  | .loop _ => True

/-- A step of the server leaves bridge `j` alone or makes one step of it. -/
theorem Step.bridge_op {s s' : Server} {e : ServerEvent} {out : List ServerObs}
    (h : Step s e s' out) (j : ℕ) :
    (s'.stream j = s.stream j ∧ bridgeTrace j out = []) ∨
      ∃ op, s.Causes j e op ∧
        Bridge.machine.step (s.stream j) op = some (s'.stream j, bridgeTrace j out) := by
  unfold stream
  cases h with
  | @app i op b b' bout hb ha h =>
    obtain ⟨hg, hi⟩ := getD_of_getElem? hb
    by_cases hij : i = j
    · subst hij
      refine .inr ⟨.app op, rfl, ?_⟩
      rw [hg, getD_set_self hi, bridgeTrace_map_self]
      exact h
    · exact .inl ⟨getD_set_ne hij b', bridgeTrace_map_ne j hij bout⟩
  | accept | drainStart | drainNext | unlink | ignored | drainEnd => exact .inl ⟨rfl, rfl⟩
  | noop hp hm ho => obtain rfl | rfl | ⟨d, rfl⟩ := ho <;> exact .inl ⟨rfl, rfl⟩
  | openEmpty | openChunk => exact .inl ⟨getD_append_new _ _, rfl⟩
  | @unlinkStream cb conns st =>
    refine (loopAt_bridge s.streams st.index j .dropRecvTx).imp ?_ fun h =>
      ⟨.loop .dropRecvTx, trivial, ?_⟩
    · rintro ⟨h₁, h₂⟩
      exact ⟨h₁, by simpa using h₂⟩
    · simpa using h.2
  | @push cb i v hp hv =>
    obtain ⟨h₁, h₂⟩ | ⟨rfl, h⟩ := loopAt_bridge s.streams i j (.recvTrySend v)
    · exact .inl ⟨h₁, by simpa using h₂⟩
    · exact .inr ⟨.loop (.recvTrySend v), .inl ⟨cb, rfl, hv⟩, by simpa using h⟩
  | @firstChunk ret i v hp =>
    obtain ⟨h₁, h₂⟩ | ⟨rfl, h⟩ := loopAt_bridge s.streams i j (.recvTrySend v)
    · exact .inl ⟨h₁, by simpa using h₂⟩
    · exact .inr ⟨.loop (.recvTrySend v), .inr hp, by simpa using h⟩
  | @token ret now todo =>
    exact (loopAt_bridge s.streams now.2.index j .wakeTrySend).imp id fun h =>
      ⟨.loop .wakeTrySend, trivial, h.2⟩
  | @dropSendRx ret i =>
    exact (loopAt_bridge s.streams i j .dropSendRx).imp id fun h =>
      ⟨.loop .dropSendRx, trivial, h.2⟩
  | @dropWakeTx ret i =>
    refine (loopAt_bridge s.streams i j .dropWakeTx).imp ?_ fun h =>
      ⟨.loop .dropWakeTx, trivial, ?_⟩
    · rintro ⟨h₁, h₂⟩
      exact ⟨h₁, by simpa using h₂⟩
    · simpa using h.2
  | @drained ret now todo b data hp hb hd =>
    obtain ⟨hg, hi⟩ := getD_of_getElem? hb
    by_cases hij : now.2.index = j
    · subst hij
      refine .inr ⟨.loop .sendTryRecv, trivial, ?_⟩
      rw [hg, getD_set_self hi]
      simp [Bridge.machine, Bridge.step, Bridge.loop, Bridge.sendTryRecv_of_buf hd]
    · exact .inl ⟨getD_set_ne hij _, by simp [hij]⟩

theorem Step.bridge {s s' : Server} {e : ServerEvent} {out : List ServerObs}
    (h : Step s e s' out) (j : ℕ) :
    (s'.stream j = s.stream j ∧ bridgeTrace j out = []) ∨
      ∃ op, Bridge.machine.step (s.stream j) op = some (s'.stream j, bridgeTrace j out) :=
  (h.bridge_op j).imp id fun ⟨op, _, hop⟩ => ⟨op, hop⟩

/-- The event of this step, if it is about stream `j`. -/
def about (s : Server) (j : ℕ) : ServerEvent → Option StreamCallback
  | .stream cb => if s.ownStream cb = some j then some cb else none
  | _ => none

theorem Step.callbacks {s s' : Server} {e : ServerEvent} {out : List ServerObs}
    (h : Step s e s' out) (j : ℕ) : Server.callbacks j out = (s.about j e).toList := by
  cases h with
  | noop hp hm ho => obtain rfl | rfl | ⟨d, rfl⟩ := ho <;> rfl
  | _ => simp [about]

theorem popped_loopAt {l : List Bridge} {i : ℕ} {op : LoopOp} (h : op ≠ .sendTryRecv) (j : ℕ) :
    popped (bridgeTrace j (loopAt l i op).2) = [] := by
  unfold loopAt
  cases l[i]? with
  | none => rfl
  | some b =>
    by_cases hij : i = j
    · subst hij
      rw [bridgeTrace_map_self]
      exact (b.loop_step op).popped h
    · rw [bridgeTrace_map_ne j hij]
      rfl

/-- What is taken from the send queue is passed to picoquic. -/
theorem Step.popped {s s' : Server} {e : ServerEvent} {out : List ServerObs}
    (h : Step s e s' out) (j : ℕ) :
    Slipstream.popped (bridgeTrace j out) = (calls j out).map Prod.fst := by
  cases h with
  | @app i op b b' bout hb ha h =>
    rw [calls_map_bridge]
    by_cases hij : i = j
    · subst hij
      rw [bridgeTrace_map_self]
      exact (Bridge.app_cases h).popped
    · rw [bridgeTrace_map_ne j hij]
      rfl
  | noop hp hm ho => obtain rfl | rfl | ⟨d, rfl⟩ := ho <;> rfl
  | @drained ret now todo b data hp hb hd =>
    by_cases hij : now.2.index = j <;> simp [hij]
  | unlinkStream | push | firstChunk | token | dropSendRx | dropWakeTx =>
    simp [popped_loopAt]
  | _ => rfl

/-- The FIN goes with the end-of-file marker and with nothing else. -/
theorem Step.setFin {s s' : Server} {e : ServerEvent} {out : List ServerObs}
    (h : Step s e s' out) {j : ℕ} : ∀ c ∈ adds j out, c.setFin = finOf c.data := by
  cases h with
  | noop hp hm ho => obtain rfl | rfl | ⟨d, rfl⟩ := ho <;> simp
  | @drained ret now todo b data hp hb hd => by_cases hij : now.2.index = j <;> simp [hij]
  | _ => simp

theorem setFin_run {es : List ServerEvent} {s : Server} {tr : List ServerObs}
    (hr : machine.run init es = some (s, tr)) (j : ℕ) :
    ∀ c ∈ adds j tr, c.setFin = finOf c.data := by
  refine Machine.run_trace (fun (_ : Server) tr => ∀ c ∈ adds j tr, c.setFin = finOf c.data) ?_ hr
    (Machine.Along.true _ _) nofun
  intro s tr e s' out hi _ hs c hc
  rw [adds_append] at hc
  exact (List.mem_append.mp hc).elim (hi c) ((step_cases hs).setFin c)

/-- Each entry that leaves the queue is passed to picoquic, once. -/
theorem popped_run {es : List ServerEvent} {s : Server} {tr : List ServerObs}
    (hr : machine.run init es = some (s, tr)) (j : ℕ) :
    Slipstream.popped (bridgeTrace j tr) = (calls j tr).map Prod.fst := by
  refine Machine.run_trace (fun (_ : Server) tr =>
    Slipstream.popped (bridgeTrace j tr) = (calls j tr).map Prod.fst) ?_ hr
    (Machine.Along.true _ _) rfl
  rintro s tr e s' out hi - hs
  rw [bridgeTrace_append, popped_append, hi, (step_cases hs).popped j, calls_append,
    List.map_append]

/-- The drain is about to take an entry of stream `j`. -/
def Hands (s : Server) (j : ℕ) : Prop :=
  s.pc.todo.head?.map (·.2.index) = some j ∧ s.pc = .drain s.pc.todo ∧ (s.stream j).sendQ.buf ≠ []

instance Hands.decidable (s : Server) (j : ℕ) : Decidable (s.Hands j) :=
  inferInstanceAs (Decidable (_ ∧ _ ∧ _))

/-- If the step makes a call for stream `j`, it returns zero. -/
def RetZeroFor (j : ℕ) (s : Server) : ServerEvent → Prop
  | .resume ret => s.Hands j → ret = 0
  | _ => True

instance RetZeroFor.decidable (j : ℕ) (s : Server) : ∀ e, Decidable (s.RetZeroFor j e)
  | .resume _ => inferInstanceAs (Decidable (_ → _))
  | .app _ _ | .accept | .stream _ | .loop _ _ _ => .isTrue trivial

theorem retZeroFor_of_retZero {s : Server} {e : ServerEvent} (h : e.RetZero) (j : ℕ) :
    s.RetZeroFor j e := by
  cases e with
  | resume ret => exact fun _ => h
  | app | accept | stream | loop => trivial

/-- A call for stream `j` is made exactly where the drain takes an entry of it. -/
theorem Step.calls_iff {s s' : Server} {e : ServerEvent} {out : List ServerObs}
    (h : Step s e s' out) (j : ℕ) :
    (∃ ret v, e = .resume ret ∧ s.Hands j ∧ calls j out = [(v, ret == 0)]) ∨
      (calls j out = [] ∧ ¬ ∃ ret, e = .resume ret ∧ s.Hands j) := by
  cases h with
  | @drained ret now todo b data hp hb hd =>
    obtain ⟨hg, -⟩ := getD_of_getElem? hb
    by_cases hij : now.2.index = j
    · subst hij
      refine .inl ⟨ret, data, rfl, ⟨by simp [hp, ServerPc.todo], by simp [hp, ServerPc.todo], ?_⟩,
        by simp⟩
      rw [stream, hg, hd]
      exact List.cons_ne_nil _ _
    · refine .inr ⟨by simp [hij], ?_⟩
      rintro ⟨-, -, hh, -⟩
      simp [hp, ServerPc.todo, hij] at hh
  | @drainNext ret now todo hp hb =>
    refine .inr ⟨rfl, ?_⟩
    rintro ⟨-, -, hh, -, hn⟩
    simp only [hp, ServerPc.todo, List.head?_cons, Option.map_some, Option.some.injEq] at hh
    subst hh
    exact hn (sendQ_nil hb)
  | drainEnd hp =>
    refine .inr ⟨rfl, ?_⟩
    rintro ⟨-, -, hh, -⟩
    simp [hp, ServerPc.todo] at hh
  | noop hp hm ho => obtain rfl | rfl | ⟨d, rfl⟩ := ho <;> exact .inr ⟨rfl, by simp⟩
  | firstChunk hp | token hp | dropSendRx hp | dropWakeTx hp =>
    refine .inr ⟨by simp, ?_⟩
    rintro ⟨-, -, -, hh, -⟩
    rw [hp] at hh
    cases hh
  | _ => exact .inr ⟨by simp, by simp⟩

theorem Step.ret {s s' : Server} {e : ServerEvent} {out : List ServerObs} (h : Step s e s' out)
    {j : ℕ} (hz : s.RetZeroFor j e) : ∀ c ∈ calls j out, c.2 = true := by
  intro c hc
  obtain ⟨ret, v, rfl, hh, hcalls⟩ | ⟨hcalls, -⟩ := h.calls_iff j
  · rw [hcalls, List.mem_singleton] at hc
    have h0 : ret = 0 := hz hh
    rw [hc, h0]
    rfl
  · rw [hcalls] at hc
    cases hc

theorem Step.handed {s s' : Server} {e : ServerEvent} {out : List ServerObs}
    (h : Step s e s' out) {j : ℕ} (hz : s.RetZeroFor j e) :
    handedOver (calls j out) = Slipstream.popped (bridgeTrace j out) := by
  rw [h.popped, handedOver, List.filter_eq_self.mpr (h.ret hz)]

theorem ret_run {es : List ServerEvent} {s : Server} {tr : List ServerObs} {j : ℕ}
    (hr : machine.run init es = some (s, tr)) (hg : machine.Along (RetZeroFor j) init es) :
    ∀ c ∈ calls j tr, c.2 = true := by
  refine Machine.run_trace (fun (_ : Server) tr => ∀ c ∈ calls j tr, c.2 = true) ?_ hr hg nofun
  intro s tr e s' out hi hk hs c hc
  rw [calls_append] at hc
  exact (List.mem_append.mp hc).elim (hi c) ((step_cases hs).ret hk c)

/-- All that is taken from the queue is handed over. -/
theorem handed_run {es : List ServerEvent} {s : Server} {tr : List ServerObs} {j : ℕ}
    (hr : machine.run init es = some (s, tr)) (hg : machine.Along (RetZeroFor j) init es) :
    handedOver (calls j tr) = Slipstream.popped (bridgeTrace j tr) := by
  rw [popped_run hr j, handedOver, List.filter_eq_self.mpr (ret_run hr hg)]

theorem Step.owned {s s' : Server} {e : ServerEvent} {out : List ServerObs}
    (h : Step s e s' out) {j : ℕ} (ho : (s.stream j).Owned) : (s'.stream j).Owned := by
  obtain ⟨hb, -⟩ | ⟨op, hop⟩ := h.bridge j
  · rwa [hb]
  · exact Bridge.step_owned ho hop

theorem Step.not_held {s s' : Server} {e : ServerEvent} {out : List ServerObs} {j : ℕ}
    (h : Step s e s' out) (ho : (s.stream j).owner ≠ .held) : (s'.stream j).owner ≠ .held := by
  obtain ⟨hb, -⟩ | ⟨op, hop⟩ := h.bridge j
  · rwa [hb]
  · exact Bridge.not_held_step ho hop

/-- Every run of the server is a run of each of its bridges. -/
def bridgeProjection (j : ℕ) : Machine.Projection machine Bridge.machine where
  state s := s.stream j
  obs := ServerObs.bridge? j
  sound s e s' out h := by
    obtain ⟨hb, ht⟩ | ⟨op, hop⟩ := (step_cases h).bridge j
    · refine ⟨[], ?_⟩
      rw [Machine.run_nil, hb]
      exact congrArg (fun t => some (s.stream j, t)) ht.symm
    · exact ⟨[op], (Machine.run_single_iff ..).mpr hop⟩

theorem ledger_run {s : Server} {es : List ServerEvent} {tr : List ServerObs}
    (h : machine.run init es = some (s, tr)) (j : ℕ) :
    Bridge.Ledger (s.stream j) (bridgeTrace j tr) := by
  obtain ⟨ops, hops⟩ := (bridgeProjection j).run h
  exact Bridge.ledger_run hops

theorem owned_run {s : Server} {es : List ServerEvent} {tr : List ServerObs}
    (h : machine.run init es = some (s, tr)) (j : ℕ) : (s.stream j).Owned := by
  obtain ⟨ops, hops⟩ := (bridgeProjection j).run h
  exact Bridge.owned_run .new hops

end Server
end TransportProxy.Slipstream
