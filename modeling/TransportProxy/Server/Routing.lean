import TransportProxy.Server.Accept

/-! # The connection that a stream belongs to

Every event about a stream comes on the connection that opened it, and every call for it goes out on
that connection and under the stream id of the event that opened it. A connection has one stream at
a time. So what a trace shows of a connection is what it shows of its streams, one after the other
in the order in which they were accepted.
-/
namespace TransportProxy.Slipstream
open Foundations
set_option autoImplicit false

/-- The stream and the connection of an event about a stream, or of a call for one. -/
def ServerObs.place? : ServerObs → Option (ℕ × CnxPtr)
  | .callback cb (some j) => some (j, cb.cnx)
  | .add j cnx _ _ _ _ => some (j, cnx)
  | _ => none

/-- A call of `picoquic_add_to_stream`, and an event, whichever stream it is for. -/
@[simp] def ServerObs.call? : ServerObs → Option AddToStream
  | .add _ cnx streamId data setFin ret => some ⟨cnx, streamId, data, setFin, ret⟩
  | _ => none

@[simp] def ServerObs.addOn? (key : CnxPtr) : ServerObs → Option AddToStream
  | .add _ cnx streamId data setFin ret =>
    if cnx = key then some ⟨cnx, streamId, data, setFin, ret⟩ else none
  | _ => none

@[simp] def ServerObs.event? : ServerObs → Option StreamCallback
  | .callback cb _ => some cb
  | _ => none

namespace Server

/-- The calls on a connection. -/
def addsOn (key : CnxPtr) (tr : List ServerObs) : List AddToStream :=
  tr.filterMap (ServerObs.addOn? key)

@[simp] theorem addsOn_nil (key : CnxPtr) : addsOn key [] = [] := rfl

@[simp] theorem addsOn_append (key : CnxPtr) (t u : List ServerObs) :
    addsOn key (t ++ u) = addsOn key t ++ addsOn key u := List.filterMap_append ..

/-- The event that opened stream `j`, the first one about it. -/
def opener (j : ℕ) (tr : List ServerObs) : Option StreamCallback := (callbacks j tr).head?

/-- What a trace shows of a stream, and of the streams of a connection. -/
def ofStream (j : ℕ) (tr : List ServerObs) : List ServerObs :=
  tr.filter fun o => o.place?.map Prod.fst = some j

def ofConnection (key : CnxPtr) (tr : List ServerObs) : List ServerObs :=
  tr.filter fun o => o.place?.map Prod.snd = some key

theorem ofStream_append (j : ℕ) (t u : List ServerObs) :
    ofStream j (t ++ u) = ofStream j t ++ ofStream j u := List.filter_append ..

theorem ofConnection_append (key : CnxPtr) (t u : List ServerObs) :
    ofConnection key (t ++ u) = ofConnection key t ++ ofConnection key u := List.filter_append ..

variable {s s' : Server} {e : ServerEvent} {tr out : List ServerObs} {key : CnxPtr} {j : ℕ}
  {st : ServerStream}

theorem mem_ofStream {o : ServerObs} :
    o ∈ ofStream j tr ↔ o ∈ tr ∧ ∃ key, o.place? = some (j, key) := by
  simp [ofStream]

theorem mem_ofConnection {o : ServerObs} :
    o ∈ ofConnection key tr ↔ o ∈ tr ∧ ∃ j, o.place? = some (j, key) := by
  simp [ofConnection]

/-! ## What one step shows of the streams -/

/-- The stream and the connection of the event, or of the call, that a step makes. -/
def placeOf (s : Server) : ServerEvent → Option (ℕ × CnxPtr)
  | .stream cb => (s.ownStream cb).map fun j => (j, cb.cnx)
  | .resume _ =>
    match s.pc with
    | .drain (now :: _) =>
      if (s.stream now.2.index).sendQ.buf = [] then none else some (now.2.index, now.1)
    | _ => none
  | _ => none

theorem places_map_bridge (i : ℕ) (l : List BridgeObs) :
    (l.map (ServerObs.bridge i)).filterMap ServerObs.place? = [] :=
  filterMap_map_none (fun _ => rfl) l

theorem places_loopAt (l : List Bridge) (i : ℕ) (op : LoopOp) :
    (loopAt l i op).2.filterMap ServerObs.place? = [] := by
  unfold loopAt
  cases l[i]? with
  | none => rfl
  | some b => exact places_map_bridge i _

theorem places_callback (cb : StreamCallback) (own : Option ℕ) (t : List ServerObs) :
    (ServerObs.callback cb own :: t).filterMap ServerObs.place? =
      (own.map fun j => (j, cb.cnx)).toList ++ t.filterMap ServerObs.place? := by
  cases own <;> rfl

theorem Step.places (h : Step s e s' out) :
    out.filterMap ServerObs.place? = (s.placeOf e).toList := by
  cases h with
  | app => exact places_map_bridge _ _
  | noop hp hm ho => obtain rfl | rfl | ⟨d, rfl⟩ := ho <;> rfl
  | drained hp hb hd =>
    rw [placeOf, hp]
    simp only
    rw [stream, (getD_of_getElem? hb).1, hd, if_neg (List.cons_ne_nil _ _)]
    rfl
  | @drainNext ret now todo hp hb =>
    simp [placeOf, hp, sendQ_nil hb]
  | accept | drainStart => rfl
  | unlink | unlinkStream | openEmpty | openChunk | push | ignored =>
    rw [places_callback]
    simp [places_loopAt, placeOf, ServerObs.place?]
  | firstChunk hp | drainEnd hp | token hp | dropSendRx hp | dropWakeTx hp =>
    simp [placeOf, hp, places_loopAt, ServerObs.place?]

/-- The stream that an event is about was there before, unless the event opens it. -/
theorem Step.own_place {cb : StreamCallback} (h : Step s (.stream cb) s' out)
    (hown : s.ownStream cb = some j) :
    ∃ st, (s.streamOf cb.cnx = some st ∨ s'.streamOf cb.cnx = some st) ∧ st.index = j := by
  obtain ⟨st, hst, hi⟩ | ⟨rfl, hopen⟩ := own_cases hown
  · exact ⟨st, .inl hst, hi⟩
  · obtain ⟨-, -, -, hne⟩ | ⟨cb', he, hcnx, -, hentry⟩ := h.entry cb.cnx
    · exact absurd rfl (hne cb rfl)
    · obtain rfl := ServerEvent.stream.inj he
      cases hentry with
      | opened ho ha hc => exact ⟨_, .inr (by rw [streamOf_insert hc, if_pos rfl]), rfl⟩
      | kept ho => exact absurd ho hopen
      | unlink hu => exact absurd (opened_of_unlinked hu) hopen

theorem Step.place (h : Step s e s' out) (hk : Keyed s) (hp : s.placeOf e = some (j, key)) :
    ∃ st, (s.streamOf key = some st ∨ s'.streamOf key = some st) ∧ st.index = j := by
  cases e with
  | stream cb =>
    obtain ⟨i, hown, he⟩ := Option.map_eq_some_iff.mp hp
    obtain ⟨rfl, rfl⟩ := Prod.mk.inj he
    exact h.own_place hown
  | resume ret =>
    simp only [placeOf] at hp
    split at hp
    · rename_i now todo hpc
      simp only [Option.ite_none_left_eq_some, Option.some.injEq, Prod.mk.injEq] at hp
      obtain ⟨-, rfl, rfl⟩ := hp
      exact ⟨now.2, .inl (hk.todo now (by rw [hpc]; exact List.mem_cons_self)), rfl⟩
    · cases hp
  | app | accept | loop => cases hp

/-- A step hands a new stream of the connection to the acceptor, or leaves it with the one it has,
if any. -/
theorem Step.accepts (h : Step s e s' out) (key : CnxPtr) :
    (acceptedOf key out = [] ∧ ∀ {st}, s'.streamOf key = some st → s.streamOf key = some st) ∨
      ∃ cb, e = .stream cb ∧ cb.cnx = key ∧ s.streamOf key = none ∧
        s.ownStream cb = some s.streams.length ∧ acceptedOf key out = [s.streams.length] ∧
        s'.streamOf key = some ⟨cb.streamId, s.streams.length⟩ := by
  obtain ⟨-, ha, hl, -⟩ | ⟨cb, rfl, rfl, -, hentry⟩ := h.entry key
  · exact .inl ⟨ha, fun hst => by rwa [streamOf, ← hl]⟩
  · cases hentry with
    | unlink hu ha =>
      refine .inl ⟨ha, fun hst => ?_⟩
      rw [streamOf_of_unlinked hu, if_pos rfl] at hst
      cases hst
    | opened ho ha hc =>
      exact .inr ⟨cb, rfl, rfl, streamOf_of_opened ho, (own_of_opened ho).1, ha,
        by rw [streamOf_insert hc, if_pos rfl]⟩
    | kept ho hu hc ha => exact .inl ⟨ha, fun hst => by rwa [streamOf, ← hc]⟩

/-- A call for a stream is made for the entry of its connection. -/
theorem Step.adds_entry (h : Step s e s' out) (hk : Keyed s) {c : AddToStream}
    (hc : c ∈ adds j out) :
    ∃ st, s.streamOf c.cnx = some st ∧ st.index = j ∧ st.streamId = c.streamId := by
  cases h with
  | noop hp hm ho => obtain rfl | rfl | ⟨d, rfl⟩ := ho <;> simp at hc
  | @drained ret now todo b data hp =>
    by_cases hij : now.2.index = j
    · simp only [adds_cons, ServerObs.add?, if_pos hij, Option.toList_none, Option.toList_some,
        adds_nil, List.nil_append, List.append_nil, List.mem_singleton] at hc
      subst hc
      exact ⟨now.2, hk.todo now (by rw [hp]; exact List.mem_cons_self), hij, rfl⟩
    · simp [hij] at hc
  | _ => simp at hc

/-! ## Where each stream belongs -/

/-- The streams of every connection, in the order in which they were accepted. -/
structure Placed (s : Server) (tr : List ServerObs) : Prop where
  last : ∀ {key st}, s.streamOf key = some st → (acceptedOf key tr).getLast? = some st.index
  lt : ∀ {key j}, j ∈ acceptedOf key tr → j < s.streams.length
  opener : ∀ {key j}, j ∈ acceptedOf key tr → ∃ cb, opener j tr = some cb ∧ cb.cnx = key
  nodup : ∀ key, (acceptedOf key tr).Nodup
  place : ∀ {j key}, (j, key) ∈ tr.filterMap ServerObs.place? → j ∈ acceptedOf key tr
  streamId : ∀ {key st}, s.streamOf key = some st →
    ∃ cb, Server.opener st.index tr = some cb ∧ cb.streamId = st.streamId

theorem Placed.init : Placed init [] := by
  constructor <;> simp [Server.init, streamOf]

/-- No stream belongs to two connections. -/
theorem Placed.unique (h : Placed s tr) {key key' : CnxPtr} (hj : j ∈ acceptedOf key tr)
    (hj' : j ∈ acceptedOf key' tr) : key = key' := by
  obtain ⟨cb, ho, rfl⟩ := h.opener hj
  obtain ⟨cb', ho', rfl⟩ := h.opener hj'
  rw [ho, Option.some.injEq] at ho'
  rw [ho']

theorem Placed.entry (h : Placed s tr) (hst : s.streamOf key = some st) :
    ∃ cb, Server.opener st.index tr = some cb ∧ cb.cnx = key ∧ cb.streamId = st.streamId := by
  obtain ⟨cb, ho, hid⟩ := h.streamId hst
  obtain ⟨cb', ho', hc⟩ := h.opener (List.mem_of_getLast? (h.last hst))
  rw [ho, Option.some.injEq] at ho'
  exact ⟨cb, ho, ho' ▸ hc, hid⟩

theorem opener_append {cb : StreamCallback} (h : opener j tr = some cb) (u : List ServerObs) :
    opener j (tr ++ u) = some cb := by
  rw [opener, callbacks_append, List.head?_append]
  rw [opener] at h
  rw [h]
  rfl

/-- The entry that a step finds or leaves is that of the stream that was accepted last. -/
theorem Placed.last_step (hi : Placed s tr) (h : Step s e s' out)
    (hst : s.streamOf key = some st ∨ s'.streamOf key = some st) :
    (acceptedOf key (tr ++ out)).getLast? = some st.index := by
  rw [acceptedOf_append]
  obtain ⟨ha, hkept⟩ | ⟨cb, -, -, hn, -, ha, hnew⟩ := h.accepts key
  · rw [ha, List.append_nil]
    exact hi.last (hst.elim id hkept)
  · rw [hn, hnew] at hst
    obtain hst | hst := hst
    · cases hst
    · rw [ha, List.getLast?_append, ← Option.some.inj hst]
      rfl

/-- No event is about a stream that is not there yet. -/
def Fresh (s : Server) (tr : List ServerObs) : Prop :=
  ∀ j, s.streams.length ≤ j → callbacks j tr = []

theorem Fresh.step (hf : Fresh s tr) (hl : Linked s) (h : Step s e s' out) :
    Fresh s' (tr ++ out) := by
  intro j hj
  obtain ⟨hj', hn⟩ := h.fresh hl hj
  rw [callbacks_append, h.callbacks, hf j hj', hn]
  rfl

theorem Placed.step (hi : Placed s tr) (hl : Linked s) (hk : Keyed s) (hf : Fresh s tr)
    (h : Step s e s' out) : Placed s' (tr ++ out) := by
  have hlen : s.streams.length ≤ s'.streams.length := (h.fresh hl le_rfl).1
  have hopen {cb : StreamCallback} (hcb : e = .stream cb)
      (hown : s.ownStream cb = some s.streams.length) :
      Server.opener s.streams.length (tr ++ out) = some cb := by
    rw [Server.opener, callbacks_append, hf _ le_rfl, h.callbacks, hcb, about, if_pos hown]
    rfl
  constructor
  · exact fun hst => hi.last_step h (.inr hst)
  · intro key j hj
    rw [acceptedOf_append, List.mem_append] at hj
    obtain ⟨ha, -⟩ | ⟨cb, -, -, -, -, ha, hnew⟩ := h.accepts key
    · rw [ha] at hj
      exact (hi.lt (hj.resolve_right List.not_mem_nil)).trans_le hlen
    · obtain hj | hj := hj
      · exact (hi.lt hj).trans_le hlen
      · rw [ha, List.mem_singleton] at hj
        subst hj
        exact (h.linked hl).lt hnew
  · intro key j hj
    rw [acceptedOf_append, List.mem_append] at hj
    obtain hj | hj := hj
    · obtain ⟨cb, ho, hc⟩ := hi.opener hj
      exact ⟨cb, opener_append ho out, hc⟩
    · obtain ⟨ha, -⟩ | ⟨cb, hcb, hc, -, hown, ha, -⟩ := h.accepts key
      · rw [ha] at hj
        cases hj
      · rw [ha, List.mem_singleton] at hj
        subst hj
        exact ⟨cb, hopen hcb hown, hc⟩
  · intro key
    rw [acceptedOf_append]
    obtain ⟨ha, -⟩ | ⟨cb, -, -, -, -, ha, -⟩ := h.accepts key
    · rw [ha, List.append_nil]
      exact hi.nodup key
    · rw [ha]
      refine List.nodup_append.mpr ⟨hi.nodup key, List.nodup_singleton _, fun j hj i hi' he => ?_⟩
      rw [List.mem_singleton] at hi'
      have hlt := hi.lt hj
      omega
  · intro j key hp
    rw [List.filterMap_append, List.mem_append, h.places, Option.mem_toList] at hp
    obtain hp | hp := hp
    · rw [acceptedOf_append]
      exact List.mem_append_left _ (hi.place hp)
    · obtain ⟨st, hst, rfl⟩ := h.place hk hp
      exact List.mem_of_getLast? (hi.last_step h hst)
  · intro key st hst
    obtain ⟨-, hkept⟩ | ⟨cb, hcb, -, -, hown, -, hnew⟩ := h.accepts key
    · obtain ⟨cb, ho, hid⟩ := hi.streamId (hkept hst)
      exact ⟨cb, opener_append ho out, hid⟩
    · rw [hnew, Option.some.injEq] at hst
      subst hst
      exact ⟨cb, hopen hcb hown, rfl⟩

theorem placed_run {es : List ServerEvent} (hr : machine.run init es = some (s, tr)) :
    Placed s tr := by
  refine (Machine.run_trace (fun (s : Server) tr => Linked s ∧ Keyed s ∧ Fresh s tr ∧ Placed s tr)
    ?_ hr (Machine.Along.true _ _) ⟨.init, .init, fun _ _ => rfl, .init⟩).2.2.2
  rintro s tr e s' out ⟨hl, hk, hf, hi⟩ - hs
  have hst := step_cases hs
  exact ⟨hst.linked hl, hst.keyed hk, hf.step hl hst, hi.step hl hk hf hst⟩

/-- Every call for stream `j` is one on the connection and the stream of the event that opened it,
with the FIN flag if and only if its entry is the end-of-file marker. -/
def AddsOwn (j : ℕ) (tr : List ServerObs) : Prop :=
  ∀ c ∈ adds j tr, ∃ cb, opener j tr = some cb ∧ c.cnx = cb.cnx ∧ c.streamId = cb.streamId ∧
    c.setFin = finOf c.data

theorem addsOwn_run {es : List ServerEvent} (hr : machine.run init es = some (s, tr)) (j : ℕ) :
    AddsOwn j tr := by
  refine Machine.run_prefix (fun _ tr => AddsOwn j tr) ?_ hr (Machine.Along.true _ _) nofun
  intro es s tr e s' out hr _ hi _ hs c hc
  have hst := step_cases hs
  rw [adds_append, List.mem_append] at hc
  obtain hc | hc := hc
  · obtain ⟨cb, ho, hcb⟩ := hi c hc
    exact ⟨cb, opener_append ho out, hcb⟩
  · obtain ⟨st, hso, rfl, hid⟩ := hst.adds_entry (keyed_run hr) hc
    obtain ⟨cb, ho, hcnx, hcb⟩ := (placed_run hr).entry hso
    exact ⟨cb, opener_append ho out, hcnx.symm, by rw [hcb, hid], hst.setFin c hc⟩

/-! ## The streams of a connection -/

/-- What a step shows of the streams is about the one that it is an event or a call of. -/
theorem Step.shown (h : Step s e s' out) {o : ServerObs} (ho : o ∈ out) {p : ℕ × CnxPtr}
    (hp : o.place? = some p) : s.placeOf e = some p := by
  have hm : p ∈ out.filterMap ServerObs.place? := List.mem_filterMap.mpr ⟨o, ho, hp⟩
  rwa [h.places, Option.mem_toList] at hm

theorem Step.ofStream_nil (h : Step s e s' out) (hj : ∀ key, s.placeOf e ≠ some (j, key)) :
    ofStream j out = [] := by
  refine List.eq_nil_iff_forall_not_mem.mpr fun o ho => ?_
  obtain ⟨ho, key, hp⟩ := mem_ofStream.mp ho
  exact hj key (h.shown ho hp)

theorem Step.ofConnection_nil (h : Step s e s' out) (hk : ∀ j, s.placeOf e ≠ some (j, key)) :
    ofConnection key out = [] := by
  refine List.eq_nil_iff_forall_not_mem.mpr fun o ho => ?_
  obtain ⟨ho, j, hp⟩ := mem_ofConnection.mp ho
  exact hk j (h.shown ho hp)

theorem Step.ofConnection_eq (h : Step s e s' out) (hp : s.placeOf e = some (j, key)) :
    ofConnection key out = ofStream j out := by
  refine List.filter_congr fun o ho => ?_
  cases ho' : o.place? with
  | none => rfl
  | some p =>
    have hs := h.shown ho ho'
    rw [hp, Option.some.injEq] at hs
    simp [← hs]

/-- What is shown of a connection is shown of its streams, one after the other. -/
theorem order_run {es : List ServerEvent} (hr : machine.run init es = some (s, tr)) (key : CnxPtr) :
    ofConnection key tr = (acceptedOf key tr).flatMap fun j => ofStream j tr := by
  refine Machine.run_prefix (fun _ tr =>
    ofConnection key tr = (acceptedOf key tr).flatMap fun j => ofStream j tr) ?_ hr
    (Machine.Along.true _ _) rfl
  intro es s tr e s' out hr _ hi _ hs
  have hst := step_cases hs
  have hplaced := placed_run hr
  have hplaced' := placed_run (Machine.run_step _ hr hs)
  -- a stream that is accepted in this step has nothing to show before
  have hbefore : ofConnection key tr =
      (acceptedOf key (tr ++ out)).flatMap fun j => ofStream j tr := by
    rw [hi, acceptedOf_append]
    obtain ⟨ha, -⟩ | ⟨cb, -, -, -, -, ha, -⟩ := hst.accepts key
    · rw [ha, List.append_nil]
    · have hnil : ofStream s.streams.length tr = [] := by
        refine List.eq_nil_iff_forall_not_mem.mpr fun o ho => ?_
        obtain ⟨ho, k, hp⟩ := mem_ofStream.mp ho
        exact absurd (hplaced.lt (hplaced.place (List.mem_filterMap.mpr ⟨o, ho, hp⟩)))
          (Nat.lt_irrefl _)
      rw [ha, List.flatMap_append, List.flatMap_singleton, hnil, List.append_nil]
  simp only [ofConnection_append, ofStream_append, hbefore]
  by_cases hown : ∃ j, s.placeOf e = some (j, key)
  · -- what it shows of the connection is of the stream that was accepted last
    obtain ⟨j, hj⟩ := hown
    obtain ⟨st, hso, rfl⟩ := hst.place (keyed_run hr) hj
    obtain ⟨older, hlast⟩ := List.getLast?_eq_some_iff.mp (hplaced.last_step hst hso)
    have hnodup := hplaced'.nodup key
    rw [hlast] at hnodup ⊢
    have holder : ∀ i ∈ older, ofStream i tr ++ ofStream i out = ofStream i tr := by
      intro i hi'
      rw [hst.ofStream_nil fun k hk => ?_, List.append_nil]
      rw [hj, Option.some.injEq, Prod.mk.injEq] at hk
      exact (List.nodup_append.mp hnodup).2.2 i hi' st.index List.mem_cons_self hk.1.symm
    rw [hst.ofConnection_eq hj, List.flatMap_append, List.flatMap_append, List.flatMap_singleton,
      List.flatMap_singleton, List.flatMap_congr holder, List.append_assoc]
  · have hnone : ∀ i ∈ acceptedOf key (tr ++ out),
        ofStream i tr ++ ofStream i out = ofStream i tr := by
      intro i hi'
      rw [hst.ofStream_nil fun k hk => ?_, List.append_nil]
      obtain ⟨st, hso, rfl⟩ := hst.place (keyed_run hr) hk
      obtain rfl := hplaced'.unique hi' (List.mem_of_getLast? (hplaced.last_step hst hso))
      exact hown ⟨_, hk⟩
    rw [hst.ofConnection_nil fun j hj => hown ⟨j, hj⟩, List.append_nil, List.flatMap_congr hnone]

theorem ofStream_adds (j : ℕ) (tr : List ServerObs) :
    (ofStream j tr).filterMap ServerObs.call? = adds j tr := by
  rw [ofStream, List.filterMap_filter]
  refine List.filterMap_congr fun o _ => ?_
  cases o with
  | callback cb own => cases own <;> simp
  | add => simp [ServerObs.place?]
  | _ => rfl

theorem ofConnection_adds (key : CnxPtr) (tr : List ServerObs) :
    (ofConnection key tr).filterMap ServerObs.call? = addsOn key tr := by
  rw [ofConnection, List.filterMap_filter, addsOn]
  refine List.filterMap_congr fun o _ => ?_
  cases o with
  | callback cb own => cases own <;> simp
  | add => simp [ServerObs.place?]
  | _ => rfl

/-- The calls on a connection are those for its streams, one stream after the other. -/
theorem addsOn_run {es : List ServerEvent} (hr : machine.run init es = some (s, tr))
    (key : CnxPtr) : addsOn key tr = (acceptedOf key tr).flatMap fun j => adds j tr := by
  rw [← ofConnection_adds, order_run hr, List.filterMap_flatMap]
  simp only [ofStream_adds]

theorem ofStream_callbacks (j : ℕ) (tr : List ServerObs) :
    (ofStream j tr).filterMap ServerObs.event? = callbacks j tr := by
  rw [ofStream, List.filterMap_filter]
  refine List.filterMap_congr fun o _ => ?_
  cases o with
  | callback cb own => cases own <;> simp [ServerObs.place?]
  | _ => simp

theorem ofConnection_callbacks (key : CnxPtr) (tr : List ServerObs) :
    ((ofConnection key tr).filterMap ServerObs.event?).Sublist (callbacksOf key tr) := by
  have heq : (ofConnection key tr).filterMap ServerObs.event? =
      (ofConnection key tr).filterMap (ServerObs.callbackFrom? key) := by
    refine List.filterMap_congr fun o ho => ?_
    obtain ⟨-, j, hp⟩ := mem_ofConnection.mp ho
    cases o with
    | callback cb own =>
      cases own with
      | none => cases hp
      | some i => simp [(Prod.mk.inj (Option.some.inj hp)).2]
    | _ => rfl
  rw [heq]
  exact List.Sublist.filterMap _ List.filter_sublist

/-- The events about the streams of a connection came on it, those of each stream together. -/
theorem callbacksOf_run {es : List ServerEvent} (hr : machine.run init es = some (s, tr))
    (key : CnxPtr) :
    ((acceptedOf key tr).flatMap fun j => callbacks j tr).Sublist (callbacksOf key tr) := by
  refine List.Sublist.trans ?_ (ofConnection_callbacks key tr)
  rw [order_run hr, List.filterMap_flatMap]
  simp only [ofStream_callbacks]
  exact List.Sublist.refl _

/-- The event is about stream `j` if it comes on the connection, and about no other one's. -/
def Belongs (key : CnxPtr) (j : ℕ) (s : Server) : ServerEvent → Prop
  | .stream cb => ∀ i ∈ s.ownStream cb, i = j ↔ cb.cnx = key
  | _ => True

instance Belongs.decidable (key : CnxPtr) (j : ℕ) (s : Server) : ∀ e, Decidable (s.Belongs key j e)
  | .stream cb => inferInstanceAs (Decidable (∀ i ∈ s.ownStream cb, _))
  | .app _ _ | .accept | .loop _ _ _ | .resume _ => .isTrue trivial

theorem Step.accepts_belongs (h : Step s e s' out) (hg : s.Belongs key j e) {i : ℕ} {k : CnxPtr}
    (hi : i ∈ acceptedOf k out) : i = j ↔ k = key := by
  obtain ⟨ha, -⟩ | ⟨cb, rfl, rfl, -, hown, ha, -⟩ := h.accepts k
  · rw [ha] at hi
    cases hi
  · rw [ha, List.mem_singleton] at hi
    subst hi
    exact hg _ hown

/-- Where that holds of all events, the connection has no other stream, and no other one has `j`. -/
theorem accepted_run {es : List ServerEvent} (hr : machine.run init es = some (s, tr))
    (hg : machine.Along (Belongs key j) init es) :
    ∀ {i k}, i ∈ acceptedOf k tr → (i = j ↔ k = key) := by
  refine Machine.run_trace (fun (_ : Server) tr =>
    ∀ {i k}, i ∈ acceptedOf k tr → (i = j ↔ k = key)) ?_ hr hg nofun
  intro s tr e s' out hi hk hs i k hm
  rw [acceptedOf_append] at hm
  exact (List.mem_append.mp hm).elim hi ((step_cases hs).accepts_belongs hk)

/-- And the calls on the connection are those for the stream. -/
theorem belongs_run {es : List ServerEvent} (hr : machine.run init es = some (s, tr))
    (hg : machine.Along (Belongs key j) init es) : addsOn key tr = adds j tr := by
  rw [← ofConnection_adds, ← ofStream_adds, ofConnection, ofStream]
  refine congrArg _ (List.filter_congr fun o ho => ?_)
  cases hp : o.place? with
  | none => rfl
  | some p =>
    have hm := (placed_run hr).place (List.mem_filterMap.mpr ⟨o, ho, hp⟩)
    simp [accepted_run hr hg hm]

/-- Nothing is seen of a stream that is not there yet. -/
theorem bridgeTrace_run {es : List ServerEvent} (hr : machine.run init es = some (s, tr))
    (hj : s.streams.length ≤ j) : bridgeTrace j tr = [] := by
  refine Machine.run_trace (fun (s : Server) tr => s.streams.length ≤ j → bridgeTrace j tr = [])
    ?_ hr (Machine.Along.true _ _) (fun _ => rfl) hj
  intro s tr e s' out hi _ hs hj
  obtain ⟨hj', hn⟩ := (step_cases hs).fresh_trace hj
  rw [bridgeTrace_append, hi hj', hn]
  rfl

/-- So the connection has that stream alone, or none. -/
theorem single_run {es : List ServerEvent} (hr : machine.run init es = some (s, tr))
    (hg : machine.Along (Belongs key j) init es) :
    acceptedOf key tr = [j] ∨ acceptedOf key tr = [] ∧ s.streamOf key = none := by
  have hplaced := placed_run hr
  have hnodup := hplaced.nodup key
  have hall : ∀ i ∈ acceptedOf key tr, i = j := fun i hi => (accepted_run hr hg hi).mpr rfl
  cases ha : acceptedOf key tr with
  | nil =>
    refine .inr ⟨rfl, Option.eq_none_iff_forall_ne_some.mpr fun st hst => ?_⟩
    have hlast := hplaced.last hst
    rw [ha] at hlast
    cases hlast
  | cons i rest =>
    rw [ha] at hall hnodup
    rw [List.forall_mem_cons] at hall
    obtain ⟨rfl, hrest⟩ := hall
    left
    cases rest with
    | nil => rfl
    | cons k rest =>
      obtain rfl := hrest k List.mem_cons_self
      exact absurd List.mem_cons_self (List.nodup_cons.mp hnodup).1

theorem mem_addsOn {c : AddToStream} (h : c ∈ addsOn key tr) :
    c.cnx = key ∧ ∃ j, c ∈ adds j tr := by
  obtain ⟨o, ho, hc⟩ := List.mem_filterMap.mp h
  cases o with
  | add j cnx streamId data setFin ret =>
    simp only [ServerObs.addOn?, Option.ite_none_right_eq_some, Option.some.injEq] at hc
    obtain ⟨rfl, rfl⟩ := hc
    exact ⟨rfl, j, List.mem_filterMap.mpr ⟨_, ho, if_pos rfl⟩⟩
  | _ => cases hc

end Server

/-- What the event brings on the connection, it brings on this stream of it. -/
def ServerEvent.GivesId (key : CnxPtr) (sid : UInt64) : ServerEvent → Prop
  | .stream cb => cb.event = .streamData → cb.cnx = key → cb.streamId = sid
  | _ => True

namespace Server
variable {s s' : Server} {e : ServerEvent} {tr out : List ServerObs} {key : CnxPtr} {sid : UInt64}

theorem Step.streamId (h : Step s e s' out) (hg : e.GivesId key sid)
    (hi : ∀ st, s.streamOf key = some st → st.streamId = sid) :
    ∀ st, s'.streamOf key = some st → st.streamId = sid := by
  intro st hst
  obtain ⟨-, hkept⟩ | ⟨cb, rfl, hc, hn, hown, -, hnew⟩ := h.accepts key
  · exact hi st (hkept hst)
  · rw [hnew, Option.some.injEq] at hst
    subst hst
    obtain ⟨st, hst, -⟩ | ⟨-, ho⟩ := own_cases hown
    · rw [hc, hn] at hst
      cases hst
    · obtain ⟨state, ho⟩ := Option.ne_none_iff_exists'.mp ho
      exact hg (own_of_opened ho).2.1 hc

theorem streamId_run {es : List ServerEvent} (hr : machine.run init es = some (s, tr))
    (hg : machine.Along (fun _ e => e.GivesId key sid) init es) :
    ∀ c ∈ addsOn key tr, c.streamId = sid := by
  refine (Machine.run_trace (fun (s : Server) tr => Keyed s ∧
    (∀ st, s.streamOf key = some st → st.streamId = sid) ∧ ∀ c ∈ addsOn key tr, c.streamId = sid)
    ?_ hr hg ⟨.init, nofun, nofun⟩).2.2
  rintro s tr e s' out ⟨hk, hi, ha⟩ hid hs
  have hst := step_cases hs
  refine ⟨hst.keyed hk, hst.streamId hid hi, fun c hc => ?_⟩
  rw [addsOn_append, List.mem_append] at hc
  refine hc.elim (ha c) fun hc => ?_
  obtain ⟨hkey, j, hc⟩ := mem_addsOn hc
  obtain ⟨st, hso, -, hid⟩ := hst.adds_entry hk hc
  rw [← hid]
  exact hi st (hkey ▸ hso)

end Server
end TransportProxy.Slipstream
