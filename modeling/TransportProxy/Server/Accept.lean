import TransportProxy.Server.Receive

/-! # The stream that a connection opens

The entry of a connection is made by `ready` and gets its stream from the first stream_data event,
which also sends the halves to the acceptor. `Phase` follows one connection whose events are a
`ready`, any number of stream_data events and a stream_fin: as long as no stream_data event has come
nothing was accepted, and after the first one every event of the connection is about the one stream
that it opened.
-/
namespace TransportProxy.Slipstream
open Foundations
set_option autoImplicit false

@[simp] def ServerObs.acceptedBy? (key : CnxPtr) : ServerObs → Option ℕ
  | .accepted k i => if k = key then some i else none
  | _ => none

@[simp] def ServerObs.callbackFrom? (key : CnxPtr) : ServerObs → Option StreamCallback
  | .callback cb _ => if cb.cnx = key then some cb else none
  | _ => none

namespace Server

/-- The streams of a connection that were handed to the acceptor. -/
def acceptedOf (key : CnxPtr) (tr : List ServerObs) : List ℕ :=
  tr.filterMap (ServerObs.acceptedBy? key)

/-- The events of a connection. -/
def callbacksOf (key : CnxPtr) (tr : List ServerObs) : List StreamCallback :=
  tr.filterMap (ServerObs.callbackFrom? key)

section Trace
variable (key : CnxPtr) (o : ServerObs) (t u : List ServerObs)

@[simp] theorem acceptedOf_nil : acceptedOf key [] = [] := rfl

@[simp] theorem acceptedOf_cons :
    acceptedOf key (o :: t) = (o.acceptedBy? key).toList ++ acceptedOf key t :=
  filterMap_cons_toList ..

@[simp] theorem acceptedOf_append :
    acceptedOf key (t ++ u) = acceptedOf key t ++ acceptedOf key u := List.filterMap_append ..

@[simp] theorem callbacksOf_nil : callbacksOf key [] = [] := rfl

@[simp] theorem callbacksOf_cons :
    callbacksOf key (o :: t) = (o.callbackFrom? key).toList ++ callbacksOf key t :=
  filterMap_cons_toList ..

@[simp] theorem callbacksOf_append :
    callbacksOf key (t ++ u) = callbacksOf key t ++ callbacksOf key u := List.filterMap_append ..

@[simp] theorem acceptedOf_map_bridge (i : ℕ) (l : List BridgeObs) :
    acceptedOf key (l.map (.bridge i)) = [] :=
  filterMap_map_none (fun _ => rfl) l

@[simp] theorem callbacksOf_map_bridge (i : ℕ) (l : List BridgeObs) :
    callbacksOf key (l.map (.bridge i)) = [] :=
  filterMap_map_none (fun _ => rfl) l

@[simp] theorem acceptedOf_loopAt (l : List Bridge) (i : ℕ) (op : LoopOp) :
    acceptedOf key (loopAt l i op).2 = [] := by
  unfold loopAt
  cases l[i]? <;> simp

@[simp] theorem callbacksOf_loopAt (l : List Bridge) (i : ℕ) (op : LoopOp) :
    callbacksOf key (loopAt l i op).2 = [] := by
  unfold loopAt
  cases l[i]? <;> simp

end Trace

/-! ## One step and the entry of one connection -/

theorem quiet_of_pushed {s : Server} {cb : StreamCallback} {i : ℕ} {v : Bytes}
    (hv : s.pushed cb = some (i, v)) : s.unlinked cb = none ∧ s.opened cb = none := by
  have hsv := (own_of_pushed hv).2
  constructor
  · apply Option.eq_none_iff_forall_ne_some.mpr
    intro conns hc
    rw [serverPush_of_unlinked hc] at hsv
    cases hsv
  · apply Option.eq_none_iff_forall_ne_some.mpr
    intro state ho
    rw [pushed, streamOf_of_opened ho] at hv
    cases hv

theorem opened_of_unlinked {s : Server} {cb : StreamCallback}
    {conns : AList (fun _ : CnxPtr => ServerConnState)} (hc : s.unlinked cb = some conns) :
    s.opened cb = none := by
  apply Option.eq_none_iff_forall_ne_some.mpr
  intro state ho
  have he := (own_of_opened ho).2.1
  simp [unlinked, he, PicoquicCallBackEvent.closes] at hc

/-- What an event of connection `key` does to its entry. -/
inductive EntryStep (s : Server) (key : CnxPtr) (cb : StreamCallback) (s' : Server)
    (out : List ServerObs) : Prop where
  | unlink (h : s.unlinked cb = some s'.connections) (ha : acceptedOf key out = [])
  | opened {state} (ho : s.opened cb = some state) (ha : acceptedOf key out = [s.streams.length])
      (hc : s'.connections = s.connections.insert cb.cnx
        { state with stream := some ⟨cb.streamId, s.streams.length⟩ })
  | kept (ho : s.opened cb = none) (hu : s.unlinked cb = none)
      (hc : s'.connections = s.connections) (ha : acceptedOf key out = [])

/-- A step is an event of the connection, or leaves its entry alone. -/
theorem Step.entry {s s' : Server} {e : ServerEvent} {out : List ServerObs} (h : Step s e s' out)
    (key : CnxPtr) :
    (callbacksOf key out = [] ∧ acceptedOf key out = [] ∧
      s'.connections.lookup key = s.connections.lookup key ∧
      ∀ cb, e = .stream cb → cb.cnx ≠ key) ∨
    ∃ cb, e = .stream cb ∧ cb.cnx = key ∧ callbacksOf key out = [cb] ∧
      EntryStep s key cb s' out := by
  have hother {cb : StreamCallback} (hk : cb.cnx ≠ key) (hc : s.unlinked cb = some s'.connections) :
      s'.connections.lookup key = s.connections.lookup key := by
    unfold unlinked at hc
    split at hc
    · rw [← Option.some.inj hc, AList.lookup_insert_ne (Ne.symm hk)]
    · split at hc
      · rw [← Option.some.inj hc, AList.lookup_erase_ne (Ne.symm hk)]
      · cases hc
  cases h with
  | @unlink cb conns hp hc | @unlinkStream cb conns st hp hc =>
    by_cases hk : cb.cnx = key
    · exact .inr ⟨cb, rfl, hk, by simp [hk], .unlink hc (by simp)⟩
    · refine .inl ⟨by simp [hk], by simp, hother hk hc, ?_⟩
      rintro _ ⟨⟩
      exact hk
  | @openEmpty cb state hp ho | @openChunk cb state v hp ho =>
    by_cases hk : cb.cnx = key
    · exact .inr ⟨cb, rfl, hk, by simp [hk], .opened ho (by simp [hk]) rfl⟩
    · refine .inl ⟨by simp [hk], by simp [hk], AList.lookup_insert_ne (Ne.symm hk), ?_⟩
      rintro _ ⟨⟩
      exact hk
  | @push cb i v hp hv =>
    obtain ⟨hu, ho⟩ := quiet_of_pushed hv
    by_cases hk : cb.cnx = key
    · exact .inr ⟨cb, rfl, hk, by simp [hk], .kept ho hu rfl (by simp)⟩
    · refine .inl ⟨by simp [hk], by simp, rfl, ?_⟩
      rintro _ ⟨⟩
      exact hk
  | @ignored cb hp hu ho hv =>
    by_cases hk : cb.cnx = key
    · exact .inr ⟨cb, rfl, hk, by simp [hk], .kept ho hu rfl (by simp)⟩
    · refine .inl ⟨by simp [hk], by simp, rfl, ?_⟩
      rintro _ ⟨⟩
      exact hk
  | noop hp hm ho => obtain rfl | rfl | ⟨d, rfl⟩ := ho <;> exact .inl ⟨rfl, rfl, rfl, nofun⟩
  | _ => exact .inl ⟨by simp, by simp, rfl, nofun⟩

/-! ## Which stream an event is about -/

theorem own_cases {s : Server} {cb : StreamCallback} {j : ℕ} (h : s.ownStream cb = some j) :
    (∃ st, s.streamOf cb.cnx = some st ∧ st.index = j) ∨
      (j = s.streams.length ∧ s.opened cb ≠ none) := by
  unfold ownStream at h
  cases hl : s.connections.lookup cb.cnx with
  | none => simp [hl] at h
  | some state =>
    cases hst : state.stream with
    | none =>
      simp only [hl, hst, Option.ite_none_right_eq_some, Option.some.injEq] at h
      exact .inr ⟨h.2.symm, by simp [opened, h.1, hl, hst]⟩
    | some st =>
      simp only [hl, hst, Option.ite_none_right_eq_some, Option.some.injEq] at h
      exact .inl ⟨st, by simp [streamOf, hl, hst], h.2⟩

/-- An event that does not open a stream is about an older one. -/
theorem Linked.own_lt {s : Server} (h : Linked s) {cb : StreamCallback} {j : ℕ}
    (ho : s.opened cb = none) (hj : s.ownStream cb = some j) : j < s.streams.length := by
  obtain ⟨st, hs, rfl⟩ | ⟨-, hn⟩ := own_cases hj
  · exact h.lt hs
  · exact absurd ho hn

theorem Step.fresh {s s' : Server} {e : ServerEvent} {out : List ServerObs} {j : ℕ}
    (h : Step s e s' out) (hl : Linked s) (hj : s'.streams.length ≤ j) :
    s.streams.length ≤ j ∧ s.about j e = none := by
  have hold {cb : StreamCallback} (ho : s.opened cb = none) (hj : s.streams.length ≤ j) :
      s.about j (.stream cb) = none := by
    apply if_neg
    intro hown
    have := hl.own_lt ho hown
    omega
  cases h with
  | openEmpty hp ho | openChunk hp ho =>
    have hlt : s.streams.length + 1 ≤ j := by simpa using hj
    have hown := (own_of_opened ho).1
    refine ⟨by omega, if_neg ?_⟩
    rw [hown, Option.some.injEq]
    omega
  | unlink hp hc => exact ⟨hj, hold (opened_of_unlinked hc) hj⟩
  | unlinkStream hp hc =>
    have hj' : s.streams.length ≤ j := by simpa using hj
    exact ⟨hj', hold (opened_of_unlinked hc) hj'⟩
  | push hp hv =>
    have hj' : s.streams.length ≤ j := by simpa using hj
    exact ⟨hj', hold (quiet_of_pushed hv).2 hj'⟩
  | ignored hp hu ho => exact ⟨hj, hold ho hj⟩
  | _ => exact ⟨by simpa using hj, rfl⟩

theorem bridgeTrace_loopAt_fresh {l : List Bridge} {j : ℕ} (hj : l.length ≤ j) (i : ℕ)
    (op : LoopOp) : bridgeTrace j (loopAt l i op).2 = [] := by
  by_cases hij : i = j
  · subst hij
    simp [loopAt, hj]
  · exact (loopAt_ne op hij).2

/-- Nothing is seen of a stream before it is opened. -/
theorem Step.fresh_trace {s s' : Server} {e : ServerEvent} {out : List ServerObs} {j : ℕ}
    (h : Step s e s' out) (hj : s'.streams.length ≤ j) :
    s.streams.length ≤ j ∧ bridgeTrace j out = [] := by
  cases h with
  | @app i op b b' bout hb ha hop =>
    have hlen : s.streams.length ≤ j := by simpa using hj
    have hlt := (getD_of_getElem? hb).2
    exact ⟨hlen, bridgeTrace_map_ne j (by omega) _⟩
  | @drained ret now todo b data hp hb hd =>
    have hlen : s.streams.length ≤ j := by simpa using hj
    have hlt := (getD_of_getElem? hb).2
    have hne : now.2.index ≠ j := by omega
    exact ⟨hlen, by simp [hne]⟩
  | openEmpty | openChunk =>
    have hlen : s.streams.length + 1 ≤ j := by simpa using hj
    exact ⟨by omega, by simp⟩
  | noop hp hm ho => exact ⟨hj, by obtain rfl | rfl | ⟨d, rfl⟩ := ho <;> rfl⟩
  | unlinkStream | push | firstChunk | token | dropSendRx | dropWakeTx =>
    have hlen : s.streams.length ≤ j := by simpa using hj
    exact ⟨hlen, by simp [bridgeTrace_loopAt_fresh hlen]⟩
  | _ => exact ⟨hj, by simp⟩

/-! ## One connection from `ready` to stream_fin -/

/-- The events of the connection `key`: `rdy`, then `datas`, then `fin`, of one stream. -/
structure Script (sid : UInt64) (rdy : StreamCallback) (datas : List StreamCallback)
    (fin : StreamCallback) : Prop where
  isReady : rdy.event = .ready
  isData : ∀ cb ∈ datas, cb.event = .streamData
  isFin : fin.event = .streamFin
  ids : ∀ cb ∈ datas ++ [fin], cb.streamId = sid

/-- Where such a connection stands. -/
inductive Phase (key : CnxPtr) (sid : UInt64) (rdy : StreamCallback) (s : Server)
    (tr : List ServerObs) : Prop where
  | before (hc : callbacksOf key tr = []) (ha : acceptedOf key tr = [])
  | ready (evs : List StreamCallback) (cnx : CnxPtr) (hc : callbacksOf key tr = rdy :: evs)
      (ha : acceptedOf key tr = [])
      (hl : s.connections.lookup key = some ⟨cnx, none⟩)
      (he : ∀ cb ∈ evs, cb.event ≠ .streamData)
  | opened (evs : List StreamCallback) (i : ℕ) (cnx : CnxPtr)
      (hc : callbacksOf key tr = rdy :: evs) (ha : acceptedOf key tr = [i])
      (hl : s.connections.lookup key = some ⟨cnx, some ⟨sid, i⟩⟩) (he : callbacks i tr = evs)
      (hd : ∃ cb ∈ evs, cb.event = .streamData)

variable {key : CnxPtr} {sid : UInt64} {rdy fin : StreamCallback} {datas : List StreamCallback}

/-- As long as no data has come, the next event is the first of the stream. -/
theorem Script.next {evs : List StreamCallback} {cb : StreamCallback}
    (h : Script sid rdy datas fin) (he : ∀ cb ∈ evs, cb.event ≠ .streamData)
    (hp : evs ++ [cb] <+: datas ++ [fin]) :
    evs = [] ∧ (cb = fin ∨ cb ∈ datas) := by
  obtain ⟨rest, hr⟩ := hp
  cases datas with
  | nil =>
    cases evs with
    | nil => exact ⟨rfl, .inl (List.cons.inj hr).1⟩
    | cons d evs =>
      have hl := congrArg List.length hr
      simp at hl
  | cons d ds =>
    cases evs with
    | nil => exact ⟨rfl, .inr (by rw [(List.cons.inj hr).1]; exact List.mem_cons_self)⟩
    | cons c evs =>
      have hc : c = d := (List.cons.inj hr).1
      apply absurd (h.isData d List.mem_cons_self)
      rw [← hc]
      exact he c List.mem_cons_self

/-- An event of an open stream is about it and leaves its entry alone. -/
theorem own_of_lookup {s : Server} {cb : StreamCallback} {cnx : CnxPtr} {i : ℕ}
    (hl : s.connections.lookup cb.cnx = some ⟨cnx, some ⟨cb.streamId, i⟩⟩) :
    s.ownStream cb = some i ∧ s.opened cb = none := by
  simp [ownStream, opened, hl]

theorem Script.quiet (h : Script sid rdy datas fin) {cb : StreamCallback}
    (hcb : cb ∈ datas ++ [fin]) (s : Server) : s.unlinked cb = none := by
  rw [List.mem_append, List.mem_singleton] at hcb
  have he : cb.event = .streamData ∨ cb.event = .streamFin := by
    obtain hcb | rfl := hcb
    · exact .inl (h.isData cb hcb)
    · exact .inr h.isFin
  obtain he | he := he <;> simp [unlinked, he, PicoquicCallBackEvent.closes]

/-- A step that is not about the connection. -/
theorem Phase.other {s s' : Server} {e : ServerEvent} {tr out : List ServerObs}
    (hi : Phase key sid rdy s tr) (hl : Linked s) (hs : Step s e s' out)
    (hc₀ : callbacksOf key out = []) (ha₀ : acceptedOf key out = [])
    (hl₀ : s'.connections.lookup key = s.connections.lookup key)
    (hne : ∀ cb, e = .stream cb → cb.cnx ≠ key) : Phase key sid rdy s' (tr ++ out) := by
  cases hi with
  | before hc ha => exact .before (by simp [hc, hc₀]) (by simp [ha, ha₀])
  | ready evs cnx hc ha hlk he =>
    exact .ready evs cnx (by simp [hc, hc₀]) (by simp [ha, ha₀]) (by rw [hl₀, hlk]) he
  | opened evs i cnx hc ha hlk he hd =>
    refine .opened evs i cnx (by simp [hc, hc₀]) (by simp [ha, ha₀]) (by rw [hl₀, hlk]) ?_ hd
    have hst : s.streamOf key = some ⟨sid, i⟩ := by simp [streamOf, hlk]
    have hn : s.about i e = none := by
      cases e with
      | stream cb =>
        apply if_neg
        intro hown
        obtain ⟨st, hst', hi⟩ | ⟨hi, -⟩ := own_cases hown
        · exact hne cb rfl (hl.inj hst' hst hi)
        · exact absurd (hl.lt hst) (by rw [hi]; exact Nat.lt_irrefl _)
      | _ => rfl
    rw [callbacks_append, he, hs.callbacks, hn]
    simp

/-- The first event of the connection is `rdy`. -/
theorem Phase.first {s s' : Server} {cb : StreamCallback} {tr out : List ServerObs}
    (h : Script sid rdy datas fin) (hc : callbacksOf cb.cnx tr = [])
    (ha : acceptedOf cb.cnx tr = []) (hc₁ : callbacksOf cb.cnx out = [cb])
    (hentry : EntryStep s cb.cnx cb s' out)
    (hp : callbacksOf cb.cnx tr ++ [cb] <+: rdy :: (datas ++ [fin])) :
    Phase cb.cnx sid rdy s' (tr ++ out) := by
  rw [hc, List.nil_append] at hp
  obtain ⟨rest, hr⟩ := hp
  have hcb : cb = rdy := (List.cons.inj hr).1
  have he : cb.event = .ready := by rw [hcb, h.isReady]
  cases hentry with
  | opened ho =>
    rw [(own_of_opened ho).2.1] at he
    cases he
  | kept ho hu => simp [unlinked, he] at hu
  | unlink hu ha' =>
    simp only [unlinked, he, if_true, Option.some.injEq] at hu
    exact .ready [] cb.cnx (by rw [callbacksOf_append, hc, hc₁, hcb]; rfl) (by simp [ha, ha'])
      (by rw [← hu, AList.lookup_insert]) (by simp)

/-- The first event after that opens the stream, unless it is the fin. -/
theorem Phase.second {s s' : Server} {cb : StreamCallback} {tr out : List ServerObs} {cnx : CnxPtr}
    {evs : List StreamCallback} (h : Script sid rdy datas fin)
    (hf : ∀ j, s.streams.length ≤ j → callbacks j tr = []) (hs : Step s (.stream cb) s' out)
    (hc : callbacksOf cb.cnx tr = rdy :: evs) (ha : acceptedOf cb.cnx tr = [])
    (hlk : s.connections.lookup cb.cnx = some ⟨cnx, none⟩)
    (he : ∀ cb ∈ evs, cb.event ≠ .streamData) (hc₁ : callbacksOf cb.cnx out = [cb])
    (hentry : EntryStep s cb.cnx cb s' out)
    (hp : callbacksOf cb.cnx tr ++ [cb] <+: rdy :: (datas ++ [fin])) :
    Phase cb.cnx sid rdy s' (tr ++ out) := by
  rw [hc, List.cons_append, List.cons_prefix_cons] at hp
  obtain ⟨rfl, hcb⟩ := h.next he hp.2
  have hq := h.quiet (by simpa [or_comm] using hcb) s
  cases hentry with
  | unlink hu =>
    rw [hq] at hu
    cases hu
  | @opened state ho ha' hc' =>
    obtain ⟨hown, hev, hlk'⟩ := own_of_opened ho
    have hid := h.ids cb (by simpa [or_comm] using hcb)
    refine .opened [cb] s.streams.length state.cnx (by simp [hc, hc₁]) (by simp [ha, ha'])
      (by rw [hc', AList.lookup_insert, hid]) ?_ ⟨cb, List.mem_cons_self, hev⟩
    rw [callbacks_append, hf _ (Nat.le_refl _), hs.callbacks, about, if_pos hown]
    rfl
  | kept ho hu hc' ha' =>
    refine .ready [cb] cnx (by simp [hc, hc₁]) (by simp [ha, ha']) (by rw [hc', hlk]) ?_
    intro d hd hev
    rw [List.mem_singleton] at hd
    subst hd
    simp [Server.opened, hev, hlk] at ho

/-- Every later event is about the open stream. -/
theorem Phase.later {s s' : Server} {cb : StreamCallback} {tr out : List ServerObs} {cnx : CnxPtr}
    {i : ℕ} {evs : List StreamCallback} (h : Script sid rdy datas fin)
    (hs : Step s (.stream cb) s' out) (hc : callbacksOf cb.cnx tr = rdy :: evs)
    (ha : acceptedOf cb.cnx tr = [i])
    (hlk : s.connections.lookup cb.cnx = some ⟨cnx, some ⟨sid, i⟩⟩) (he : callbacks i tr = evs)
    (hd : ∃ cb ∈ evs, cb.event = .streamData) (hc₁ : callbacksOf cb.cnx out = [cb])
    (hentry : EntryStep s cb.cnx cb s' out)
    (hp : callbacksOf cb.cnx tr ++ [cb] <+: rdy :: (datas ++ [fin])) :
    Phase cb.cnx sid rdy s' (tr ++ out) := by
  rw [hc, List.cons_append, List.cons_prefix_cons] at hp
  have hcb : cb ∈ datas ++ [fin] := hp.2.subset (by simp)
  have hid := h.ids cb hcb
  subst hid
  obtain ⟨hown, ho⟩ := own_of_lookup hlk
  cases hentry with
  | unlink hu =>
    rw [h.quiet hcb] at hu
    cases hu
  | opened ho' =>
    rw [ho] at ho'
    cases ho'
  | kept _ _ hc' ha' =>
    refine .opened (evs ++ [cb]) i cnx (by simp [hc, hc₁]) (by simp [ha, ha'])
      (by rw [hc', hlk]) ?_ ?_
    · rw [callbacks_append, he, hs.callbacks]
      simp [about, hown]
    · obtain ⟨d, hd, hde⟩ := hd
      exact ⟨d, List.mem_append_left _ hd, hde⟩

theorem Phase.step {s s' : Server} {e : ServerEvent} {tr out : List ServerObs}
    (hi : Phase key sid rdy s tr) (h : Script sid rdy datas fin) (hl : Linked s)
    (hf : ∀ j, s.streams.length ≤ j → callbacks j tr = []) (hs : Step s e s' out)
    (hp : callbacksOf key (tr ++ out) <+: rdy :: (datas ++ [fin])) :
    Phase key sid rdy s' (tr ++ out) := by
  rw [callbacksOf_append] at hp
  obtain ⟨hc₀, ha₀, hl₀, hne⟩ | ⟨cb, rfl, rfl, hc₁, hentry⟩ := hs.entry key
  · exact hi.other hl hs hc₀ ha₀ hl₀ hne
  · rw [hc₁] at hp
    cases hi with
    | before hc ha => exact .first h hc ha hc₁ hentry hp
    | ready evs cnx hc ha hlk he => exact .second h hf hs hc ha hlk he hc₁ hentry hp
    | opened evs i cnx hc ha hlk he hd => exact .later h hs hc ha hlk he hd hc₁ hentry hp

theorem phase_run {es : List ServerEvent} {s : Server} {tr : List ServerObs}
    (hr : machine.run init es = some (s, tr)) (h : Script sid rdy datas fin)
    (hc : callbacksOf key tr = rdy :: (datas ++ [fin])) : Phase key sid rdy s tr := by
  refine (Machine.run_trace (fun (s : Server) tr => (Linked s ∧
    ∀ j, s.streams.length ≤ j → callbacks j tr = []) ∧
    (callbacksOf key tr <+: rdy :: (datas ++ [fin]) → Phase key sid rdy s tr)) ?_ hr
    (Machine.Along.true _ _) ⟨⟨.init, fun _ _ => rfl⟩, fun _ => .before rfl rfl⟩).2
    (by rw [hc])
  intro s tr e s' out hi _ hs
  have hst := step_cases hs
  refine ⟨⟨hst.linked hi.1.1, fun j hj => ?_⟩, fun hp => ?_⟩
  · obtain ⟨hj', hn⟩ := hst.fresh hi.1.1 hj
    rw [callbacks_append, hst.callbacks, hi.1.2 j hj', hn]
    rfl
  · refine (hi.2 (List.IsPrefix.trans ?_ hp)).step h hi.1.1 hi.1.2 hst hp
    rw [callbacksOf_append]
    exact List.prefix_append _ _

end Server
end TransportProxy.Slipstream
