import TransportProxy.Foundations.Restrict
import TransportProxy.Server.Accept

/-! # Connections do not interfere

A run of the server is compared with the run that keeps one connection: its events, the operations
on its halves, and the drains. `only` is the server as that connection sees it, with the streams
that it opened numbered from zero, and one step of the server is one step of `only`, or none.
-/
namespace TransportProxy.Slipstream
open Foundations
set_option autoImplicit false

/-! ## The part of one connection

`mine` lists the streams that the connection has opened. -/

section Only
variable (key : CnxPtr) (mine : List ℕ)

def ServerStream.renumber (st : ServerStream) : ServerStream :=
  ⟨st.streamId, mine.idxOf st.index⟩

def ServerConnState.renumber (state : ServerConnState) : ServerConnState :=
  ⟨state.cnx, state.stream.map (·.renumber mine)⟩

def todoOf (todo : List (CnxPtr × ServerStream)) : List (CnxPtr × ServerStream) :=
  (todo.filter fun t => t.1 = key).map fun t => (t.1, t.2.renumber mine)

def ServerPc.only : ServerPc → ServerPc
  | .idle => .idle
  | .firstData i v => if i ∈ mine then .firstData (mine.idxOf i) v else .idle
  | .drain todo => .drain (todoOf key mine todo)
  | .wake now todo =>
    if now.1 = key then .wake (now.1, now.2.renumber mine) (todoOf key mine todo)
    else .drain (todoOf key mine todo)
  | .dropSendRx i => if i ∈ mine then .dropSendRx (mine.idxOf i) else .idle
  | .dropWakeTx i => if i ∈ mine then .dropWakeTx (mine.idxOf i) else .idle

/-- The packet loop is busy with the connection, or at the end of a drain. -/
def ServerPc.involves : ServerPc → Bool
  | .idle => false
  | .firstData i _ | .dropSendRx i | .dropWakeTx i => i ∈ mine
  | .drain [] => true
  | .drain (now :: _) | .wake now _ => now.1 = key

def entryOnly (connections : AList (fun _ : CnxPtr => ServerConnState)) :
    AList (fun _ : CnxPtr => ServerConnState) :=
  match connections.lookup key with
  | none => ∅
  | some state => AList.singleton key (state.renumber mine)

def pick (l : List Bridge) : List Bridge := mine.map fun i => l.getD i .new

def Server.only (s : Server) : Server where
  connections := entryOnly key mine s.connections
  streams := pick mine s.streams
  acceptQ := (s.acceptQ.filter (· ∈ mine)).map mine.idxOf
  pc := s.pc.only key mine

@[simp] def ServerObs.addFor? : ServerObs → Option (UInt64 × Bytes × ℤ × ℤ)
  | .add _ cnx sid data fin ret => if cnx = key then some (sid, data, fin, ret) else none
  | _ => none

/-- The calls of `picoquic_add_to_stream` for a connection, with their results. -/
def Server.addsOf (tr : List ServerObs) : List (UInt64 × Bytes × ℤ × ℤ) :=
  tr.filterMap (ServerObs.addFor? key)

/-- What the run with one connection makes of an event. -/
def Server.keep (s : Server) : ServerEvent → Option ServerEvent
  | .app i op => if i ∈ mine then some (.app (mine.idxOf i) op) else none
  | .accept => if ∃ i ∈ s.acceptQ.head?, i ∈ mine then some .accept else none
  | .stream cb => if cb.cnx = key then some (.stream cb) else none
  | .loop cbMode arg order => some (.loop cbMode arg (order.filter (· = key)))
  | .resume ret => if s.pc.involves key mine then some (.resume ret) else none

/-- The events of a run that concern one connection, and the drains. -/
def Server.eventsOf (es : List ServerEvent) : List ServerEvent :=
  machine.kept (fun s tr => s.keep key (acceptedOf key tr)) init [] es

def Server.readies (tr : List ServerObs) : ℕ :=
  (callbacksOf key tr).countP fun cb => cb.event = .ready

end Only

namespace Server
variable {key : CnxPtr} {mine : List ℕ}

section Trace
variable (o : ServerObs) (t u : List ServerObs)

@[simp] theorem addsOf_nil : addsOf key [] = [] := rfl

@[simp] theorem addsOf_cons : addsOf key (o :: t) = (o.addFor? key).toList ++ addsOf key t :=
  filterMap_cons_toList ..

@[simp] theorem addsOf_append : addsOf key (t ++ u) = addsOf key t ++ addsOf key u :=
  List.filterMap_append ..

@[simp] theorem addsOf_map_bridge (i : ℕ) (l : List BridgeObs) :
    addsOf key (l.map (.bridge i)) = [] :=
  filterMap_map_none (fun _ => rfl) l

@[simp] theorem addsOf_loopAt (l : List Bridge) (i : ℕ) (op : LoopOp) :
    addsOf key (loopAt l i op).2 = [] := by
  unfold loopAt
  cases l[i]? <;> simp

end Trace

/-! ## The bridges of one connection -/

section Pick
variable {l : List Bridge} {i : ℕ}

theorem pick_getElem? (hi : i ∈ mine) (hlt : i < l.length) :
    (pick mine l)[mine.idxOf i]? = l[i]? := by
  have h := List.idxOf_lt_length_of_mem hi
  rw [pick, List.getElem?_map, List.getElem?_eq_getElem h, List.getElem_idxOf]
  simp [hlt]

theorem pick_set (hn : mine.Nodup) (hlt : ∀ j ∈ mine, j < l.length) (hi : i ∈ mine) (b : Bridge) :
    pick mine (l.set i b) = (pick mine l).set (mine.idxOf i) b := by
  apply List.ext_getElem (by simp [pick])
  intro n h₁ h₂
  have hm : n < mine.length := by simpa [pick] using h₁
  rw [List.getElem_set]
  by_cases he : mine.idxOf i = n
  · have hni : mine[n] = i := by
      subst he
      exact List.getElem_idxOf _
    rw [if_pos he]
    simp only [pick, List.getElem_map, hni]
    exact getD_set_self (hlt i hi) b
  · have hni : i ≠ mine[n] := by
      intro h
      apply he
      rw [h]
      exact hn.idxOf_getElem n hm
    rw [if_neg he]
    simp only [pick, List.getElem_map]
    exact getD_set_ne hni b

theorem pick_set_of_notMem (hi : i ∉ mine) (b : Bridge) : pick mine (l.set i b) = pick mine l := by
  apply List.map_congr_left
  intro j hj
  exact getD_set_ne (fun h => hi (by rwa [h])) b

theorem pick_append_new : pick mine (l ++ [.new]) = pick mine l :=
  List.map_congr_left fun j _ => getD_append_new l j

theorem pick_open :
    pick (mine ++ [l.length]) (l ++ [.new]) = pick mine l ++ [.new] := by
  rw [pick, List.map_append]
  congr 1
  · exact pick_append_new
  · simp

end Pick

/-! ## What the two traces have in common -/

/-- The same calls, and the same seen of each stream of the connection. -/
structure Matches (key : CnxPtr) (mine : List ℕ) (tr tr' : List ServerObs) : Prop where
  adds : addsOf key tr' = addsOf key tr
  traces : ∀ n, bridgeTrace n tr' = (mine[n]?).elim [] fun i => bridgeTrace i tr

namespace Matches
variable {tr tr' out out' : List ServerObs}

theorem nil : Matches key mine [] [] := by
  refine ⟨rfl, fun n => ?_⟩
  cases mine[n]? <;> rfl

theorem append (h : Matches key mine tr tr') (h' : Matches key mine out out') :
    Matches key mine (tr ++ out) (tr' ++ out') := by
  refine ⟨by rw [addsOf_append, addsOf_append, h.adds, h'.adds], fun n => ?_⟩
  rw [bridgeTrace_append, h.traces, h'.traces]
  cases mine[n]? with
  | none => rfl
  | some i => exact (bridgeTrace_append ..).symm

/-- Neither a call nor a step of a bridge. -/
theorem quiet (ha : addsOf key out = []) (ha' : addsOf key out' = [])
    (hb : ∀ i ∈ mine, bridgeTrace i out = []) (hb' : ∀ n, bridgeTrace n out' = []) :
    Matches key mine out out' := by
  refine ⟨by rw [ha, ha'], fun n => ?_⟩
  rw [hb' n]
  cases hm : mine[n]? with
  | none => rfl
  | some i => exact (hb i (List.mem_of_getElem? hm)).symm

/-- What is neither a call nor a step of a bridge may be left out on either side. -/
theorem skip {o : ServerObs} (ha : o.addFor? key = none) (hb : ∀ i, o.bridge? i = none)
    (h : Matches key mine out out') : Matches key mine (o :: out) out' := by
  have ho : Matches key mine [o] [] :=
    .quiet (by rw [addsOf_cons, ha]; rfl) rfl (fun i _ => by rw [bridgeTrace_cons, hb]; rfl)
      fun _ => rfl
  exact ho.append h

theorem skip_right {o : ServerObs} (ha : o.addFor? key = none) (hb : ∀ i, o.bridge? i = none)
    (h : Matches key mine out out') : Matches key mine out (o :: out') := by
  have ho : Matches key mine [] [o] :=
    .quiet rfl (by rw [addsOf_cons, ha]; rfl) (fun _ _ => rfl) fun i => by
      rw [bridgeTrace_cons, hb]
      rfl
  exact ho.append h

theorem callback {cb : StreamCallback} {own own' : Option ℕ} (h : Matches key mine out out') :
    Matches key mine (.callback cb own :: out) (.callback cb own' :: out') :=
  .skip rfl (fun _ => rfl) (.skip_right rfl (fun _ => rfl) h)

theorem returned {code : ℤ} : Matches key mine [.returned code] [.returned code] :=
  .skip rfl (fun _ => rfl) (.skip_right rfl (fun _ => rfl) .nil)

/-- A stream about which nothing was seen yet. -/
theorem extend (h : Matches key mine tr tr') {new : List ℕ}
    (hn : ∀ i ∈ new, bridgeTrace i tr = []) : Matches key (mine ++ new) tr tr' := by
  refine ⟨h.adds, fun n => ?_⟩
  rw [h.traces, List.getElem?_append]
  split
  · rfl
  · rename_i hlt
    rw [List.getElem?_eq_none (Nat.le_of_not_lt hlt)]
    cases hm : new[n - mine.length]? with
    | none => rfl
    | some i => exact (hn i (List.mem_of_getElem? hm)).symm

theorem bridge (hn : mine.Nodup) {i : ℕ} (hi : i ∈ mine) (l : List BridgeObs) :
    Matches key mine (l.map (.bridge i)) (l.map (.bridge (mine.idxOf i))) := by
  refine ⟨by rw [addsOf_map_bridge, addsOf_map_bridge], fun n => ?_⟩
  by_cases he : mine.idxOf i = n
  · subst he
    rw [bridgeTrace_map_self, List.getElem?_eq_getElem (List.idxOf_lt_length_of_mem hi),
      List.getElem_idxOf]
    exact (bridgeTrace_map_self ..).symm
  · rw [bridgeTrace_map_ne n he]
    cases hm : mine[n]? with
    | none => rfl
    | some j =>
      obtain ⟨hlt, rfl⟩ := List.getElem?_eq_some_iff.mp hm
      refine (bridgeTrace_map_ne _ ?_ l).symm
      intro h
      apply he
      rw [h]
      exact hn.idxOf_getElem n hlt

end Matches

theorem loopAt_pick (key : CnxPtr) {l : List Bridge} {i : ℕ} (op : LoopOp) (hn : mine.Nodup)
    (hlt : ∀ j ∈ mine, j < l.length) (hi : i ∈ mine) :
    (loopAt (pick mine l) (mine.idxOf i) op).1 = pick mine (loopAt l i op).1 ∧
      Matches key mine (loopAt l i op).2 (loopAt (pick mine l) (mine.idxOf i) op).2 := by
  unfold loopAt
  rw [pick_getElem? hi (hlt i hi), List.getElem?_eq_getElem (hlt i hi)]
  exact ⟨(pick_set hn hlt hi _).symm, .bridge hn hi _⟩

theorem loopAt_not_picked (key : CnxPtr) (l : List Bridge) {i : ℕ} (op : LoopOp) (hi : i ∉ mine) :
    pick mine (loopAt l i op).1 = pick mine l ∧ Matches key mine (loopAt l i op).2 [] := by
  constructor
  · unfold loopAt
    cases l[i]? with
    | none => rfl
    | some b => exact pick_set_of_notMem hi _
  · refine .quiet (addsOf_loopAt ..) rfl (fun j hj => ?_) fun _ => rfl
    exact (loopAt_ne op fun h => hi (by rwa [h])).2

/-! ## The entry of one connection -/

section Entry
variable {c : AList (fun _ : CnxPtr => ServerConnState)} {state : ServerConnState}

theorem lookup_entryOnly :
    (entryOnly key mine c).lookup key = (c.lookup key).map (·.renumber mine) := by
  unfold entryOnly
  cases c.lookup key with
  | none => rfl
  | some state =>
    have h : (AList.insert key (state.renumber mine)
        (∅ : AList fun _ : CnxPtr => ServerConnState)).lookup key = some (state.renumber mine) :=
      AList.lookup_insert _
    rwa [AList.insert_empty] at h

theorem entryOnly_congr {c' : AList (fun _ : CnxPtr => ServerConnState)}
    (h : c'.lookup key = c.lookup key) : entryOnly key mine c' = entryOnly key mine c := by
  rw [entryOnly, h, entryOnly]

theorem entryOnly_insert : entryOnly key mine (c.insert key state) =
    (entryOnly key mine c).insert key (state.renumber mine) := by
  rw [entryOnly, AList.lookup_insert, entryOnly]
  cases c.lookup key with
  | none => exact (AList.insert_empty ..).symm
  | some state => exact AList.insert_singleton_eq.symm

theorem entryOnly_erase :
    entryOnly key mine (c.erase key) = (entryOnly key mine c).erase key := by
  rw [entryOnly, AList.lookup_erase, entryOnly]
  cases c.lookup key with
  | none => rfl
  | some state =>
    apply AList.ext
    show [] = List.kerase key [(⟨key, state.renumber mine⟩ : Sigma fun _ => ServerConnState)]
    simp

theorem keys_entryOnly {order : List CnxPtr} (ho : order.Perm c.keys) :
    (order.filter (· = key)).Perm (entryOnly key mine c).keys := by
  have hf := ho.filter (· = key)
  refine hf.trans (List.Perm.of_eq ?_)
  have hn := c.keys_nodup
  unfold entryOnly
  cases hl : c.lookup key with
  | none =>
    have hk : key ∉ c.keys := fun h => AList.lookup_eq_none.mp hl (AList.mem_keys.mpr h)
    rw [AList.keys_empty, List.filter_eq_nil_iff]
    intro k hk'
    simp only [decide_eq_true_eq]
    rintro rfl
    exact hk hk'
  | some state =>
    have hk : key ∈ c.keys := AList.mem_keys.mp (AList.lookup_isSome.mp (by rw [hl]; rfl))
    rw [AList.keys_singleton]
    have hcount : c.keys.count key = 1 := List.count_eq_one_of_mem hn hk
    rw [List.filter_eq, hcount]
    rfl

end Entry

section Callback
variable {s : Server} {cb : StreamCallback}

theorem streamOf_only :
    (s.only key mine).streamOf key = (s.streamOf key).map (·.renumber mine) := by
  show ((entryOnly key mine s.connections).lookup key).bind _ = _
  rw [lookup_entryOnly, streamOf]
  cases s.connections.lookup key <;> rfl

theorem unlinked_only : (s.only cb.cnx mine).unlinked cb =
    (s.unlinked cb).map (entryOnly cb.cnx mine) := by
  unfold unlinked
  split
  · have h : entryOnly cb.cnx mine (s.connections.insert cb.cnx ⟨cb.cnx, none⟩) =
        (entryOnly cb.cnx mine s.connections).insert cb.cnx ⟨cb.cnx, none⟩ := entryOnly_insert
    exact congrArg some h.symm
  · split
    · exact congrArg some entryOnly_erase.symm
    · rfl

theorem opened_only : (s.only cb.cnx mine).opened cb = s.opened cb := by
  unfold opened
  split
  · show ((entryOnly cb.cnx mine s.connections).lookup cb.cnx).filter _ = _
    rw [lookup_entryOnly]
    cases s.connections.lookup cb.cnx with
    | none => rfl
    | some state =>
      obtain ⟨cnx, st⟩ := state
      cases st <;> rfl
  · rfl

theorem pushed_only : (s.only cb.cnx mine).pushed cb =
    (s.pushed cb).map fun p => (mine.idxOf p.1, p.2) := by
  unfold pushed
  rw [streamOf_only]
  cases s.streamOf cb.cnx with
  | none => rfl
  | some st =>
    show (if st.streamId = cb.streamId then _ else _) = _
    by_cases hid : st.streamId = cb.streamId
    · rw [if_pos hid]
      simp only [if_pos hid]
      cases cb.event with
      | streamData => cases cb.chunk <;> rfl
      | _ => rfl
    · rw [if_neg hid]
      simp only [if_neg hid]
      rfl

end Callback

theorem todoOf_filterMap {s : Server} (hk : Keyed s) (order : List CnxPtr) :
    todoOf key mine (order.filterMap s.target) =
      (order.filter (· = key)).filterMap (s.only key mine).target := by
  have htarget : (s.only key mine).target key =
      (s.target key).map fun t => (t.1, t.2.renumber mine) := by
    show ((entryOnly key mine s.connections).lookup key).bind _ = _
    rw [lookup_entryOnly, target]
    cases s.connections.lookup key with
    | none => rfl
    | some state =>
      obtain ⟨cnx, st⟩ := state
      cases st <;> rfl
  induction order with
  | nil => rfl
  | cons k order ih =>
    have hcons : todoOf key mine ((k :: order).filterMap s.target) =
        todoOf key mine (s.target k).toList ++ todoOf key mine (order.filterMap s.target) := by
      rw [filterMap_cons_toList, todoOf, List.filter_append, List.map_append]
      rfl
    rw [hcons, ih]
    by_cases he : k = key
    · subst he
      rw [List.filter_cons_of_pos (by simp), filterMap_cons_toList, htarget]
      congr 1
      cases ht : s.target k with
      | none => rfl
      | some t => simp [todoOf, (hk.target ht).1]
    · rw [List.filter_cons_of_neg (by simpa using he)]
      cases ht : s.target k with
      | none => rfl
      | some t =>
        have hne : t.1 ≠ key := by
          rw [(hk.target ht).1]
          exact he
        simp [todoOf, hne]

/-! ## The invariant -/

/-- `mine` are the streams of the connection and of no other. -/
structure Apart (key : CnxPtr) (mine : List ℕ) (s : Server) : Prop where
  nodup : mine.Nodup
  lt : ∀ i ∈ mine, i < s.streams.length
  entry : ∀ {k st}, s.streamOf k = some st → (st.index ∈ mine ↔ k = key)
  queue : ∀ i ∈ s.acceptQ, i < s.streams.length

theorem Apart.init : Apart key [] init := by
  constructor <;> simp [Server.init, streamOf]

theorem Apart.congr {s s' : Server} (h : Apart key mine s) (hc : s'.connections = s.connections)
    (hl : s'.streams.length = s.streams.length) (hq : ∀ i ∈ s'.acceptQ, i ∈ s.acceptQ) :
    Apart key mine s' where
  nodup := h.nodup
  lt := by rw [hl]; exact h.lt
  entry hst := by
    rw [streamOf, hc] at hst
    exact h.entry hst
  queue i hi := by
    rw [hl]
    exact h.queue i (hq i hi)

theorem Apart.unlinked {s s' : Server} {cb : StreamCallback} (h : Apart key mine s)
    (hc : s.unlinked cb = some s'.connections) (hl : s'.streams.length = s.streams.length)
    (hq : s'.acceptQ = s.acceptQ) : Apart key mine s' where
  nodup := h.nodup
  lt := by rw [hl]; exact h.lt
  entry hst := by
    rw [streamOf_of_unlinked hc] at hst
    split at hst
    · cases hst
    · exact h.entry hst
  queue := by rw [hl, hq]; exact h.queue

theorem Apart.opened {s s' : Server} {cb : StreamCallback} {state : ServerConnState}
    (h : Apart key mine s) (hl : Linked s)
    (hc : s'.connections = s.connections.insert cb.cnx
      { state with stream := some ⟨cb.streamId, s.streams.length⟩ })
    (hn : s'.streams.length = s.streams.length + 1)
    (hq : s'.acceptQ = s.acceptQ ++ [s.streams.length]) :
    Apart key (mine ++ if cb.cnx = key then [s.streams.length] else []) s' := by
  have hfresh : s.streams.length ∉ mine := fun hm => absurd (h.lt _ hm) (Nat.lt_irrefl _)
  have hnew : ∀ i ∈ mine ++ (if cb.cnx = key then [s.streams.length] else []),
      i ∈ mine ∨ i = s.streams.length := by
    intro i hi
    refine (List.mem_append.mp hi).imp_right fun hi => ?_
    split at hi
    · exact List.mem_singleton.mp hi
    · cases hi
  constructor
  · refine h.nodup.append (by split <;> simp) fun i hi hi' => ?_
    split at hi'
    · rw [List.mem_singleton.mp hi'] at hi
      exact hfresh hi
    · cases hi'
  · intro i hi
    rw [hn]
    obtain hi | rfl := hnew i hi
    · exact Nat.lt_succ_of_lt (h.lt i hi)
    · exact Nat.lt_succ_self _
  · intro k st hst
    rw [streamOf_insert hc] at hst
    split at hst
    · rename_i hk
      rw [← Option.some.inj hst, hk]
      by_cases hkey : cb.cnx = key <;> simp [hkey, hfresh]
    · have hlt := hl.lt hst
      rw [← h.entry hst]
      constructor
      · intro hm
        exact (hnew _ hm).resolve_right (Nat.ne_of_lt hlt)
      · exact List.mem_append_left _
  · intro i hi
    rw [hq] at hi
    rw [hn]
    obtain hi | hi := List.mem_append.mp hi
    · exact Nat.lt_succ_of_lt (h.queue i hi)
    · rw [List.mem_singleton.mp hi]
      exact Nat.lt_succ_self _

theorem acceptedOf_callback (cb : StreamCallback) (own : Option ℕ) (tr : List ServerObs) :
    acceptedOf key (.callback cb own :: tr) = acceptedOf key tr := by
  simp

theorem acceptedOf_accepted (k : CnxPtr) (i : ℕ) (tr : List ServerObs) :
    acceptedOf key (.accepted k i :: tr) = (if k = key then [i] else []) ++ acceptedOf key tr := by
  by_cases hk : k = key <;> simp [hk]

theorem Step.apart {s s' : Server} {e : ServerEvent} {out : List ServerObs} (h : Step s e s' out)
    (hl : Linked s) (hi : Apart key mine s) : Apart key (mine ++ acceptedOf key out) s' := by
  have hquiet (hq : acceptedOf key out = []) (hi : Apart key mine s') :
      Apart key (mine ++ acceptedOf key out) s' := by
    rwa [hq, List.append_nil]
  cases h with
  | unlink hp hc => exact hquiet (by simp) (hi.unlinked hc rfl rfl)
  | unlinkStream hp hc => exact hquiet (by simp) (hi.unlinked hc (by simp) rfl)
  | @openEmpty cb state hp ho hv =>
    rw [acceptedOf_callback, acceptedOf_accepted, show acceptedOf key [.returned 0] = [] from rfl,
      List.append_nil]
    exact hi.opened hl rfl (by simp) rfl
  | @openChunk cb state v hp ho hv =>
    rw [acceptedOf_callback, acceptedOf_accepted, acceptedOf_nil, List.append_nil]
    exact hi.opened hl rfl (by simp) rfl
  | accept hq =>
    refine hquiet rfl (hi.congr rfl rfl fun i hi => ?_)
    rw [hq]
    exact List.mem_cons_of_mem _ hi
  | noop hp hm ho =>
    exact hquiet (by obtain rfl | rfl | ⟨d, rfl⟩ := ho <;> rfl) hi
  | ignored => exact hquiet (by simp) hi
  | app | drainStart | drainEnd | drained | drainNext | push | firstChunk | token | dropSendRx
  | dropWakeTx =>
    exact hquiet (by simp) (hi.congr rfl (by simp) fun _ h => h)

/-! ## One step -/

/-- The kept event makes the step of the one connection; a dropped one makes none. -/
def Follows (key : CnxPtr) (mine mine' : List ℕ) (s : Server) (e : ServerEvent) (s' : Server)
    (out : List ServerObs) : Prop :=
  match s.keep key mine e with
  | none => s'.only key mine' = s.only key mine ∧ Matches key mine' out []
  | some d => ∃ out', machine.step (s.only key mine) d = some (s'.only key mine', out') ∧
    Matches key mine' out out'

section Follow
variable {s s' : Server} {e d : ServerEvent} {mine' : List ℕ} {out : List ServerObs}

theorem Follows.drop (hk : s.keep key mine e = none) (hs : s'.only key mine' = s.only key mine)
    (hm : Matches key mine' out []) : Follows key mine mine' s e s' out := by
  rw [Follows, hk]
  exact ⟨hs, hm⟩

theorem Follows.keep {out' : List ServerObs} (hk : s.keep key mine e = some d)
    (hs : machine.step (s.only key mine) d = some (s'.only key mine', out'))
    (hm : Matches key mine' out out') : Follows key mine mine' s e s' out := by
  rw [Follows, hk]
  exact ⟨out', hs, hm⟩

theorem only_pc (hp : s.pc = .idle) : (s.only key mine).pc = .idle := by
  show s.pc.only key mine = .idle
  rw [hp]
  rfl

/-- An event of another connection that leaves the bridges of this one alone. -/
theorem only_of_other {streams : List Bridge} {acceptQ : List ℕ} {pc : ServerPc}
    {conns : AList (fun _ : CnxPtr => ServerConnState)}
    (hc : conns.lookup key = s.connections.lookup key)
    (hs : pick mine streams = pick mine s.streams)
    (hq : acceptQ.filter (· ∈ mine) = s.acceptQ.filter (· ∈ mine))
    (hp : pc.only key mine = s.pc.only key mine) :
    (⟨conns, streams, acceptQ, pc⟩ : Server).only key mine = s.only key mine := by
  simp only [only, entryOnly_congr hc, hs, hq, hp]

/-- An operation of the packet loop on one bridge, outside of the drain. -/
theorem Apart.loopAt_follows {i : ℕ} {op : LoopOp} {pc : ServerPc} {ret : ℤ}
    (hi : Apart key mine s) (pc' : ServerPc) (last : List ServerObs) (hp : s.pc = pc)
    (hin : pc.involves key mine = decide (i ∈ mine))
    (hother : i ∉ mine → pc'.only key mine = pc.only key mine)
    (ha : addsOf key last = []) (hb : ∀ n, bridgeTrace n last = [])
    (hstep : i ∈ mine → Step (s.only key mine) (.resume ret)
      { s.only key mine with
        streams := (loopAt (pick mine s.streams) (mine.idxOf i) op).1
        pc := pc'.only key mine }
      ((loopAt (pick mine s.streams) (mine.idxOf i) op).2 ++ last)) :
    Follows key mine mine s (.resume ret)
      { s with streams := (loopAt s.streams i op).1, pc := pc' }
      ((loopAt s.streams i op).2 ++ last) := by
  have hquiet : Matches key mine last last := .quiet ha ha (fun i _ => hb i) hb
  have hquiet' : Matches key mine last [] := .quiet ha rfl (fun i _ => hb i) fun _ => rfl
  by_cases hm : i ∈ mine
  · obtain ⟨h₁, h₂⟩ := loopAt_pick key op hi.nodup hi.lt hm
    have hs := (hstep hm).step nofun
    rw [h₁] at hs
    exact .keep (by simp [Server.keep, hp, hin, hm]) hs (h₂.append hquiet)
  · obtain ⟨h₁, h₂⟩ := loopAt_not_picked key s.streams op hm
    refine .drop (by simp [Server.keep, hp, hin, hm]) ?_ (h₂.append hquiet')
    exact only_of_other rfl h₁ rfl (by rw [hp]; exact hother hm)

/-! ### Events -/

theorem Apart.notMem (hi : Apart key mine s) {k : CnxPtr} {st : ServerStream}
    (hs : s.streamOf k = some st) (hk : k ≠ key) : st.index ∉ mine := by
  rw [hi.entry hs]
  exact hk

theorem Apart.fresh (hi : Apart key mine s) : s.streams.length ∉ mine :=
  fun h => absurd (hi.lt _ h) (Nat.lt_irrefl _)

theorem Step.follows_other {cb : StreamCallback} (h : Step s (.stream cb) s' out) (hl : Linked s)
    (hi : Apart key mine s) (hk : cb.cnx ≠ key) :
    Follows key mine (mine ++ acceptedOf key out) s (.stream cb) s' out := by
  obtain ⟨-, ha, hlook, -⟩ | ⟨cb', he, hk', -⟩ := h.entry key
  · rw [ha, List.append_nil]
    have hkeep : s.keep key mine (.stream cb) = none := if_neg hk
    have hfresh := hi.fresh
    have hqueue : (s.acceptQ ++ [s.streams.length]).filter (· ∈ mine) =
        s.acceptQ.filter (· ∈ mine) := by
      rw [List.filter_append, List.filter_cons_of_neg (by simpa using hfresh)]
      exact List.append_nil _
    cases h with
    | unlink hp hc hn =>
      exact .drop hkeep (only_of_other hlook rfl rfl rfl)
        (.quiet (by simp) rfl (by simp) fun _ => rfl)
    | @unlinkStream _ conns st hp hc hs =>
      have hm := hi.notMem hs hk
      obtain ⟨h₁, h₂⟩ := loopAt_not_picked key s.streams .dropRecvTx hm
      refine .drop hkeep (only_of_other hlook h₁ rfl ?_) (h₂.skip rfl fun _ => rfl)
      simp [ServerPc.only, hp, hm]
    | openEmpty hp ho hv =>
      exact .drop hkeep (only_of_other hlook pick_append_new hqueue rfl)
        (.quiet (by simp) rfl (by simp) fun _ => rfl)
    | openChunk hp ho hv =>
      exact .drop hkeep (only_of_other hlook pick_append_new hqueue
        (by simp [ServerPc.only, hp, hfresh])) (.quiet (by simp) rfl (by simp) fun _ => rfl)
    | @push _ i v hp hv =>
      obtain ⟨st, hs, -, rfl, -⟩ := hl.pushed_lt hv
      obtain ⟨h₁, h₂⟩ := loopAt_not_picked key s.streams (.recvTrySend v)
        (hi.notMem hs hk)
      have hlast : Matches key mine [.returned 0] [] := Matches.nil.skip rfl fun _ => rfl
      exact .drop hkeep (only_of_other hlook h₁ rfl rfl)
        ((h₂.append hlast).skip rfl fun _ => rfl)
    | ignored hp hu ho hv =>
      exact .drop hkeep rfl (.quiet (by simp) rfl (by simp) fun _ => rfl)
  · obtain rfl := ServerEvent.stream.inj he
    exact absurd hk' hk

/-- The connection after its first stream_data event. -/
theorem Apart.only_opened (hi : Apart key mine s) {state : ServerConnState} {sid : UInt64}
    {pc : ServerPc} (pc' : ServerPc) (hp : pc.only key (mine ++ [s.streams.length]) = pc') :
    (⟨s.connections.insert key { state with stream := some ⟨sid, s.streams.length⟩ },
      s.streams ++ [.new], s.acceptQ ++ [s.streams.length], pc⟩ : Server).only key
        (mine ++ [s.streams.length]) =
      ⟨(s.only key mine).connections.insert key
          { state with stream := some ⟨sid, (s.only key mine).streams.length⟩ },
        (s.only key mine).streams ++ [.new],
        (s.only key mine).acceptQ ++ [(s.only key mine).streams.length], pc'⟩ := by
  have hidx : (mine ++ [s.streams.length]).idxOf s.streams.length = mine.length := by
    rw [List.idxOf_append_of_notMem hi.fresh]
    simp
  have hlen : (s.only key mine).streams.length = mine.length := by simp [only, pick]
  have hold : ∀ i ∈ s.acceptQ, i ≠ s.streams.length := fun i hq => Nat.ne_of_lt (hi.queue i hq)
  rw [hlen]
  simp only [only, hp, pick_open, Server.mk.injEq, and_true, true_and]
  constructor
  · rw [entryOnly_insert, ServerConnState.renumber, Option.map_some, ServerStream.renumber, hidx]
    unfold entryOnly
    cases s.connections.lookup key <;> simp [AList.insert_empty, AList.insert_singleton_eq]
  · have hfilter : s.acceptQ.filter (· ∈ mine ++ [s.streams.length]) =
        s.acceptQ.filter (· ∈ mine) := by
      apply List.filter_congr
      intro i hq
      simp [hold i hq]
    rw [List.filter_append, List.map_append, hfilter]
    congr 1
    · apply List.map_congr_left
      intro i hq
      simp only [List.mem_filter, decide_eq_true_eq] at hq
      exact List.idxOf_append_of_mem hq.2
    · simp [hidx]

theorem Step.follows_own {cb : StreamCallback} (h : Step s (.stream cb) s' out) (hl : Linked s)
    (hi : Apart cb.cnx mine s) :
    Follows cb.cnx mine (mine ++ acceptedOf cb.cnx out) s (.stream cb) s' out := by
  have hkeep : s.keep cb.cnx mine (.stream cb) = some (.stream cb) := if_pos rfl
  cases h with
  | @unlink _ conns hp hc hn =>
    have hs := (Step.unlink (only_pc hp) (by rw [unlinked_only, hc]; rfl)
      (by rw [streamOf_only, hn]; rfl) : Step (s.only cb.cnx mine) (.stream cb) _ _).step nofun
    simp only [acceptedOf_cons, acceptedOf_nil, ServerObs.acceptedBy?, Option.toList_none,
      List.append_nil]
    exact .keep hkeep hs (.callback .returned)
  | @unlinkStream _ conns st hp hc hst =>
    have hm : st.index ∈ mine := (hi.entry hst).mpr rfl
    obtain ⟨h₁, h₂⟩ := loopAt_pick cb.cnx .dropRecvTx hi.nodup hi.lt hm
    have hs := (Step.unlinkStream (only_pc hp) (by rw [unlinked_only, hc]; rfl)
      (by rw [streamOf_only, hst]; rfl) : Step (s.only cb.cnx mine) (.stream cb) _ _).step nofun
    have hpc : (ServerPc.dropSendRx st.index).only cb.cnx mine =
        .dropSendRx (mine.idxOf st.index) := if_pos hm
    simp only [acceptedOf_cons, acceptedOf_loopAt, ServerObs.acceptedBy?, Option.toList_none,
      List.append_nil]
    rw [Follows, hkeep, only, ← h₁, hpc]
    exact ⟨_, hs, .callback h₂⟩
  | @openEmpty _ state hp ho hv =>
    have hs := (Step.openEmpty (only_pc hp) (by rw [opened_only, ho]) hv :
      Step (s.only cb.cnx mine) (.stream cb) _ _).step nofun
    simp only [acceptedOf_cons, acceptedOf_nil, ServerObs.acceptedBy?, Option.toList_none,
      Option.toList_some, List.append_nil, List.nil_append, if_true]
    rw [Follows, hkeep, hi.only_opened (s.pc.only cb.cnx mine) (by rw [hp]; rfl)]
    exact ⟨_, hs, .callback (.skip rfl (fun _ => rfl) (.skip_right rfl (fun _ => rfl) .returned))⟩
  | @openChunk _ state v hp ho hv =>
    have hs := (Step.openChunk (only_pc hp) (by rw [opened_only, ho]) hv :
      Step (s.only cb.cnx mine) (.stream cb) _ _).step nofun
    have hpc : (ServerPc.firstData s.streams.length v).only cb.cnx (mine ++ [s.streams.length]) =
        .firstData (s.only cb.cnx mine).streams.length v := by
      rw [ServerPc.only, if_pos (by simp), List.idxOf_append_of_notMem hi.fresh]
      simp [only, pick]
    simp only [acceptedOf_cons, acceptedOf_nil, ServerObs.acceptedBy?, Option.toList_none,
      Option.toList_some, List.append_nil, List.nil_append, if_true]
    rw [Follows, hkeep, hi.only_opened _ hpc]
    exact ⟨_, hs, .callback (.skip rfl (fun _ => rfl) (.skip_right rfl (fun _ => rfl) .nil))⟩
  | @push _ i v hp hv =>
    obtain ⟨st, hst, -, rfl, -⟩ := hl.pushed_lt hv
    have hm : st.index ∈ mine := (hi.entry hst).mpr rfl
    obtain ⟨h₁, h₂⟩ := loopAt_pick cb.cnx (.recvTrySend v) hi.nodup hi.lt hm
    have hs := (Step.push (only_pc hp) (by rw [pushed_only, hv]; rfl) :
      Step (s.only cb.cnx mine) (.stream cb) _ _).step nofun
    simp only [acceptedOf_cons, acceptedOf_append, acceptedOf_loopAt, acceptedOf_nil,
      ServerObs.acceptedBy?, Option.toList_none, List.append_nil]
    rw [Follows, hkeep, only, ← h₁]
    exact ⟨_, hs, .callback (h₂.append .returned)⟩
  | ignored hp hu ho hv =>
    have hs := (Step.ignored (only_pc hp) (by rw [unlinked_only, hu]; rfl)
      (by rw [opened_only, ho]) (by rw [pushed_only, hv]; rfl) :
      Step (s.only cb.cnx mine) (.stream cb) _ _).step nofun
    simp only [acceptedOf_cons, acceptedOf_nil, ServerObs.acceptedBy?, Option.toList_none,
      List.append_nil]
    exact .keep hkeep hs (.callback .returned)

/-! ### The packet loop -/

theorem todoOf_cons (now : CnxPtr × ServerStream) (todo : List (CnxPtr × ServerStream)) :
    todoOf key mine (now :: todo) =
      (if now.1 = key then [(now.1, now.2.renumber mine)] else []) ++ todoOf key mine todo := by
  by_cases hk : now.1 = key <;> simp [todoOf, hk]

theorem only_pc_drain (mine : List ℕ) {now : CnxPtr × ServerStream}
    {todo : List (CnxPtr × ServerStream)} (hp : s.pc = .drain (now :: todo)) (hm : now.1 = key) :
    (s.only key mine).pc = .drain ((now.1, now.2.renumber mine) :: todoOf key mine todo) := by
  show s.pc.only key mine = _
  rw [hp, ServerPc.only, todoOf_cons, if_pos hm]
  rfl

/-- A connection to be drained is this one if and only if its stream is. -/
theorem Apart.todo_iff (hi : Apart key mine s) (hk : Keyed s) {t : CnxPtr × ServerStream}
    (ht : t ∈ s.pc.todo) : t.2.index ∈ mine ↔ t.1 = key := hi.entry (hk.todo t ht)

theorem Apart.drained_follows {ret : ℤ} {now : CnxPtr × ServerStream}
    {todo : List (CnxPtr × ServerStream)} {b : Bridge} {data : Bytes} (hi : Apart key mine s)
    (hk : Keyed s) (hp : s.pc = .drain (now :: todo)) (hb : s.streams[now.2.index]? = some b)
    (hd : b.sendQ.buf = data :: b.sendQ.buf.tail) :
    Follows key mine mine s (.resume ret)
      { s with
        streams := s.streams.set now.2.index { b with sendQ := b.sendQ.pop }
        pc := .wake now todo }
      [.bridge now.2.index (.popped data),
        .add now.2.index now.1 now.2.streamId data (finOf data) ret] := by
  have hiff := hi.todo_iff hk (t := now) (by rw [hp]; exact List.mem_cons_self)
  by_cases hm : now.1 = key
  · have hmem := hiff.mpr hm
    have hpc := only_pc_drain mine hp hm
    have hb' : (s.only key mine).streams[mine.idxOf now.2.index]? = some b := by
      rw [← hb]
      exact pick_getElem? hmem (hi.lt _ hmem)
    have hs := (@Step.drained _ ret _ _ _ _ hpc hb' hd).step nofun
    have hpc' : (ServerPc.wake now todo).only key mine =
        .wake (now.1, now.2.renumber mine) (todoOf key mine todo) := if_pos hm
    rw [Follows, show s.keep key mine (.resume ret) = some (.resume ret) by
      simp [Server.keep, hp, ServerPc.involves, hm], only, pick_set hi.nodup hi.lt hmem, hpc']
    refine ⟨_, hs, ?_⟩
    have hbridge := @Matches.bridge key mine hi.nodup _ hmem [.popped data]
    refine hbridge.append ⟨by simp [hm, ServerStream.renumber], fun n => ?_⟩
    cases mine[n]? <;> rfl
  · have hmem : now.2.index ∉ mine := fun h => hm (hiff.mp h)
    refine .drop (by simp [Server.keep, hp, ServerPc.involves, hm]) ?_ ?_
    · refine only_of_other rfl (pick_set_of_notMem hmem _) rfl ?_
      simp [hp, ServerPc.only, todoOf_cons, hm]
    · refine .quiet (by simp [hm]) rfl (fun i hi' => ?_) fun _ => rfl
      have hne : now.2.index ≠ i := fun h => hmem (by rwa [h])
      simp [hne]

theorem Apart.drainNext_follows {ret : ℤ} {now : CnxPtr × ServerStream}
    {todo : List (CnxPtr × ServerStream)} (hi : Apart key mine s) (hk : Keyed s)
    (hp : s.pc = .drain (now :: todo))
    (hb : ∀ b, s.streams[now.2.index]? = some b → b.sendQ.buf = []) :
    Follows key mine mine s (.resume ret) { s with pc := .drain todo } [] := by
  have hiff := hi.todo_iff hk (t := now) (by rw [hp]; exact List.mem_cons_self)
  by_cases hm : now.1 = key
  · have hmem := hiff.mpr hm
    have hpc := only_pc_drain mine hp hm
    have hb' : ∀ b, (s.only key mine).streams[mine.idxOf now.2.index]? = some b →
        b.sendQ.buf = [] := by
      intro b h
      apply hb
      rw [← h]
      exact (pick_getElem? hmem (hi.lt _ hmem)).symm
    exact .keep (by simp [Server.keep, hp, ServerPc.involves, hm])
      ((@Step.drainNext _ ret _ _ hpc hb').step nofun) .nil
  · refine .drop (by simp [Server.keep, hp, ServerPc.involves, hm]) ?_ .nil
    refine only_of_other rfl rfl rfl ?_
    simp [hp, ServerPc.only, todoOf_cons, hm]

theorem Apart.token_follows {ret : ℤ} {now : CnxPtr × ServerStream}
    {todo : List (CnxPtr × ServerStream)} (hi : Apart key mine s) (hk : Keyed s)
    (hp : s.pc = .wake now todo) :
    Follows key mine mine s (.resume ret)
      { s with
        streams := (loopAt s.streams now.2.index .wakeTrySend).1
        pc := .drain (now :: todo) }
      (loopAt s.streams now.2.index .wakeTrySend).2 := by
  have hiff := hi.todo_iff hk (t := now) (by rw [hp]; exact List.mem_cons_self)
  rw [← List.append_nil (loopAt s.streams now.2.index .wakeTrySend).2]
  refine hi.loopAt_follows (.drain (now :: todo)) [] hp (by simp [ServerPc.involves, hiff]) ?_ rfl
    (fun _ => rfl) ?_
  · intro hmem
    have hm : now.1 ≠ key := fun h => hmem (hiff.mpr h)
    simp [ServerPc.only, todoOf_cons, hm]
  · intro hmem
    have hm := hiff.mp hmem
    have hpc : (s.only key mine).pc =
        .wake (now.1, now.2.renumber mine) (todoOf key mine todo) := by
      show s.pc.only key mine = _
      rw [hp, ServerPc.only, if_pos hm]
    have hs := @Step.token _ ret _ _ hpc
    rw [List.append_nil, ServerPc.only, todoOf_cons, if_pos hm]
    exact hs

theorem Apart.loop_follows {cbMode : ℤ} {arg : LoopArg} {order : List CnxPtr}
    (hk : Keyed s) (hs : machine.step s (.loop cbMode arg order) = some (s', out)) :
    Follows key mine mine s (.loop cbMode arg order) s' out := by
  have hkeep : s.keep key mine (.loop cbMode arg order) =
      some (.loop cbMode arg (order.filter (· = key))) := rfl
  cases step_cases hs with
  | @noop _ _ _ _ hp hm ho =>
    have hquiet : Matches key mine out out := by
      refine .quiet ?_ ?_ (fun i _ => ?_) fun i => ?_ <;>
        obtain rfl | rfl | ⟨d, rfl⟩ := ho <;> rfl
    refine .keep hkeep ?_ hquiet
    show (if (s.only key mine).pc = .idle then
      (s.only key mine).loopCallback cbMode arg (order.filter (· = key)) else none) = _
    rw [if_pos (only_pc hp)]
    simp only [machine, Server.step, hp, if_true] at hs
    unfold loopCallback at hs ⊢
    split_ifs at hs ⊢ with h₁ h₂ <;> simp_all
  | drainStart hp hm ho =>
    have hperm : (order.filter (· = key)).Perm (s.only key mine).connections.keys :=
      keys_entryOnly ho
    have hstep := (@Step.drainStart _ _ arg _ (only_pc hp) hm hperm).step fun _ _ _ he => by
      obtain ⟨rfl, -⟩ := ServerEvent.loop.inj he
      exact hm
    rw [← todoOf_filterMap hk order] at hstep
    exact .keep hkeep hstep .nil

end Follow

/-- One step of the server is one step of the connection, or none. -/
theorem Apart.app_follows {s : Server} {i : ℕ} {op : AppOp} {b b' : Bridge} {bout : List BridgeObs}
    (hi : Apart key mine s) (hb : s.streams[i]? = some b) (ha : i ∈ s.acceptQ → op = .dropStream)
    (hop : b.app op = some (b', bout)) :
    Follows key mine mine s (.app i op) { s with streams := s.streams.set i b' }
      (bout.map (.bridge i)) := by
  by_cases hm : i ∈ mine
  · have hb' : (s.only key mine).streams[mine.idxOf i]? = some b := by
      rw [← hb]
      exact pick_getElem? hm (hi.lt i hm)
    have ha' : mine.idxOf i ∈ (s.only key mine).acceptQ → op = .dropStream := by
      intro hq
      obtain ⟨j, hj, he⟩ := List.mem_map.mp hq
      simp only [List.mem_filter, decide_eq_true_eq] at hj
      rw [List.idxOf_inj hj.2] at he
      exact ha (by rw [← he]; exact hj.1)
    have hs := (Step.app hb' ha' hop).step nofun
    rw [Follows, show s.keep key mine (.app i op) = some (.app (mine.idxOf i) op) from
      if_pos hm, only, pick_set hi.nodup hi.lt hm]
    exact ⟨_, hs, .bridge hi.nodup hm _⟩
  · refine .drop (if_neg hm) (only_of_other rfl (pick_set_of_notMem hm _) rfl rfl) ?_
    refine .quiet (by simp) rfl (fun j hj => ?_) fun _ => rfl
    exact bridgeTrace_map_ne j (fun h => hm (by rwa [h])) _

theorem accept_follows {s : Server} {i : ℕ} {rest : List ℕ} (hq : s.acceptQ = i :: rest) :
    Follows key mine mine s .accept { s with acceptQ := rest } [] := by
  by_cases hm : i ∈ mine
  · have hq' : (s.only key mine).acceptQ =
        mine.idxOf i :: (rest.filter (· ∈ mine)).map mine.idxOf := by
      simp [only, hq, hm]
    exact .keep (by simp [Server.keep, hq, hm]) ((Step.accept hq').step nofun) .nil
  · refine .drop (by simp [Server.keep, hq, hm]) (only_of_other rfl rfl ?_ rfl) .nil
    simp [hq, hm]

theorem Step.follows {s s' : Server} {e : ServerEvent} {out : List ServerObs}
    (hs : machine.step s e = some (s', out)) (hl : Linked s) (hk : Keyed s)
    (hi : Apart key mine s) : Follows key mine (mine ++ acceptedOf key out) s e s' out := by
  have h := step_cases hs
  have hquiet (hq : acceptedOf key out = []) (hf : Follows key mine mine s e s' out) :
      Follows key mine (mine ++ acceptedOf key out) s e s' out := by
    rwa [hq, List.append_nil]
  cases e with
  | stream cb =>
    by_cases hkey : cb.cnx = key
    · subst hkey
      exact h.follows_own hl hi
    · exact h.follows_other hl hi hkey
  | loop cbMode arg order =>
    refine hquiet ?_ (Apart.loop_follows hk hs)
    cases h with
    | noop hp hm ho => obtain rfl | rfl | ⟨d, rfl⟩ := ho <;> rfl
    | drainStart => rfl
  | app i op =>
    cases h with
    | app hb ha hop => exact hquiet (by simp) (hi.app_follows hb ha hop)
  | accept =>
    cases h with
    | accept hq => exact hquiet rfl (accept_follows hq)
  | resume ret =>
    cases h with
    | @firstChunk _ i v hp =>
      refine hquiet (by simp) (hi.loopAt_follows .idle [.returned 0] hp rfl
        (fun hm => (if_neg hm).symm) rfl (fun _ => rfl) fun hm => ?_)
      exact .firstChunk (by show s.pc.only key mine = _; rw [hp, ServerPc.only, if_pos hm])
    | drainEnd hp =>
      have hpc : (s.only key mine).pc = .drain [] := by
        show s.pc.only key mine = _
        rw [hp]
        rfl
      exact hquiet rfl (.keep (by simp [Server.keep, hp, ServerPc.involves])
        ((@Step.drainEnd _ ret hpc).step nofun) .returned)
    | drained hp hb hd => exact hquiet (by simp) (hi.drained_follows hk hp hb hd)
    | drainNext hp hb => exact hquiet rfl (hi.drainNext_follows hk hp hb)
    | token hp => exact hquiet (by simp) (hi.token_follows hk hp)
    | @dropSendRx _ i hp =>
      refine hquiet (by simp) ?_
      rw [← List.append_nil (loopAt s.streams i .dropSendRx).2]
      refine hi.loopAt_follows (.dropWakeTx i) [] hp rfl
        (fun hm => (if_neg hm).trans (if_neg hm).symm) rfl (fun _ => rfl) fun hm => ?_
      rw [List.append_nil, ServerPc.only, if_pos hm]
      exact .dropSendRx (by show s.pc.only key mine = _; rw [hp, ServerPc.only, if_pos hm])
    | @dropWakeTx _ i hp =>
      refine hquiet (by simp) (hi.loopAt_follows .idle [.returned 0] hp rfl
        (fun hm => (if_neg hm).symm) rfl (fun _ => rfl) fun hm => ?_)
      exact .dropWakeTx (by show s.pc.only key mine = _; rw [hp, ServerPc.only, if_pos hm])

/-! ## Whole runs -/

/-- How a run of the server and the run of one connection are related at each moment. -/
structure Isolated (key : CnxPtr) (s : Server) (tr : List ServerObs) (t : Server)
    (tr' : List ServerObs) : Prop where
  linked : Linked s
  keyed : Keyed s
  apart : Apart key (acceptedOf key tr) s
  fresh : ∀ j, s.streams.length ≤ j → bridgeTrace j tr = []
  state : t = s.only key (acceptedOf key tr)
  seen : Matches key (acceptedOf key tr) tr tr'

theorem Isolated.init : Isolated key init [] init [] := by
  refine ⟨.init, .init, .init, fun _ _ => rfl, ?_, .nil⟩
  simp [Server.init, only, pick, entryOnly, ServerPc.only]

theorem Isolated.step {s s' t t' : Server} {e : ServerEvent} {tr tr' out out' : List ServerObs}
    (h : Isolated key s tr t tr') (hs : machine.step s e = some (s', out))
    (ht : t' = s'.only key (acceptedOf key tr ++ acceptedOf key out))
    (hm : Matches key (acceptedOf key tr ++ acceptedOf key out) out out') :
    Isolated key s' (tr ++ out) t' (tr' ++ out') := by
  have hst := step_cases hs
  have hap := hst.apart h.linked h.apart
  rw [← acceptedOf_append] at ht hm hap
  refine ⟨hst.linked h.linked, hst.keyed h.keyed, hap, fun j hj => ?_, ht, ?_⟩
  · obtain ⟨hj', hn⟩ := hst.fresh_trace hj
    rw [bridgeTrace_append, h.fresh j hj', hn]
    rfl
  · refine Matches.append ?_ hm
    rw [acceptedOf_append]
    refine h.seen.extend fun i hi => h.fresh i ?_
    obtain ⟨-, ha, -⟩ | ⟨cb, -, -, -, hentry⟩ := hst.entry key
    · rw [ha] at hi
      cases hi
    · cases hentry with
      | unlink _ ha | kept _ _ _ ha =>
        rw [ha] at hi
        cases hi
      | opened _ ha =>
        rw [ha, List.mem_singleton] at hi
        exact Nat.le_of_eq hi.symm

theorem isolated_run {es : List ServerEvent} {s : Server} {tr : List ServerObs}
    (hr : machine.run init es = some (s, tr)) (key : CnxPtr) : ∃ t tr',
      machine.run init (eventsOf key es) = some (t, tr') ∧ Isolated key s tr t tr' := by
  refine Machine.kept_run (Isolated key) ?_ ?_ hr Isolated.init
  · intro s tr t tr' e s' out h hs hk
    have hf := Step.follows hs h.linked h.keyed h.apart
    rw [Follows, hk] at hf
    have hi := h.step hs rfl hf.2
    rwa [List.append_nil, hf.1, ← h.state] at hi
  · intro s tr t tr' e s' out d h hs hk
    have hf := Step.follows hs h.linked h.keyed h.apart
    rw [Follows, hk] at hf
    obtain ⟨out', hd, hm⟩ := hf
    rw [← h.state] at hd
    exact ⟨_, out', hd, h.step hs rfl hm⟩

/-! ## One pair of halves for a ready event -/

/-- A ready event that has not opened its stream yet. -/
def unopened (s : Server) (key : CnxPtr) : ℕ :=
  if (s.connections.lookup key).any (·.stream.isNone) then 1 else 0

theorem unopened_le (s : Server) (key : CnxPtr) : s.unopened key ≤ 1 := by
  unfold unopened
  split <;> omega

theorem Step.accepted_le {s s' : Server} {e : ServerEvent} {tr out : List ServerObs}
    (h : Step s e s' out)
    (hi : (acceptedOf key tr).length + s.unopened key ≤ readies key tr) :
    (acceptedOf key (tr ++ out)).length + s'.unopened key ≤ readies key (tr ++ out) := by
  have hcount : readies key (tr ++ out) = readies key tr + readies key out := by
    rw [readies, callbacksOf_append, List.countP_append]
    rfl
  rw [acceptedOf_append, List.length_append, hcount]
  obtain ⟨hc, ha, hlook, -⟩ | ⟨cb, -, rfl, hc, hentry⟩ := h.entry key
  · rw [ha, unopened, hlook]
    rw [unopened] at hi
    rw [List.length_nil]
    omega
  · have hready : readies cb.cnx out = if cb.event = .ready then 1 else 0 := by
      rw [readies, hc, List.countP_singleton]
      simp
    rw [hready]
    cases hentry with
    | unlink hu ha =>
      rw [ha, List.length_nil]
      have hle := s'.unopened_le cb.cnx
      by_cases he : cb.event = .ready
      · rw [if_pos he]
        omega
      · have hzero : s'.unopened cb.cnx = 0 := by
          simp only [unlinked, if_neg he, Option.ite_none_right_eq_some, Option.some.injEq] at hu
          rw [unopened, ← hu.2, AList.lookup_erase]
          rfl
        rw [if_neg he]
        omega
    | opened ho ha hconn =>
      have hone : s.unopened cb.cnx = 1 := by
        obtain ⟨-, -, hl⟩ := own_of_opened ho
        have hn := streamOf_of_opened ho
        rw [streamOf, hl] at hn
        have hstream : ServerConnState.stream _ = none := hn
        simp [unopened, hl, hstream]
      have hzero : s'.unopened cb.cnx = 0 := by
        rw [unopened, hconn, AList.lookup_insert]
        rfl
      rw [ha, List.length_singleton]
      omega
    | kept ho hu hconn ha =>
      have hsame : s'.unopened cb.cnx = s.unopened cb.cnx := by rw [unopened, hconn, unopened]
      rw [ha, List.length_nil]
      omega

theorem accepted_le_readies {es : List ServerEvent} {s : Server} {tr : List ServerObs}
    (hr : machine.run init es = some (s, tr)) (key : CnxPtr) :
    (acceptedOf key tr).length ≤ readies key tr := by
  have h := Machine.run_trace
    (fun s tr => (acceptedOf key tr).length + s.unopened key ≤ readies key tr)
    (fun _ _ _ _ _ hi _ hs => (step_cases hs).accepted_le hi) hr (Machine.Along.true _ _)
    (Nat.le_refl 0)
  omega

/-- The run that keeps the events, the operations and the drains of one connection ends with the
same entry, bridges and halves, and has made the same calls with the same results. -/
theorem connections_do_not_interfere (key : CnxPtr) {es : List ServerEvent} {s : Server}
    {tr : List ServerObs} (hr : machine.run init es = some (s, tr)) :
    (∃ t tr', machine.run init (eventsOf key es) = some (t, tr') ∧
      t = s.only key (acceptedOf key tr) ∧ addsOf key tr' = addsOf key tr ∧
      ∀ n i, (acceptedOf key tr)[n]? = some i → bridgeTrace n tr' = bridgeTrace i tr) ∧
    (acceptedOf key tr).length ≤ readies key tr := by
  refine ⟨?_, accepted_le_readies hr key⟩
  obtain ⟨t, tr', ht, hi⟩ := isolated_run hr key
  refine ⟨t, tr', ht, hi.state, hi.seen.adds, fun n i hn => ?_⟩
  rw [hi.seen.traces, hn]
  rfl

/-- Two connections; the second one is drained first, and the pointer of the first one is used
again. -/
def twoConnections : List ServerEvent :=
  [.stream ⟨1, 0, none, .ready⟩, .stream ⟨2, 0, none, .ready⟩,
    .stream ⟨2, 4, some [2], .streamData⟩, .resume 0, .stream ⟨1, 8, some [1], .streamData⟩,
    .resume 0, .accept, .accept, .app 0 (.pollWrite [20]), .app 1 (.pollWrite [10]),
    .loop 3 .null [2, 1], .resume (-1), .resume 0, .resume 0, .resume 0, .resume 0, .resume 0,
    .resume 0, .stream ⟨1, 0, none, .close⟩, .resume 0, .resume 0,
    .stream ⟨1, 0, none, .ready⟩, .stream ⟨1, 4, some [3], .streamData⟩, .resume 0]

theorem connections_do_not_interfere_twoConnections : ∃ s tr t tr',
    machine.run init twoConnections = some (s, tr) ∧ acceptedOf 1 tr = [1, 2] ∧
      machine.run init (eventsOf 1 twoConnections) = some (t, tr') ∧ t = s.only 1 [1, 2] ∧
      addsOf 1 tr' = [(8, [10], 0, 0)] := by
  obtain ⟨s, tr, hr, ha, hadds⟩ : ∃ s tr, machine.run init twoConnections = some (s, tr) ∧
      acceptedOf 1 tr = [1, 2] ∧ addsOf 1 tr = [(8, [10], 0, 0)] := ⟨_, _, rfl, rfl, rfl⟩
  obtain ⟨⟨t, tr', ht, hst, hcalls, -⟩, -⟩ := connections_do_not_interfere 1 hr
  exact ⟨s, tr, t, tr', hr, ha, ht, by rw [hst, ha], by rw [hcalls, hadds]⟩

end Server
end TransportProxy.Slipstream
