import TransportProxy.Client.Receive
import TransportProxy.Server.Accept

/-! # The last bytes of a stream

The peer's last bytes may come with stream_fin. Both callbacks queue an end marker for that event
and do not look at its bytes, and the server ignores it altogether on a connection whose stream is
not open yet.
-/
namespace TransportProxy.Slipstream
open Foundations
set_option autoImplicit false

/-- The bytes of a list of events, whatever the events are. -/
def payloads (cbs : List StreamCallback) : Bytes := (cbs.map StreamCallback.payload).flatten

@[simp] theorem payloads_nil : payloads [] = [] := rfl

@[simp] theorem payloads_cons (cb : StreamCallback) (cbs : List StreamCallback) :
    payloads (cb :: cbs) = cb.payload ++ payloads cbs := rfl

@[simp] theorem payloads_append (cbs ds : List StreamCallback) :
    payloads (cbs ++ ds) = payloads cbs ++ payloads ds := by
  simp [payloads]

theorem payloads_chunks (cbs : List StreamCallback) :
    (cbs.filterMap StreamCallback.chunk).flatten = payloads cbs := by
  induction cbs with
  | nil => rfl
  | cons cb cbs ih =>
    rw [filterMap_cons_toList, List.flatten_append, ih, payloads_cons, ← cb.chunk_getD]
    cases cb.chunk <;> simp

theorem nil_not_mem_chunks (cbs : List StreamCallback) :
    [] ∉ cbs.filterMap StreamCallback.chunk := by
  intro h
  obtain ⟨cb, -, hc⟩ := List.mem_filterMap.mp h
  exact StreamCallback.chunk_ne_nil hc rfl

theorem beforeEnd_chunks (cbs : List StreamCallback) :
    beforeEnd (cbs.filterMap StreamCallback.chunk ++ [[]]) = payloads cbs := by
  rw [beforeEnd_append_end (nil_not_mem_chunks cbs), payloads_chunks]

theorem payloads_eq_iff (datas : List StreamCallback) (fin : StreamCallback) :
    payloads datas = payloads (datas ++ [fin]) ↔ fin.payload = [] := by
  simp

theorem filterMap_of_data {f : StreamCallback → Option Bytes} {cbs : List StreamCallback}
    (hd : ∀ cb ∈ cbs, cb.event = .streamData)
    (hf : ∀ cb : StreamCallback, cb.event = .streamData → f cb = cb.chunk) :
    cbs.filterMap f = cbs.filterMap StreamCallback.chunk := by
  induction cbs with
  | nil => rfl
  | cons cb cbs ih =>
    rw [filterMap_cons_toList, filterMap_cons_toList, hf cb (hd cb List.mem_cons_self),
      ih fun cb hcb => hd cb (List.mem_cons_of_mem _ hcb)]

namespace Client

theorem pushes_of_script {tr : List ClientObs} {rdy fin : StreamCallback}
    {datas : List StreamCallback} (hc : callbacks tr = rdy :: (datas ++ [fin]))
    (hr : rdy.event = .ready) (hd : ∀ cb ∈ datas, cb.event = .streamData)
    (hf : fin.event = .streamFin) :
    pushes tr = datas.filterMap StreamCallback.chunk ++ [[]] := by
  have hdata := filterMap_of_data (f := StreamCallback.clientPush) hd fun cb h => by
    simp [StreamCallback.clientPush, h]
  rw [pushes, hc, filterMap_cons_toList, List.filterMap_append, hdata, filterMap_cons_toList]
  simp [StreamCallback.clientPush, hr, hf]

/-- What the client's reader gets before its first end. -/
theorem beforeEnd_of_script {es : List ClientEvent} {s : Client} {tr : List ClientObs}
    {rdy fin : StreamCallback} {datas : List StreamCallback}
    (hr : machine.run init es = some (s, tr))
    (hg : machine.Along (fun s e => s.Room (fun _ => true) e ∧ e.RealRead) init es)
    (hc : callbacks tr = rdy :: (datas ++ [fin])) (hrdy : rdy.event = .ready)
    (hd : ∀ cb ∈ datas, cb.event = .streamData) (hf : fin.event = .streamFin)
    (ho : s.bridge.owner = .held) (hend : [] ∈ reads (bridgeTrace tr)) :
    beforeEnd (reads (bridgeTrace tr)) = payloads datas := by
  have hown := owned_run hr
  have hfed := (fed_run hr (hg.mono fun _ _ h => h.1)).all (hown.recv.mpr ho)
  rw [List.filter_true, List.filter_true, List.append_nil, pushes_of_script hc hrdy hd hf] at hfed
  have hm := markedLedger_run hr (hg.mono fun _ _ h => h.2)
  rw [hm.beforeEnd_reads hend (by rw [hfed]; simp), hfed, beforeEnd_chunks]

end Client

namespace Server

variable {key : CnxPtr} {sid : UInt64} {rdy fin : StreamCallback} {datas : List StreamCallback}

theorem pushes_of_script {tr : List ServerObs} {j : ℕ} (h : Script sid rdy datas fin)
    (hc : callbacks j tr = datas ++ [fin]) :
    pushes j tr = datas.filterMap StreamCallback.chunk ++ [[]] := by
  have hdata := filterMap_of_data (f := StreamCallback.serverPush) h.isData fun cb h => by
    simp [StreamCallback.serverPush, h]
  rw [pushes, hc, List.filterMap_append, hdata, filterMap_cons_toList]
  simp [StreamCallback.serverPush, h.isFin]

/-- The chunk of a stream that is being opened is not a marker. -/
theorem firstData_ne_nil {es : List ServerEvent} {s : Server} {tr : List ServerObs}
    (hr : machine.run init es = some (s, tr)) :
    ∀ i v, s.pc = .firstData i v → v ≠ [] := by
  refine Machine.run_invariant (fun s : Server => ∀ i v, s.pc = .firstData i v → v ≠ []) ?_ hr
    (Machine.Along.true _ _) nofun
  intro s e s' out hi _ hs
  cases step_cases hs with
  | app | accept | unlink | push | ignored | noop => exact hi
  | openEmpty => exact hi
  | @openChunk cb state v hp ho hv =>
    intro i w hw
    rw [← (ServerPc.firstData.inj hw).2]
    exact StreamCallback.chunk_ne_nil hv
  | _ => nofun

theorem beforeEnd_of_script {es : List ServerEvent} {s : Server} {tr : List ServerObs} {j : ℕ}
    (hr : machine.run init es = some (s, tr)) (h : Script sid rdy datas fin)
    (hg : machine.Along (fun s e => s.Room (fun _ => true) j e ∧ e.RealRead j) init es)
    (hc : callbacks j tr = datas ++ [fin]) (ho : (s.stream j).owner = .held)
    (hend : [] ∈ reads (bridgeTrace j tr)) :
    beforeEnd (reads (bridgeTrace j tr)) = payloads datas := by
  have hown := owned_run hr j
  have hfed := (fed_run hr (hg.mono fun _ _ h => h.1)).fed.all (hown.recv.mpr ho)
  rw [List.filter_true, List.filter_true, List.filter_true, pushes_of_script h hc] at hfed
  -- the marker is queued last, so the first chunk is in the queue
  have hfirst : s.firstOf j = [] := by
    unfold firstOf
    split
    · rename_i i v hp
      by_cases hij : i = j
      · simp only [firstOf, hp, if_pos hij] at hfed
        have hv : v = [] := (List.cons.inj (List.append_inj_right' hfed rfl)).1
        exact absurd hv (firstData_ne_nil hr i v hp)
      · exact if_neg hij
    · rfl
  rw [hfirst, List.append_nil] at hfed
  have hm := markedLedger_run hr (hg.mono fun _ _ h => h.2)
  rw [hm.beforeEnd_reads hend (by rw [hfed]; simp), hfed, beforeEnd_chunks]

end Server

/-- The reader gets the bytes of all the events of a stream if and only if the stream_fin brings
none; and the server hands the stream over at all, once, only after a stream_data event. -/
theorem reads_all_payloads_iff (key : CnxPtr) :
    (∀ {es s tr rdy datas fin}, Client.machine.run Client.init es = some (s, tr) →
      Client.machine.Along (fun s e => s.Room (fun _ => true) e ∧ e.RealRead) Client.init es →
      Client.callbacks tr = rdy :: (datas ++ [fin]) → rdy.event = .ready →
      (∀ cb ∈ datas, cb.event = .streamData) → fin.event = .streamFin →
      s.bridge.owner = .held → [] ∈ reads (Client.bridgeTrace tr) →
      (beforeEnd (reads (Client.bridgeTrace tr)) = payloads (datas ++ [fin]) ↔
        fin.payload = [])) ∧
    (∀ {es s tr sid rdy datas fin}, Server.machine.run Server.init es = some (s, tr) →
      Server.callbacksOf key tr = rdy :: (datas ++ [fin]) → Server.Script sid rdy datas fin →
      (∀ j ∈ Server.acceptedOf key tr,
        Server.machine.Along (fun s e => s.Room (fun _ => true) j e ∧ e.RealRead j) Server.init es ∧
          (s.stream j).owner = .held ∧ [] ∈ reads (Server.bridgeTrace j tr)) →
      ((∃ j, Server.acceptedOf key tr = [j] ∧
          beforeEnd (reads (Server.bridgeTrace j tr)) = payloads (datas ++ [fin])) ↔
        datas ≠ [] ∧ fin.payload = [])) := by
  constructor
  · intro es s tr rdy datas fin hr hg hc hrdy hd hf ho hend
    rw [Client.beforeEnd_of_script hr hg hc hrdy hd hf ho hend, payloads_eq_iff]
  · intro es s tr sid rdy datas fin hr hc h hj
    cases Server.phase_run hr h hc with
    | before hc' =>
      rw [hc] at hc'
      cases hc'
    | ready evs cnx hc' ha hl he =>
      have hevs : datas ++ [fin] = evs := by
        rw [hc] at hc'
        exact (List.cons.inj hc').2
      have hdatas : datas = [] := by
        apply List.eq_nil_iff_forall_not_mem.mpr
        intro cb hcb
        exact he cb (by rw [← hevs]; exact List.mem_append_left _ hcb) (h.isData cb hcb)
      simp [ha, hdatas]
    | opened evs i cnx hc' ha hl he hd =>
      have hevs : datas ++ [fin] = evs := by
        rw [hc] at hc'
        exact (List.cons.inj hc').2
      have hdatas : datas ≠ [] := by
        rintro rfl
        obtain ⟨cb, hcb, hev⟩ := hd
        rw [← hevs, List.nil_append, List.mem_singleton] at hcb
        rw [hcb, h.isFin] at hev
        cases hev
      obtain ⟨hg, ho, hend⟩ := hj i (by simp [ha])
      have hbe := Server.beforeEnd_of_script hr h hg (by rw [he, hevs]) ho hend
      simp [ha, hbe, hdatas]

/-- Two chunks and a bare stream_fin, read to the end on both sides. -/
def clientBareFin : List ClientEvent :=
  [.stream ⟨1, 0, none, .ready⟩ 0 0, .stream ⟨1, 0, some [1, 2], .streamData⟩ 0 0,
    .app (.pollRead 1), .stream ⟨1, 0, none, .streamFin⟩ 0 0, .app (.pollRead 8),
    .app (.pollRead 8)]

def serverBareFin : List ServerEvent :=
  [.stream ⟨1, 0, none, .ready⟩, .stream ⟨1, 4, some [1, 2], .streamData⟩, .accept, .resume 0,
    .app 0 (.pollRead 1), .stream ⟨1, 4, none, .streamFin⟩, .app 0 (.pollRead 8),
    .app 0 (.pollRead 8)]

theorem reads_all_payloads_iff_bareFin :
    (∃ s tr, Client.machine.run Client.init clientBareFin = some (s, tr) ∧
      beforeEnd (reads (Client.bridgeTrace tr)) = [1, 2]) ∧
    ∃ s tr, Server.machine.run Server.init serverBareFin = some (s, tr) ∧
      ∃ j, Server.acceptedOf 1 tr = [j] ∧ beforeEnd (reads (Server.bridgeTrace j tr)) = [1, 2] := by
  constructor
  · obtain ⟨s, tr, hr, hc, ho, hend⟩ : ∃ s tr,
        Client.machine.run Client.init clientBareFin = some (s, tr) ∧
        Client.callbacks tr = ⟨1, 0, none, .ready⟩ :: ([⟨1, 0, some [1, 2], .streamData⟩] ++
          [⟨1, 0, none, .streamFin⟩]) ∧
        s.bridge.owner = .held ∧ [] ∈ reads (Client.bridgeTrace tr) :=
      ⟨_, _, rfl, rfl, rfl, by decide⟩
    have hiff := (reads_all_payloads_iff 1).1 hr (by decide) hc rfl (by decide) rfl ho hend
    exact ⟨s, tr, hr, hiff.mpr rfl⟩
  · obtain ⟨s, tr, hr, hc, ho, ha, hend⟩ : ∃ s tr,
        Server.machine.run Server.init serverBareFin = some (s, tr) ∧
        Server.callbacksOf 1 tr = ⟨1, 0, none, .ready⟩ :: ([⟨1, 4, some [1, 2], .streamData⟩] ++
          [⟨1, 4, none, .streamFin⟩]) ∧
        (s.stream 0).owner = .held ∧ Server.acceptedOf 1 tr = [0] ∧
        [] ∈ reads (Server.bridgeTrace 0 tr) :=
      ⟨_, _, rfl, rfl, rfl, rfl, by decide⟩
    have hscript : Server.Script 4 ⟨1, 0, none, .ready⟩ [⟨1, 4, some [1, 2], .streamData⟩]
        ⟨1, 4, none, .streamFin⟩ := ⟨rfl, by decide, rfl, by decide⟩
    refine ⟨s, tr, hr, ((reads_all_payloads_iff 1).2 hr hc hscript ?_).mpr ⟨by decide, rfl⟩⟩
    intro j hj
    rw [ha, List.mem_singleton] at hj
    subst hj
    exact ⟨by decide, ho, hend⟩

/-- A request that comes with its stream_fin: the client's reader misses the last bytes, and the
server never hands the stream over. -/
def clientFinBytes : List ClientEvent :=
  [.stream ⟨1, 0, none, .ready⟩ 0 0, .stream ⟨1, 0, some [1], .streamData⟩ 0 0,
    .stream ⟨1, 0, some [2], .streamFin⟩ 0 0, .app (.pollRead 8), .app (.pollRead 8)]

def serverFinFirst : List ServerEvent :=
  [.stream ⟨1, 0, none, .ready⟩, .stream ⟨1, 4, some [2], .streamFin⟩]

theorem finBytes_lost :
    (∃ s tr, Client.machine.run Client.init clientFinBytes = some (s, tr) ∧
      [] ∈ reads (Client.bridgeTrace tr) ∧ beforeEnd (reads (Client.bridgeTrace tr)) ≠
        payloads [⟨1, 0, some [1], .streamData⟩, ⟨1, 0, some [2], .streamFin⟩]) ∧
    ∃ s tr, Server.machine.run Server.init serverFinFirst = some (s, tr) ∧
      ∀ j, Server.acceptedOf 1 tr ≠ [j] :=
  ⟨⟨_, _, rfl, by decide, by decide⟩, _, _, rfl, nofun⟩

end TransportProxy.Slipstream
