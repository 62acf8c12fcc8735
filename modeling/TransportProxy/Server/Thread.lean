import TransportProxy.Server.Callbacks
import TransportProxy.Accepting.Loop

/-! # `run_server`: the packet-loop thread and the accept loop

The thread sets up, creates the picoquic context, runs the packet loop and ends; `ThreadPc` follows
it. `accept_tx` moves into the closure, then into the boxed `ServerGlobalCtx`, and is dropped with
whichever of them holds it. The callbacks of `server` run while the packet loop or `picoquic_free`
does. The accept loop takes the halves out of the channel at the other end.

Each step of the set-up has an outcome, as has `picoquic_create`, and the packet loop may return
between any two callbacks.
-/
namespace TransportProxy.Slipstream
open Foundations Accepting
set_option autoImplicit false

/-- Where the packet-loop thread stands: the call that it makes next. -/
inductive ThreadPc where
  /-- `std::fs::read` of the certificate and of the key -/
  | readFiles
  /-- `NamedTempFile::new_in` for either -/
  | certFile
  | keyFile
  /-- `CString::new` of either path -/
  | certPath
  | keyPath
  /-- the context is boxed: `picoquic_create` -/
  | create
  /-- that gave null: `create_temp_pem_files`, the paths of the new files, `picoquic_create` -/
  | retryFiles
  | retryPaths
  | retryCreate
  | packetLoop
  | free
  | ended
  deriving DecidableEq, Repr

structure ServerRun (n : ℕ) where
  thread : ThreadPc
  /-- `accept_tx` is alive -/
  acceptTx : Bool
  server : Server
  acceptor : Acceptor n

inductive RunEvent where
  /-- the outcome of the next step of the set-up -/
  | setup (ok : Bool)
  /-- `picoquic_create` returned, and whether it returned a context -/
  | created (quic : Bool)
  /-- a callback, or the next channel operation of one -/
  | callback (e : ServerEvent)
  | loopReturned
  | freed
  /-- the task that holds the halves of a stream -/
  | app (index : ℕ) (op : AppOp)
  | accepting (e : LoopEvent)
  deriving DecidableEq, Repr

inductive RunObs where
  | server (o : ServerObs)
  | loop (o : LoopObs)
  /-- `Box::into_raw(global_ctx)` -/
  | boxed
  /-- `Box::from_raw(ctx_ptr)`, which is dropped -/
  | reclaimed
  deriving DecidableEq, Repr

namespace Server

/-- The three ends of a `ServerConnState` are dropped. -/
def dropEnds (streams : List Bridge) (state : ServerConnState) : List Bridge × List ServerObs :=
  match state.stream with
  | none => (streams, [])
  | some st =>
    let r₁ := loopAt streams st.index .dropRecvTx
    let r₂ := loopAt r₁.1 st.index .dropSendRx
    let r₃ := loopAt r₂.1 st.index .dropWakeTx
    (r₃.1, r₁.2 ++ r₂.2 ++ r₃.2)

def dropStates (streams : List Bridge) :
    List (Sigma fun _ : CnxPtr => ServerConnState) → List Bridge × List ServerObs
  | [] => (streams, [])
  | entry :: rest =>
    let r := dropEnds streams entry.2
    let q := dropStates r.1 rest
    (q.1, r.2 ++ q.2)

/-- The map is dropped. -/
def dropConnections (s : Server) : Server × List ServerObs :=
  let r := dropStates s.streams s.connections.entries
  ({ s with connections := ∅, streams := r.1 }, r.2)

end Server

namespace ServerRun
variable {n : ℕ}

def init (n : ℕ) : ServerRun n := ⟨.readFiles, true, .init, runServer.init n⟩

/-- `return` before the context is boxed: `accept_tx` is dropped with the closure. -/
def returnEarly (s : ServerRun n) : ServerRun n × List RunObs :=
  ({ s with thread := .ended, acceptTx := false }, [])

/-- `Box::from_raw(ctx_ptr)`: `accept_tx` is dropped, then the map. -/
def reclaim (s : ServerRun n) : ServerRun n × List RunObs :=
  let r := s.server.dropConnections
  ({ s with thread := .ended, acceptTx := false, server := r.1 }, .reclaimed :: r.2.map .server)

def goto (s : ServerRun n) (pc : ThreadPc) : ServerRun n × List RunObs :=
  ({ s with thread := pc }, [])

def setup (s : ServerRun n) (ok : Bool) : Option (ServerRun n × List RunObs) :=
  match s.thread with
  | .readFiles => some (if ok then s.goto .certFile else s.goto .certPath)
  | .certFile => some (if ok then s.goto .keyFile else s.returnEarly)
  | .keyFile => some (if ok then s.goto .certPath else s.returnEarly)
  | .certPath => some (if ok then s.goto .keyPath else s.returnEarly)
  | .keyPath => some (if ok then ({ s with thread := .create }, [.boxed]) else s.returnEarly)
  | .retryFiles => some (if ok then s.goto .retryPaths else s.reclaim)
  | .retryPaths => some (if ok then s.goto .retryCreate else s.reclaim)
  | _ => none

def created (s : ServerRun n) (quic : Bool) : Option (ServerRun n × List RunObs) :=
  match s.thread with
  | .create => some (if quic then s.goto .packetLoop else s.goto .retryFiles)
  | .retryCreate => some (if quic then s.goto .packetLoop else s.reclaim)
  | _ => none

/-- The packet loop makes the callbacks of both kinds, `picoquic_free` those of the streams. -/
def callback (s : ServerRun n) (e : ServerEvent) : Option (ServerRun n × List RunObs) :=
  let allowed : Bool := match s.thread, e with
    | .packetLoop, .stream _ | .packetLoop, .loop _ _ _ | .packetLoop, .resume _ => true
    | .free, .stream _ | .free, .resume _ => true
    | _, _ => false
  if allowed then
    (s.server.step e).map fun r => ({ s with server := r.1 }, r.2.map .server)
  else none

/-- What `accept_rx.recv()` finds. -/
def acceptRecv (s : ServerRun n) : Poll (Option ℕ) :=
  match s.server.acceptQ with
  | i :: _ => .ready (some i)
  | [] => if s.acceptTx then .pending else .ready none

/-- The results of the accept are those of `accept_rx.recv()`; its timeout can fire while that is
pending. -/
def accepting (s : ServerRun n) (e : LoopEvent) : Option (ServerRun n × List RunObs) :=
  (runServer.step s.acceptor e).bind fun r =>
    match e with
    | .accepted =>
      (s.server.step .accept).map fun q =>
        ({ s with acceptor := r.1, server := q.1 }, r.2.map .loop)
    | .acceptFailed .closed =>
      if s.acceptRecv = .ready none then some ({ s with acceptor := r.1 }, r.2.map .loop) else none
    | .acceptFailed _ | .pending =>
      if s.acceptRecv = .pending then some ({ s with acceptor := r.1 }, r.2.map .loop) else none
    | _ => some ({ s with acceptor := r.1 }, r.2.map .loop)

def step (s : ServerRun n) : RunEvent → Option (ServerRun n × List RunObs)
  | .setup ok => s.setup ok
  | .created quic => s.created quic
  | .callback e => s.callback e
  | .loopReturned =>
    if s.thread = .packetLoop ∧ s.server.pc = .idle then some (s.goto .free) else none
  | .freed =>
    -- `ok` is true: the context stays where it is
    if s.thread = .free ∧ s.server.pc = .idle then some (s.goto .ended) else none
  | .app i op =>
    (s.server.step (.app i op)).map fun r => ({ s with server := r.1 }, r.2.map .server)
  | .accepting e => s.accepting e

/-- The server under every interleaving of its thread, its accept loop and its handlers. -/
def machine (n : ℕ) : Machine (ServerRun n) RunEvent RunObs := ⟨step⟩

/-! ## What one step can do -/

end ServerRun

def ThreadPc.bare : ThreadPc → Bool
  | .readFiles | .certFile | .keyFile | .certPath | .keyPath => true
  | _ => false

/-- The context is boxed, and `picoquic_create` has not given a context so far. -/
def ThreadPc.holding : ThreadPc → Bool
  | .create | .retryFiles | .retryPaths | .retryCreate => true
  | _ => false

theorem ThreadPc.not_holding_of_bare {pc : ThreadPc} (h : pc.bare = true) : pc.holding = false := by
  cases pc <;> first | rfl | cases h

namespace ServerRun
variable {n : ℕ}

inductive Step (s : ServerRun n) : RunEvent → ServerRun n → List RunObs → Prop where
  | prepare {ok pc} (hb : s.thread.bare = true) (hb' : pc.bare = true) :
      Step s (.setup ok) { s with thread := pc } []
  | box (hb : s.thread.bare = true) : Step s (.setup true) { s with thread := .create } [.boxed]
  | returned (hb : s.thread.bare = true) :
      Step s (.setup false) { s with thread := .ended, acceptTx := false } []
  | retry {e pc} (he : e ≠ .created true) (hh : s.thread.holding = true)
      (hh' : pc.holding = true) : Step s e { s with thread := pc } []
  | reclaim {e} (he : e ≠ .created true) (hh : s.thread.holding = true) :
      Step s e s.reclaim.1 s.reclaim.2
  | opened (hh : s.thread.holding = true) :
      Step s (.created true) { s with thread := .packetLoop } []
  | callback {e sv out} (hp : s.thread = .packetLoop ∨ s.thread = .free)
      (h : s.server.step e = some (sv, out)) :
      Step s (.callback e) { s with server := sv } (out.map .server)
  | loopReturned (hp : s.thread = .packetLoop) : Step s .loopReturned { s with thread := .free } []
  | freed (hp : s.thread = .free) : Step s .freed { s with thread := .ended } []
  | app {i op sv out} (h : s.server.step (.app i op) = some (sv, out)) :
      Step s (.app i op) { s with server := sv } (out.map .server)
  | accepted {a sv out o} (h : runServer.step s.acceptor .accepted = some (a, out))
      (hq : s.server.step .accept = some (sv, o)) :
      Step s (.accepting .accepted) { s with acceptor := a, server := sv } (out.map .loop)
  | accepting {e a out} (h : runServer.step s.acceptor e = some (a, out)) (he : e ≠ .accepted)
      (hc : e = .acceptFailed .closed → s.acceptRecv = .ready none)
      (hp : e = .pending ∨ e = .acceptFailed .timedOut → s.acceptRecv = .pending) :
      Step s (.accepting e) { s with acceptor := a } (out.map .loop)

theorem setup_cases {s s' : ServerRun n} {ok : Bool} {out : List RunObs}
    (h : s.setup ok = some (s', out)) : Step s (.setup ok) s' out := by
  have hne : RunEvent.setup ok ≠ .created true := RunEvent.noConfusion
  cases hp : s.thread <;> simp only [setup, hp, reduceCtorEq, Option.some.injEq] at h
  case readFiles =>
    cases ok <;> cases h <;> exact .prepare (by rw [hp]; rfl) rfl
  case retryFiles | retryPaths =>
    cases ok with
    | true =>
      cases h
      exact .retry hne (by rw [hp]; rfl) rfl
    | false =>
      rw [if_neg Bool.false_ne_true] at h
      rw [← show s.reclaim.1 = s' by rw [h], ← show s.reclaim.2 = out by rw [h]]
      exact .reclaim hne (by rw [hp]; rfl)
  case keyPath =>
    cases ok <;> cases h
    · exact .returned (by rw [hp]; rfl)
    · exact .box (by rw [hp]; rfl)
  all_goals
    cases ok <;> cases h
    · exact .returned (by rw [hp]; rfl)
    · exact .prepare (by rw [hp]; rfl) rfl

theorem created_cases {s s' : ServerRun n} {quic : Bool} {out : List RunObs}
    (h : s.created quic = some (s', out)) : Step s (.created quic) s' out := by
  have hne : RunEvent.created false ≠ .created true := by simp
  cases hp : s.thread <;> simp only [created, hp, reduceCtorEq, Option.some.injEq] at h
  case create =>
    cases quic <;> cases h
    · exact .retry hne (by rw [hp]; rfl) rfl
    · exact .opened (by rw [hp]; rfl)
  case retryCreate =>
    cases quic with
    | true =>
      cases h
      exact .opened (by rw [hp]; rfl)
    | false =>
      rw [if_neg Bool.false_ne_true] at h
      rw [← show s.reclaim.1 = s' by rw [h], ← show s.reclaim.2 = out by rw [h]]
      exact .reclaim hne (by rw [hp]; rfl)

theorem callback_cases {s s' : ServerRun n} {e : ServerEvent} {out : List RunObs}
    (h : s.callback e = some (s', out)) : Step s (.callback e) s' out := by
  simp only [callback, Option.ite_none_right_eq_some, Option.map_eq_some_iff, Prod.mk.injEq] at h
  obtain ⟨ha, ⟨sv, o⟩, hs, rfl, rfl⟩ := h
  refine .callback ?_ hs
  cases hp : s.thread <;> simp [hp] at ha ⊢

theorem accepting_cases {s s' : ServerRun n} {e : LoopEvent} {out : List RunObs}
    (h : s.accepting e = some (s', out)) : Step s (.accepting e) s' out := by
  obtain ⟨⟨a, o⟩, hs, h⟩ := Option.bind_eq_some_iff.mp h
  cases e with
  | accepted =>
    simp only [Option.map_eq_some_iff, Prod.mk.injEq] at h
    obtain ⟨⟨sv, o'⟩, hq, rfl, rfl⟩ := h
    exact .accepted hs hq
  | acceptFailed r =>
    cases r with
    | closed =>
      simp only [Option.ite_none_right_eq_some, Option.some.injEq, Prod.mk.injEq] at h
      obtain ⟨hr, rfl, rfl⟩ := h
      exact .accepting hs (by simp) (fun _ => hr) (by simp)
    | _ =>
      simp only [Option.ite_none_right_eq_some, Option.some.injEq, Prod.mk.injEq] at h
      obtain ⟨hr, rfl, rfl⟩ := h
      exact .accepting hs (by simp) (by simp) (fun _ => hr)
  | pending =>
    simp only [Option.ite_none_right_eq_some, Option.some.injEq, Prod.mk.injEq] at h
    obtain ⟨hr, rfl, rfl⟩ := h
    exact .accepting hs (by simp) (by simp) (fun _ => hr)
  | _ =>
    cases h
    exact .accepting hs (by simp) (by simp) (by simp)

theorem step_cases {s s' : ServerRun n} {e : RunEvent} {out : List RunObs}
    (h : (machine n).step s e = some (s', out)) : Step s e s' out := by
  cases e with
  | setup ok => exact setup_cases h
  | created quic => exact created_cases h
  | callback e => exact callback_cases h
  | loopReturned =>
    simp only [machine, step, Option.ite_none_right_eq_some, Option.some.injEq] at h
    obtain ⟨⟨hp, -⟩, h⟩ := h
    cases h
    exact .loopReturned hp
  | freed =>
    simp only [machine, step, Option.ite_none_right_eq_some, Option.some.injEq] at h
    obtain ⟨⟨hp, -⟩, h⟩ := h
    cases h
    exact .freed hp
  | app i op =>
    simp only [machine, step, Option.map_eq_some_iff, Prod.mk.injEq] at h
    obtain ⟨⟨sv, o⟩, hs, rfl, rfl⟩ := h
    exact .app hs
  | accepting e => exact accepting_cases h

end ServerRun

/-! ## The accept loop of a run -/

def RunObs.server? : RunObs → Option ServerObs
  | .server o => some o
  | _ => none

def RunObs.loop? : RunObs → Option LoopObs
  | .loop o => some o
  | _ => none

@[simp] theorem loops_map_loop (l : List LoopObs) :
    (l.map RunObs.loop).filterMap RunObs.loop? = l := by
  rw [List.filterMap_map]
  exact List.filterMap_some

@[simp] theorem loops_map_server (l : List ServerObs) :
    (l.map RunObs.server).filterMap RunObs.loop? = [] := filterMap_map_none (fun _ => rfl) l

@[simp] theorem servers_map_server (l : List ServerObs) :
    (l.map RunObs.server).filterMap RunObs.server? = l := by
  rw [List.filterMap_map]
  exact List.filterMap_some

@[simp] theorem servers_map_loop (l : List LoopObs) :
    (l.map RunObs.loop).filterMap RunObs.server? = [] := filterMap_map_none (fun _ => rfl) l

namespace ServerRun
variable {n : ℕ}

theorem Step.acceptor {s s' : ServerRun n} {e : RunEvent} {out : List RunObs}
    (h : Step s e s' out) :
    (s'.acceptor = s.acceptor ∧ out.filterMap RunObs.loop? = []) ∨
      ∃ d, (runServer.machine n).step s.acceptor d =
        some (s'.acceptor, out.filterMap RunObs.loop?) := by
  cases h with
  | accepted h => exact .inr ⟨.accepted, by rw [loops_map_loop]; exact h⟩
  | @accepting d _ _ h => exact .inr ⟨d, by rw [loops_map_loop]; exact h⟩
  | reclaim =>
    have ht := loops_map_server s.server.dropConnections.2
    exact .inl ⟨rfl, ht⟩
  | callback | app => exact .inl ⟨rfl, loops_map_server _⟩
  | _ => exact .inl ⟨rfl, rfl⟩

/-- The accept loop takes the steps of `runServer`, and no others. -/
def acceptorProjection (n : ℕ) : Machine.Projection (machine n) (runServer.machine n) where
  state := ServerRun.acceptor
  obs := RunObs.loop?
  sound s e s' out h := by
    obtain ⟨ha, ht⟩ | ⟨d, hd⟩ := (step_cases h).acceptor
    · refine ⟨[], ?_⟩
      rw [Machine.run_nil, ha, ht]
    · exact ⟨[d], (Machine.run_single_iff ..).mpr hd⟩

end ServerRun
end TransportProxy.Slipstream
