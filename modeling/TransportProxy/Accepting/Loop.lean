import TransportProxy.Foundations.Machine
import TransportProxy.Foundations.Semaphore

/-! # The accept loops

`run_kcp_tokio_server` and `run_quinn_server` of `bin/server.rs`, `server::run_server` of
`transport/slipstream.rs` and the loop of `main` in `bin/client.rs`.

All four poll a `biased` select of `shutdown_rx.recv()` and an accept, wait for a permit once a
connection has come, and spawn its handler, which holds the permit until it is done. They differ in
what they do when the accept comes back without a connection, and the KCP server binds its listener
again and again around the same loop: `AcceptLoop` has the two differences.

The signal may come between the two polls of one select, so `AcceptPc` has a place for either.
Nothing else looks at it.
-/
namespace TransportProxy.Accepting
open Foundations
set_option autoImplicit false

/-- Where an accept loop stands. -/
inductive AcceptPc where
  /-- at the top of the outer loop: `KcpListener::bind` is next -/
  | bind
  | binding
  /-- `sleep` after a bind that failed -/
  | retrySleep
  /-- the select is polled: `shutdown_rx.recv()` comes first -/
  | select
  /-- the signal has not come, the accept is polled next -/
  | accept
  /-- a connection was accepted: in `acquire_owned()` -/
  | permit
  /-- `sleep` after the inner loop, before the listener is bound again -/
  | rebindSleep
  | left
  deriving DecidableEq, Repr

/-- An accept that comes back without a connection. -/
inductive AcceptFailure where
  | error
  /-- `None`: there will be no more connections -/
  | closed
  | timedOut
  deriving DecidableEq, Repr

/-- What the accept loops do differently: where they start, and where an accept without a connection
leads. `none` stands for a result that the accept of the loop does not have. -/
structure AcceptLoop where
  start : AcceptPc
  onFailure : AcceptFailure → Option AcceptPc

def runKcpTokioServer : AcceptLoop where
  start := .bind
  onFailure
    | .error | .timedOut => some .rebindSleep
    | .closed => none

def runQuinnServer : AcceptLoop where
  start := .select
  onFailure
    | .closed => some .left
    | .timedOut => some .select
    | .error => none

/-- `run_server` of the slipstream transport, whose accept is `accept_rx.recv()`. -/
def runServer : AcceptLoop where
  start := .select
  onFailure
    | .closed => some .left
    | .timedOut => some .select
    | .error => none

/-- The loop of `main` in the client, whose accept has no timeout. -/
def clientMain : AcceptLoop where
  start := .select
  onFailure
    | .error => some .select
    | .closed | .timedOut => none

def acceptLoops : List AcceptLoop := [runKcpTokioServer, runQuinnServer, runServer, clientMain]

/-- `(args.max_connections > 0).then(|| Arc::new(Semaphore::new(args.max_connections)))` -/
def semaphoreOf (maxConnections : ℕ) : Option (Semaphore maxConnections) :=
  if 0 < maxConnections then some (.new maxConnections) else none

/-- An accept loop with the tasks it has spawned, under a limit of `n` connections. -/
structure Acceptor (n : ℕ) where
  pc : AcceptPc
  signalled : Bool
  semaphore : Option (Semaphore n)
  handlers : ℕ
  deriving DecidableEq, Repr

inductive LoopEvent where
  /-- `shutdown_tx.send(())` -/
  | signal
  /-- a handler is done and drops its permit -/
  | handlerDone
  /-- the semaphore is closed, which no code of the program does -/
  | closeSemaphore
  | bind
  | bound (ok : Bool)
  | slept
  /-- `shutdown_rx.recv()` is polled -/
  | poll
  /-- the accept is pending as well: the task waits for either to wake it -/
  | pending
  | accepted
  | acceptFailed (r : AcceptFailure)
  /-- `acquire_owned()` completes -/
  | acquired
  deriving DecidableEq, Repr

/-- The steps of the loop itself; the rest is done by others. -/
def LoopEvent.own : LoopEvent → Bool
  | .signal | .handlerDone | .closeSemaphore => false
  | _ => true

inductive LoopObs where
  | bind
  | spawned
  | left
  deriving DecidableEq, Repr

namespace AcceptLoop
variable {n : ℕ}

def init (l : AcceptLoop) (n : ℕ) : Acceptor n := ⟨l.start, false, semaphoreOf n, 0⟩

/-- `tokio::spawn`, and back to the select. -/
def spawn (s : Acceptor n) : Acceptor n × List LoopObs :=
  ({ s with pc := .select, handlers := s.handlers + 1 }, [.spawned])

def acquireOwned (s : Acceptor n) : Option (Acceptor n × List LoopObs) :=
  match s.semaphore with
  | none => none
  | some sem =>
    match sem.acquire with
    | .pending => none
    | .ready none => some ({ s with pc := .select }, [])
    | .ready (some sem') => some (spawn { s with semaphore := some sem' })

def step (l : AcceptLoop) (s : Acceptor n) : LoopEvent → Option (Acceptor n × List LoopObs)
  | .signal => some ({ s with signalled := true }, [])
  | .handlerDone =>
    if 0 < s.handlers then
      some ({ s with handlers := s.handlers - 1, semaphore := s.semaphore.map .release }, [])
    else none
  | .closeSemaphore => some ({ s with semaphore := s.semaphore.map .close }, [])
  | .bind => if s.pc = .bind then some ({ s with pc := .binding }, [.bind]) else none
  | .bound ok =>
    if s.pc = .binding then some ({ s with pc := if ok then .select else .retrySleep }, [])
    else none
  | .slept =>
    if s.pc = .retrySleep ∨ s.pc = .rebindSleep then some ({ s with pc := .bind }, []) else none
  | .poll =>
    if s.pc = .select then
      if s.signalled then some ({ s with pc := .left }, [.left])
      else some ({ s with pc := .accept }, [])
    else none
  | .pending => if s.pc = .accept then some ({ s with pc := .select }, []) else none
  | .accepted =>
    if s.pc = .accept then
      match s.semaphore with
      | none => some (spawn s)
      | some _ => some ({ s with pc := .permit }, [])
    else none
  | .acceptFailed r =>
    if s.pc = .accept then
      (l.onFailure r).map fun pc => ({ s with pc := pc }, if pc = .left then [.left] else [])
    else none
  | .acquired => if s.pc = .permit then acquireOwned s else none

/-- An accept loop under every interleaving with the signal and with its handlers. -/
def machine (l : AcceptLoop) (n : ℕ) : Machine (Acceptor n) LoopEvent LoopObs := ⟨l.step⟩

/-! ## What one step can do -/

inductive Step (l : AcceptLoop) (s : Acceptor n) :
    LoopEvent → Acceptor n → List LoopObs → Prop where
  | signal : Step l s .signal { s with signalled := true } []
  | handlerDone (hh : 0 < s.handlers) :
      Step l s .handlerDone
        { s with handlers := s.handlers - 1, semaphore := s.semaphore.map .release } []
  | closeSemaphore : Step l s .closeSemaphore { s with semaphore := s.semaphore.map .close } []
  | bind (hp : s.pc = .bind) : Step l s .bind { s with pc := .binding } [.bind]
  | bound (hp : s.pc = .binding) : Step l s (.bound true) { s with pc := .select } []
  | bindFailed (hp : s.pc = .binding) : Step l s (.bound false) { s with pc := .retrySleep } []
  | slept (hp : s.pc = .retrySleep ∨ s.pc = .rebindSleep) :
      Step l s .slept { s with pc := .bind } []
  | leave (hp : s.pc = .select) (hs : s.signalled = true) :
      Step l s .poll { s with pc := .left } [.left]
  | poll (hp : s.pc = .select) (hs : s.signalled = false) :
      Step l s .poll { s with pc := .accept } []
  | pending (hp : s.pc = .accept) : Step l s .pending { s with pc := .select } []
  | accepted {sem} (hp : s.pc = .accept) (hs : s.semaphore = some sem) :
      Step l s .accepted { s with pc := .permit } []
  | acceptedUnlimited (hp : s.pc = .accept) (hs : s.semaphore = none) :
      Step l s .accepted { s with pc := .select, handlers := s.handlers + 1 } [.spawned]
  | acceptFailed {r pc} (hp : s.pc = .accept) (hr : l.onFailure r = some pc) :
      Step l s (.acceptFailed r) { s with pc := pc } (if pc = .left then [.left] else [])
  | acquired {sem sem'} (hp : s.pc = .permit) (hs : s.semaphore = some sem)
      (ha : sem.acquire = .ready (some sem')) :
      Step l s .acquired
        { s with pc := .select, semaphore := some sem', handlers := s.handlers + 1 } [.spawned]
  | acquireFailed {sem} (hp : s.pc = .permit) (hs : s.semaphore = some sem)
      (ha : sem.acquire = .ready none) : Step l s .acquired { s with pc := .select } []

theorem acquireOwned_cases {l : AcceptLoop} {s s' : Acceptor n} {out : List LoopObs}
    (hp : s.pc = .permit) (h : acquireOwned s = some (s', out)) : Step l s .acquired s' out := by
  unfold acquireOwned at h
  cases hs : s.semaphore with
  | none =>
    rw [hs] at h
    cases h
  | some sem =>
    rw [hs] at h
    cases ha : sem.acquire with
    | pending =>
      simp only [ha] at h
      cases h
    | ready r =>
      cases r with
      | none =>
        simp only [ha, Option.some.injEq, Prod.mk.injEq] at h
        obtain ⟨rfl, rfl⟩ := h
        exact hs ▸ .acquireFailed hp hs ha
      | some sem' =>
        simp only [ha, spawn, Option.some.injEq, Prod.mk.injEq] at h
        obtain ⟨rfl, rfl⟩ := h
        exact .acquired hp hs ha

theorem step_cases {l : AcceptLoop} {s s' : Acceptor n} {e : LoopEvent} {out : List LoopObs}
    (h : (l.machine n).step s e = some (s', out)) : Step l s e s' out := by
  cases e with
  | signal =>
    obtain ⟨rfl, rfl⟩ := Prod.mk.inj (Option.some.inj h)
    exact .signal
  | handlerDone =>
    obtain ⟨hh, h⟩ := Option.ite_none_right_eq_some.mp h
    cases h
    exact .handlerDone hh
  | closeSemaphore =>
    obtain ⟨rfl, rfl⟩ := Prod.mk.inj (Option.some.inj h)
    exact .closeSemaphore
  | bind =>
    obtain ⟨hp, h⟩ := Option.ite_none_right_eq_some.mp h
    cases h
    exact .bind hp
  | bound ok =>
    obtain ⟨hp, h⟩ := Option.ite_none_right_eq_some.mp h
    cases h
    cases ok with
    | true => exact .bound hp
    | false => exact .bindFailed hp
  | slept =>
    obtain ⟨hp, h⟩ := Option.ite_none_right_eq_some.mp h
    cases h
    exact .slept hp
  | poll =>
    simp only [machine, step, Option.ite_none_right_eq_some] at h
    obtain ⟨hp, h⟩ := h
    cases hs : s.signalled with
    | true =>
      rw [hs, if_pos rfl] at h
      obtain ⟨rfl, rfl⟩ := Prod.mk.inj (Option.some.inj h)
      exact hs ▸ .leave hp hs
    | false =>
      rw [hs, if_neg Bool.false_ne_true] at h
      obtain ⟨rfl, rfl⟩ := Prod.mk.inj (Option.some.inj h)
      exact hs ▸ .poll hp hs
  | pending =>
    obtain ⟨hp, h⟩ := Option.ite_none_right_eq_some.mp h
    cases h
    exact .pending hp
  | accepted =>
    simp only [machine, step, Option.ite_none_right_eq_some] at h
    obtain ⟨hp, h⟩ := h
    cases hs : s.semaphore with
    | none =>
      simp only [hs, spawn, Option.some.injEq, Prod.mk.injEq] at h
      obtain ⟨rfl, rfl⟩ := h
      exact hs ▸ .acceptedUnlimited hp hs
    | some sem =>
      simp only [hs, Option.some.injEq, Prod.mk.injEq] at h
      obtain ⟨rfl, rfl⟩ := h
      exact hs ▸ .accepted hp hs
  | acceptFailed r =>
    simp only [machine, step, Option.ite_none_right_eq_some, Option.map_eq_some_iff,
      Prod.mk.injEq] at h
    obtain ⟨hp, pc, hr, rfl, rfl⟩ := h
    exact .acceptFailed hp hr
  | acquired =>
    simp only [machine, step, Option.ite_none_right_eq_some] at h
    exact acquireOwned_cases h.1 h.2

/-- Conversely, every step of the list is taken. -/
theorem Step.step {l : AcceptLoop} {s s' : Acceptor n} {e : LoopEvent} {out : List LoopObs}
    (h : Step l s e s' out) : (l.machine n).step s e = some (s', out) := by
  cases h with
  | signal | closeSemaphore => rfl
  | handlerDone hh => exact if_pos hh
  | bind hp | bound hp | bindFailed hp | slept hp | pending hp => exact if_pos hp
  | leave hp hs | poll hp hs => simp [machine, AcceptLoop.step, hp, hs]
  | accepted hp hs | acceptedUnlimited hp hs => simp [machine, AcceptLoop.step, spawn, hp, hs]
  | acceptFailed hp hr => simp [machine, AcceptLoop.step, hp, hr]
  | acquired hp hs ha | acquireFailed hp hs ha =>
    simp [machine, AcceptLoop.step, acquireOwned, spawn, hp, hs, ha]

end AcceptLoop
end TransportProxy.Accepting
