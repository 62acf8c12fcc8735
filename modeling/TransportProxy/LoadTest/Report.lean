import TransportProxy.Foundations.Machine
import TransportProxy.LoadTest.Client

/-! # The report of the load test

`main` of `bin/load_test.rs` spawns the clients, waits for one after the other, and prints what the
four counters have come to. The counters wrap around at `2 ^ 64`, as `fetch_add` does.

A message passes six marks, and `passed k` counts a client's messages that have passed the mark `k`.
The counters are what the marks in the trace add up to, and once all clients are over the marks
differ only where a client failed.
-/
namespace TransportProxy.LoadTest
open Foundations Slipstream
set_option autoImplicit false

/-- `TOTAL_SENT`, `TOTAL_RECV`, `TOTAL_LATENCY_MS` and `LATENCY_COUNT`. -/
structure Totals where
  sent : UInt64
  recv : UInt64
  latencyMs : UInt64
  latencyCount : UInt64
  deriving DecidableEq, Repr

namespace Totals

def zero : Totals := ⟨0, 0, 0, 0⟩

def add (t : Totals) : Mark → Totals
  | .countedSent => { t with sent := t.sent + 1 }
  | .addedLatency rttMs => { t with latencyMs := t.latencyMs + rttMs }
  | .countedLatency => { t with latencyCount := t.latencyCount + 1 }
  | .countedRecv => { t with recv := t.recv + 1 }
  | .flushed _ | .answered _ _ => t

end Totals

/-- Where `main` stands. -/
inductive MainPc where
  | spawning
  /-- at `h.await` for this client, with this many failures before -/
  | joining (next failures : ℕ)
  | reported
  deriving DecidableEq, Repr

structure LoadMain where
  clients : List LoadClient
  totals : Totals
  main : MainPc

structure Report where
  totals : Totals
  failures : ℕ
  deriving DecidableEq, Repr

/-- `std::process::exit(1)` if there are failures. -/
def Report.exitCode (r : Report) : ℕ := if 0 < r.failures then 1 else 0

inductive LoadEvent where
  | spawn
  | client (id : ℕ) (e : ClientEvent)
  | join
  | report
  deriving DecidableEq, Repr

inductive LoadObs where
  | mark (id : ℕ) (m : Mark)
  | report (r : Report)
  deriving DecidableEq, Repr

/-- `run_client` has come back with this result; `none` while it runs. -/
def ClientPc.result : ClientPc → Option Bool
  | .returned => some true
  | .failed _ => some false
  | _ => none

namespace LoadMain

def init (args : Args) : LoadMain :=
  ⟨[], .zero, if args.connections = 0 then .joining 0 0 else .spawning⟩

def spawn (args : Args) (s : LoadMain) : Option (LoadMain × List LoadObs) :=
  if s.main = .spawning then
    some ({ s with
      clients := s.clients ++ [.init]
      main := if s.clients.length + 1 = args.connections then .joining 0 0 else .spawning }, [])
  else none

def clientStep (args : Args) (s : LoadMain) (id : ℕ) (e : ClientEvent) :
    Option (LoadMain × List LoadObs) :=
  match s.clients[id]? with
  | none => none
  | some c => (c.step args id e).map fun r =>
    ({ s with clients := s.clients.set id r.1, totals := r.2.foldl Totals.add s.totals },
      r.2.map (.mark id))

def join (s : LoadMain) : Option (LoadMain × List LoadObs) :=
  match s.main with
  | .joining next failures =>
    match s.clients[next]? with
    | none => none
    | some c => c.pc.result.map fun ok =>
      ({ s with main := .joining (next + 1) (if ok then failures else failures + 1) }, [])
  | _ => none

/-- The counters are loaded after the last client is over. -/
def report (s : LoadMain) : Option (LoadMain × List LoadObs) :=
  match s.main with
  | .joining next failures =>
    if next = s.clients.length then
      some ({ s with main := .reported }, [.report ⟨s.totals, failures⟩])
    else none
  | _ => none

def step (args : Args) (s : LoadMain) : LoadEvent → Option (LoadMain × List LoadObs)
  | .spawn => s.spawn args
  | .client id e => s.clientStep args id e
  | .join => s.join
  | .report => s.report

/-- `main` and its clients under every interleaving. -/
def machine (args : Args) : Machine LoadMain LoadEvent LoadObs := ⟨step args⟩

/-! ## What one step can do -/

inductive Step (args : Args) (s : LoadMain) : LoadEvent → LoadMain → List LoadObs → Prop where
  | spawn (hm : s.main = .spawning) :
      Step args s .spawn
        { s with
          clients := s.clients ++ [.init]
          main := if s.clients.length + 1 = args.connections then .joining 0 0 else .spawning } []
  | client {id e c c' out} (hc : s.clients[id]? = some c) (h : c.step args id e = some (c', out)) :
      Step args s (.client id e)
        { s with clients := s.clients.set id c', totals := out.foldl Totals.add s.totals }
        (out.map (.mark id))
  | join {next failures c ok} (hm : s.main = .joining next failures)
      (hc : s.clients[next]? = some c) (hr : c.pc.result = some ok) :
      Step args s .join
        { s with main := .joining (next + 1) (if ok then failures else failures + 1) } []
  | report {failures} (hm : s.main = .joining s.clients.length failures) :
      Step args s .report { s with main := .reported } [.report ⟨s.totals, failures⟩]

theorem step_cases {args : Args} {s s' : LoadMain} {e : LoadEvent} {out : List LoadObs}
    (h : (machine args).step s e = some (s', out)) : Step args s e s' out := by
  cases e with
  | spawn =>
    obtain ⟨hm, h⟩ := Option.ite_none_right_eq_some.mp h
    cases h
    exact .spawn hm
  | client id e =>
    simp only [machine, step, clientStep] at h
    split at h
    · cases h
    · obtain ⟨⟨c', out⟩, hs, he⟩ := Option.map_eq_some_iff.mp h
      cases he
      exact .client ‹_› hs
  | join =>
    simp only [machine, step, join] at h
    split at h
    · split at h
      · cases h
      · obtain ⟨ok, hr, he⟩ := Option.map_eq_some_iff.mp h
        cases he
        exact .join ‹_› ‹_› hr
    · cases h
  | report =>
    simp only [machine, step, report] at h
    split at h
    · rename_i hm
      obtain ⟨hn, h⟩ := Option.ite_none_right_eq_some.mp h
      cases h
      exact .report (hn ▸ hm)
    · cases h

end LoadMain

/-! ## The marks that a message passes -/

/-- How many marks the message in hand has passed. -/
def ClientPc.stage : ClientPc → ℕ
  | .countSent => 1
  | .readExact _ | .failed true => 2
  | .addLatency => 3
  | .countLatency => 4
  | .countRecv => 5
  | _ => 0

def Mark.stage : Mark → ℕ
  | .flushed _ => 1
  | .countedSent => 2
  | .answered _ _ => 3
  | .addedLatency _ => 4
  | .countedLatency => 5
  | .countedRecv => 6

/-- How many marks of this stage there are. -/
def marked (k : ℕ) (ms : List Mark) : ℕ := ms.countP fun m => m.stage = k

@[simp] theorem marked_append (k : ℕ) (ms ns : List Mark) :
    marked k (ms ++ ns) = marked k ms + marked k ns := List.countP_append

theorem marked_cons (k : ℕ) (m : Mark) (ms : List Mark) :
    marked k (m :: ms) = marked k ms + if m.stage = k then 1 else 0 := by
  simp [marked, List.countP_cons]

/-- The number of the message that a mark is about. -/
@[simp] def Mark.flush? : Mark → Option ℕ
  | .flushed count => some count
  | _ => none

@[simp] def Mark.answer? : Mark → Option ℕ
  | .answered count _ => some count
  | _ => none

namespace LoadClient
variable {args : Args} {id : ℕ} {c c' : LoadClient} {e : ClientEvent} {out : List Mark}

/-- The messages of the client that have passed mark `k`. -/
def passed (k : ℕ) (c : LoadClient) : ℕ := c.sentCount + if k ≤ c.pc.stage then 1 else 0

theorem Step.stage (h : Step args id c e c' out) :
    (c'.sentCount = c.sentCount ∧ c'.pc.stage = c.pc.stage ∧ out = []) ∨
    (c'.sentCount = c.sentCount ∧ c'.pc.stage = c.pc.stage + 1 ∧
      ∃ m : Mark, out = [m] ∧ m.stage = c.pc.stage + 1) ∨
    (c'.sentCount = c.sentCount + 1 ∧ c.pc.stage = 5 ∧ c'.pc.stage = 0 ∧
      ∃ m : Mark, out = [m] ∧ m.stage = 6) := by
  cases h with
  | connected hp | stops hp | begins hp | wrotePrefix hp | wrotePayload hp | prefixDone hp
  | payloadDone hp | answered hp | connectFails hp | flushFails hp | readFails hp =>
    exact .inl ⟨rfl, by rw [hp]; rfl, rfl⟩
  | writeFails hp => exact .inl ⟨rfl, by obtain hp | hp := hp <;> rw [hp] <;> rfl, rfl⟩
  | flushed hp | countSent hp | readDone hp | addLatency hp | countLatency hp =>
    exact .inr (.inl ⟨rfl, by rw [hp]; rfl, _, rfl, by rw [hp]; rfl⟩)
  | countRecv hp => exact .inr (.inr ⟨rfl, by rw [hp]; rfl, rfl, _, rfl, rfl⟩)

theorem Step.passed (h : Step args id c e c' out) {k : ℕ} (hk : 0 < k) (hk' : k ≤ 6) :
    c'.passed k = c.passed k + marked k out := by
  unfold LoadClient.passed
  obtain ⟨hn, hs, rfl⟩ | ⟨hn, hs, m, rfl, hm⟩ | ⟨hn, hs, hs', m, rfl, hm⟩ := h.stage
  · rw [hn, hs]
    rfl
  · rw [hn, hs, marked, List.countP_singleton, hm]
    simp only [decide_eq_true_eq]
    split_ifs <;> omega
  · rw [hn, hs, hs', marked, List.countP_singleton, hm]
    simp only [decide_eq_true_eq]
    split_ifs <;> omega

/-- Messages are flushed and answered in the order of their numbers. -/
theorem Step.numbers (h : Step args id c e c' out) :
    List.range (c'.passed 1) = List.range (c.passed 1) ++ out.filterMap Mark.flush? ∧
      List.range (c'.passed 3) = List.range (c.passed 3) ++ out.filterMap Mark.answer? := by
  cases h with
  | writeFails hp => obtain hp | hp := hp <;> simp [LoadClient.passed, hp, ClientPc.stage]
  | connected hp | stops hp | begins hp | wrotePrefix hp | wrotePayload hp | prefixDone hp
  | payloadDone hp | countSent hp | answered hp | addLatency hp | countLatency hp | countRecv hp
  | connectFails hp | flushFails hp | readFails hp =>
    simp [LoadClient.passed, hp, ClientPc.stage]
  | flushed hp | readDone hp =>
    simp [LoadClient.passed, hp, ClientPc.stage, List.range_succ]

/-- A client that has come back does nothing more. -/
theorem Step.running (h : Step args id c e c' out) : c.pc.result = none := by
  cases h with
  | writeFails hp => obtain hp | hp := hp <;> rw [hp] <;> rfl
  | connected hp | stops hp | begins hp | wrotePrefix hp | wrotePayload hp | prefixDone hp
  | payloadDone hp | flushed hp | countSent hp | answered hp | readDone hp | addLatency hp
  | countLatency hp | countRecv hp | connectFails hp | flushFails hp | readFails hp =>
    rw [hp]
    rfl

/-- Inside the loop, past its checks. -/
def busy (c : LoadClient) : Bool :=
  match c.pc with
  | .connecting | .top | .returned | .failed _ => false
  | _ => true

/-- Without a duration, the limit on messages is kept. -/
structure Limited (args : Args) (c : LoadClient) : Prop where
  bound : args.durationSecs = none → c.sentCount ≤ args.messages
  busy : args.durationSecs = none → c.busy = true → c.sentCount < args.messages
  returned : args.durationSecs = none → c.pc = .returned → args.messages ≤ c.sentCount

theorem Limited.init (args : Args) : Limited args .init :=
  ⟨fun _ => Nat.zero_le _, fun _ hb => Bool.noConfusion hb, nofun⟩

theorem stops_iff (hd : args.durationSecs = none) {expired : Bool} :
    c.stops args expired = true ↔ args.messages ≤ c.sentCount := by
  simp [stops, Args.maxMessages, hd]

theorem Step.limited (h : Step args id c e c' out) (hi : Limited args c) : Limited args c' := by
  have hbusy (hb : c.busy = true) (hd : args.durationSecs = none) : c.sentCount < args.messages :=
    hi.busy hd hb
  cases h with
  | wrotePrefix hp | wrotePayload hp | prefixDone hp | payloadDone hp | flushed hp | countSent hp
  | answered hp | readDone hp | addLatency hp | countLatency hp =>
    exact ⟨hi.bound, fun hd _ => hbusy (by rw [LoadClient.busy, hp]) hd, nofun⟩
  | connected hp | connectFails hp | writeFails hp | flushFails hp | readFails hp =>
    exact ⟨hi.bound, fun _ hb => Bool.noConfusion hb, nofun⟩
  | stops hp hs =>
    exact ⟨hi.bound, fun _ hb => Bool.noConfusion hb, fun hd _ => (stops_iff hd).mp hs⟩
  | begins hp hs =>
    refine ⟨hi.bound, fun hd _ => ?_, nofun⟩
    have hn : ¬ args.messages ≤ c.sentCount := (stops_iff hd).not.mp (by rw [hs]; nofun)
    exact not_le.mp hn
  | countRecv hp =>
    exact ⟨hbusy (by rw [LoadClient.busy, hp]), fun _ hb => Bool.noConfusion hb, nofun⟩

end LoadClient

/-! ## What the counters and `main` know -/

@[simp] def LoadObs.mark? : LoadObs → Option Mark
  | .mark _ m => some m
  | .report _ => none

def LoadObs.markOf? (id : ℕ) : LoadObs → Option Mark
  | .mark k m => if k = id then some m else none
  | .report _ => none

@[simp] def Mark.rtt? : Mark → Option UInt64
  | .addedLatency rttMs => some rttMs
  | _ => none

namespace LoadMain
variable {args : Args} {s s' : LoadMain} {e : LoadEvent} {es : List LoadEvent}
  {tr out : List LoadObs}

def marks (tr : List LoadObs) : List Mark := tr.filterMap LoadObs.mark?

@[simp] theorem marks_append (t u : List LoadObs) : marks (t ++ u) = marks t ++ marks u :=
  List.filterMap_append ..

@[simp] theorem marks_map_mark (id : ℕ) (ms : List Mark) : marks (ms.map (.mark id)) = ms := by
  induction ms with
  | nil => rfl
  | cons m ms ih => exact congrArg (m :: ·) ih

/-- The marks of one client. -/
def marksOf (id : ℕ) (tr : List LoadObs) : List Mark := tr.filterMap (LoadObs.markOf? id)

@[simp] theorem marksOf_append (id : ℕ) (t u : List LoadObs) :
    marksOf id (t ++ u) = marksOf id t ++ marksOf id u := List.filterMap_append ..

theorem marksOf_map_mark_self (id : ℕ) (ms : List Mark) : marksOf id (ms.map (.mark id)) = ms := by
  induction ms with
  | nil => rfl
  | cons m ms ih =>
    rw [List.map_cons, marksOf, filterMap_cons_toList, LoadObs.markOf?, if_pos rfl]
    exact congrArg (m :: ·) ih

theorem marksOf_map_mark_of_ne {id k : ℕ} (h : k ≠ id) (ms : List Mark) :
    marksOf id (ms.map (.mark k)) = [] :=
  filterMap_map_none (fun m => show LoadObs.markOf? id (.mark k m) = none from if_neg h) ms

/-- The numbers of the messages that a client has written and flushed, and of those that were
answered in full. -/
def flushesOf (id : ℕ) (tr : List LoadObs) : List ℕ := (marksOf id tr).filterMap Mark.flush?

def answersOf (id : ℕ) (tr : List LoadObs) : List ℕ := (marksOf id tr).filterMap Mark.answer?

/-- How many messages were written and flushed, and how many were answered in full. -/
def flushes (tr : List LoadObs) : ℕ := marked 1 (marks tr)

def answers (tr : List LoadObs) : ℕ := marked 3 (marks tr)

/-- The counters hold what the marks add up to, and the clients know of every mark. -/
structure Tallied (s : LoadMain) (tr : List LoadObs) : Prop where
  totals : s.totals = (marks tr).foldl Totals.add .zero
  passed : ∀ k, 0 < k → k ≤ 6 → marked k (marks tr) = (s.clients.map (LoadClient.passed k)).sum

theorem Tallied.init (args : Args) : Tallied (init args) [] := ⟨rfl, fun _ _ _ => rfl⟩

theorem Step.tallied (h : Step args s e s' out) (hi : Tallied s tr) : Tallied s' (tr ++ out) := by
  cases h with
  | spawn =>
    refine ⟨by simpa using hi.totals, fun k hk hk' => ?_⟩
    rw [List.append_nil, hi.passed k hk hk', List.map_append, List.sum_append]
    have hzero : LoadClient.init.passed k = 0 := by
      simp [LoadClient.passed, LoadClient.init, ClientPc.stage, Nat.pos_iff_ne_zero.mp hk]
    simp [hzero]
  | @client id e c c' out hc h =>
    refine ⟨?_, fun k hk hk' => ?_⟩
    · rw [marks_append, marks_map_mark, List.foldl_append, ← hi.totals]
    · have hset := sum_set_map (LoadClient.passed k) hc c'
      have hstep := (LoadClient.step_cases h).passed hk hk'
      rw [marks_append, marks_map_mark, marked_append, hi.passed k hk hk']
      simp only
      omega
  | join => exact ⟨by simpa using hi.totals, by simpa using hi.passed⟩
  | @report failures =>
    have hm : marks (tr ++ [.report ⟨s.totals, failures⟩]) = marks tr := by simp [marks]
    exact ⟨by rw [hm]; exact hi.totals, by rw [hm]; exact hi.passed⟩

theorem tallied_run (hr : (machine args).run (init args) es = some (s, tr)) : Tallied s tr :=
  Machine.run_trace Tallied (fun _ _ _ _ _ hi _ hs => (step_cases hs).tallied hi) hr
    (Machine.Along.true _ _) (.init args)

/-- The messages of a client that have passed mark `k`; none if it is not spawned. -/
def passedOf (k : ℕ) (s : LoadMain) (id : ℕ) : ℕ :=
  (s.clients[id]?.map (LoadClient.passed k)).getD 0

/-- The messages of each client are flushed and answered one after the other. -/
def Numbered (s : LoadMain) (tr : List LoadObs) : Prop :=
  ∀ id, flushesOf id tr = List.range (s.passedOf 1 id) ∧
    answersOf id tr = List.range (s.passedOf 3 id)

theorem passedOf_spawn {k : ℕ} (hk : 0 < k) (s : LoadMain) (m : MainPc) (id : ℕ) :
    passedOf k { s with clients := s.clients ++ [.init], main := m } id = s.passedOf k id := by
  have hzero : LoadClient.init.passed k = 0 := by
    simp [LoadClient.passed, LoadClient.init, ClientPc.stage, Nat.pos_iff_ne_zero.mp hk]
  simp only [passedOf, List.getElem?_append]
  split
  · rfl
  · rename_i hid
    rw [List.getElem?_eq_none (not_lt.mp hid)]
    cases id - s.clients.length <;> simp [hzero]

theorem Step.numbered (h : Step args s e s' out) (hi : Numbered s tr) :
    Numbered s' (tr ++ out) := by
  intro id
  obtain ⟨hf, ha⟩ := hi id
  cases h with
  | spawn =>
    rw [List.append_nil, passedOf_spawn (by decide), passedOf_spawn (by decide)]
    exact ⟨hf, ha⟩
  | @client k e c c' out hc h =>
    obtain ⟨hnf, hna⟩ := (LoadClient.step_cases h).numbers
    by_cases hk : k = id
    · subst hk
      have hlt := (List.getElem?_eq_some_iff.mp hc).1
      simp only [passedOf, hc, Option.map_some, Option.getD_some] at hf ha
      simp only [passedOf, List.getElem?_set_self hlt, Option.map_some, Option.getD_some, hnf, hna,
        flushesOf, answersOf, marksOf_append, marksOf_map_mark_self, List.filterMap_append]
      exact ⟨congrArg (· ++ _) hf, congrArg (· ++ _) ha⟩
    · simp only [passedOf, List.getElem?_set_ne hk, flushesOf, answersOf, marksOf_append,
        marksOf_map_mark_of_ne hk, List.append_nil]
      exact ⟨hf, ha⟩
  | join =>
    rw [List.append_nil]
    exact ⟨hf, ha⟩
  | @report failures =>
    have hm : marksOf id (tr ++ [.report ⟨s.totals, failures⟩]) = marksOf id tr := by
      rw [marksOf_append]
      exact List.append_nil _
    rw [flushesOf, answersOf, hm]
    exact ⟨hf, ha⟩

theorem numbered_run (hr : (machine args).run (init args) es = some (s, tr)) : Numbered s tr :=
  Machine.run_trace Numbered (fun _ _ _ _ _ hi _ hs => (step_cases hs).numbered hi) hr
    (Machine.Along.true _ _) (fun _ => ⟨rfl, rfl⟩)

theorem limited_run (hr : (machine args).run (init args) es = some (s, tr)) :
    ∀ c ∈ s.clients, c.Limited args := by
  refine Machine.run_invariant (fun s : LoadMain => ∀ c ∈ s.clients, c.Limited args) ?_ hr
    (Machine.Along.true _ _) (fun c hc => by cases hc)
  rintro s e s' out hi - hs
  cases step_cases hs with
  | spawn =>
    intro c hc
    obtain hc | hc := List.mem_append.mp hc
    · exact hi c hc
    · rw [List.mem_singleton.mp hc]
      exact .init args
  | client hc h =>
    intro d hd
    obtain hd | rfl := List.mem_or_eq_of_mem_set hd
    · exact hi d hd
    · exact (LoadClient.step_cases h).limited (hi _ (List.mem_of_getElem? hc))
  | join | report => exact hi

/-! ## Waiting for the clients -/

def failed (c : LoadClient) : Bool := c.pc.result == some false

/-- What `main` knows where it stands. -/
def Waited (args : Args) (clients : List LoadClient) : MainPc → Prop
  | .spawning => clients.length < args.connections
  | .joining next failures => clients.length = args.connections ∧ next ≤ clients.length ∧
      (∀ c ∈ clients.take next, c.pc.result ≠ none) ∧ failures = (clients.take next).countP failed
  | .reported => clients.length = args.connections ∧ ∀ c ∈ clients, c.pc.result ≠ none

structure Settled (args : Args) (s : LoadMain) (tr : List LoadObs) : Prop where
  waited : Waited args s.clients s.main
  reported : ∀ r, .report r ∈ tr →
    s.main = .reported ∧ r.totals = s.totals ∧ r.failures = s.clients.countP failed

theorem Settled.init (args : Args) : Settled args (init args) [] := by
  refine ⟨?_, fun r hr => by cases hr⟩
  simp only [LoadMain.init]
  split
  · exact ⟨by simpa using Eq.symm ‹_›, le_rfl, by simp, by simp⟩
  · exact Nat.pos_of_ne_zero ‹_›

/-- A client that still runs is none of those that were waited for. -/
theorem Waited.set {clients : List LoadClient} {main : MainPc} (h : Waited args clients main)
    {id : ℕ} {c c' : LoadClient} (hc : clients[id]? = some c) (hrun : c.pc.result = none) :
    Waited args (clients.set id c') main := by
  cases main with
  | spawning => simpa [Waited] using h
  | joining next failures =>
    obtain ⟨hlen, hle, hall, hf⟩ := h
    have hid : next ≤ id := by
      by_contra hlt
      have hmem : c ∈ clients.take next := by
        refine List.mem_of_getElem? (i := id) ?_
        rw [List.getElem?_take, if_pos (not_le.mp hlt), hc]
      exact hall c hmem hrun
    have htake : (clients.set id c').take next = clients.take next :=
      List.take_set_of_le hid
    exact ⟨by simpa using hlen, by simpa using hle, htake ▸ hall, htake ▸ hf⟩
  | reported => exact absurd hrun (h.2 c (List.mem_of_getElem? hc))

theorem Step.settled (h : Step args s e s' out) (hi : Settled args s tr) :
    Settled args s' (tr ++ out) := by
  cases h with
  | spawn hm =>
    have hlt : s.clients.length < args.connections := by
      have hw := hi.waited
      rwa [hm] at hw
    refine ⟨?_, fun r hr => ?_⟩
    · simp only
      split
      · exact ⟨by simpa using ‹_›, Nat.zero_le _, by simp, by simp⟩
      · simp only [Waited, List.length_append, List.length_singleton]
        omega
    · rw [List.append_nil] at hr
      have hrep := (hi.reported r hr).1
      rw [hm] at hrep
      cases hrep
  | @client id e c c' out hc h =>
    have hrun := (LoadClient.step_cases h).running
    refine ⟨hi.waited.set hc hrun, fun r hr => ?_⟩
    have hmem : LoadObs.report r ∈ tr := by simpa using hr
    have hw := hi.waited
    rw [(hi.reported r hmem).1] at hw
    exact absurd hrun (hw.2 c (List.mem_of_getElem? hc))
  | @join next failures c ok hm hc hr =>
    have hw := hi.waited
    rw [hm] at hw
    obtain ⟨hlen, hle, hall, hf⟩ := hw
    have hlt : next < s.clients.length := (List.getElem?_eq_some_iff.mp hc).1
    have htake : s.clients.take (next + 1) = s.clients.take next ++ [c] := by
      rw [List.take_add_one, hc]
      rfl
    refine ⟨⟨hlen, hlt, fun d hd => ?_, ?_⟩, fun r hr' => ?_⟩
    · rw [htake] at hd
      obtain hd | hd := List.mem_append.mp hd
      · exact hall d hd
      · rw [List.mem_singleton.mp hd, hr]
        exact Option.some_ne_none _
    · rw [htake, List.countP_append, ← hf, List.countP_singleton, failed, hr]
      cases ok <;> rfl
    · rw [List.append_nil] at hr'
      have hrep := (hi.reported r hr').1
      rw [hm] at hrep
      cases hrep
  | @report failures hm =>
    have hw := hi.waited
    rw [hm] at hw
    obtain ⟨hlen, -, hall, hf⟩ := hw
    rw [List.take_length] at hall hf
    refine ⟨⟨hlen, hall⟩, fun r hr => ?_⟩
    obtain hr | hr := List.mem_append.mp hr
    · have hrep := (hi.reported r hr).1
      rw [hm] at hrep
      cases hrep
    · obtain rfl := LoadObs.report.inj (List.mem_singleton.mp hr)
      exact ⟨rfl, rfl, hf⟩

theorem settled_run (hr : (machine args).run (init args) es = some (s, tr)) : Settled args s tr :=
  Machine.run_trace (Settled args) (fun _ _ _ _ _ hi _ hs => (step_cases hs).settled hi) hr
    (Machine.Along.true _ _) (.init args)

/-! ## The report -/

/-- What the counters have come to, from the marks. -/
theorem totals_foldl (ms : List Mark) (t : Totals) :
    ms.foldl Totals.add t =
      { sent := t.sent + UInt64.ofNat (marked 2 ms)
        recv := t.recv + UInt64.ofNat (marked 6 ms)
        latencyMs := t.latencyMs + (ms.filterMap Mark.rtt?).sum
        latencyCount := t.latencyCount + UInt64.ofNat (marked 5 ms) } := by
  induction ms generalizing t with
  | nil => simp [marked]
  | cons m ms ih =>
    rw [List.foldl_cons, ih]
    cases m with
    | flushed | answered => simp [Totals.add, marked_cons, Mark.stage, filterMap_cons_toList]
    | addedLatency =>
      simp [Totals.add, marked_cons, Mark.stage, UInt64.add_assoc]
    | countedSent | countedLatency | countedRecv =>
      simp [Totals.add, marked_cons, Mark.stage, filterMap_cons_toList, UInt64.add_assoc,
        UInt64.add_comm]

theorem stage_of_result {c : LoadClient} (h : c.pc.result ≠ none) :
    c.pc.stage = 0 ∨ c.pc.stage = 2 ∧ failed c = true := by
  cases hp : c.pc with
  | failed awaiting => cases awaiting <;> simp [ClientPc.stage, failed, hp, ClientPc.result]
  | returned => exact .inl rfl
  | _ =>
    rw [hp] at h
    exact absurd rfl h

theorem passed_of_result {c : LoadClient} (h : c.pc.result ≠ none) {k : ℕ} (hk : 2 < k) :
    c.passed k = c.sentCount := by
  have hlt : ¬ k ≤ c.pc.stage := by
    obtain hs | hs := stage_of_result h <;> omega
  rw [LoadClient.passed, if_neg hlt, Nat.add_zero]

/-- When all clients are over, what was flushed and not answered is on account of a failure. -/
theorem sum_passed {clients : List LoadClient} (h : ∀ c ∈ clients, c.pc.result ≠ none) :
    (clients.map (LoadClient.passed 2)).sum = (clients.map (LoadClient.passed 1)).sum ∧
    (clients.map (LoadClient.passed 3)).sum ≤ (clients.map (LoadClient.passed 1)).sum ∧
    (clients.map (LoadClient.passed 1)).sum ≤
      (clients.map (LoadClient.passed 3)).sum + clients.countP failed := by
  induction clients with
  | nil => simp
  | cons c clients ih =>
    obtain ⟨h₁, h₂, h₃⟩ := ih fun d hd => h d (List.mem_cons_of_mem c hd)
    have hc := h c List.mem_cons_self
    have hpassed := passed_of_result hc (k := 3) (by decide)
    simp only [List.map_cons, List.sum_cons, List.countP_cons, hpassed]
    obtain hs | ⟨hs, hf⟩ := stage_of_result hc
    · simp only [LoadClient.passed, hs]
      refine ⟨?_, ?_, ?_⟩ <;> split_ifs <;> omega
    · simp only [LoadClient.passed, hs, hf]
      refine ⟨?_, ?_, ?_⟩ <;> split_ifs <;> omega

theorem sum_passed_late {clients : List LoadClient} (h : ∀ c ∈ clients, c.pc.result ≠ none)
    {k : ℕ} (hk : 2 < k) :
    (clients.map (LoadClient.passed k)).sum = (clients.map LoadClient.sentCount).sum := by
  rw [List.map_congr_left fun c hc => passed_of_result (h c hc) hk]

/-- A client that is over has had all its messages answered that it flushed, but for the last one if
it failed. -/
theorem numbered_over (hi : Numbered s tr) {id : ℕ} {c : LoadClient} (hc : s.clients[id]? = some c)
    (hover : c.pc.result ≠ none) : answersOf id tr = List.range c.sentCount ∧
      (flushesOf id tr = List.range c.sentCount ∨
        failed c = true ∧ flushesOf id tr = List.range (c.sentCount + 1)) := by
  obtain ⟨hf, ha⟩ := hi id
  simp only [passedOf, hc, Option.map_some, Option.getD_some] at hf ha
  rw [passed_of_result hover (by decide)] at ha
  refine ⟨ha, ?_⟩
  rw [hf, LoadClient.passed]
  obtain hs | ⟨hs, hfail⟩ := stage_of_result hover
  · exact .inl (by rw [hs]; rfl)
  · exact .inr ⟨hfail, by rw [hs]; rfl⟩

/-- Whatever order the clients and `main` went on in: the report counts the messages that were
flushed, those that were answered, and the clients that failed. The messages of a client are
answered in their order, and the last one that it flushed is left unanswered only if it failed. The
average is taken over the answers. A test without a duration that exits with zero has had every
message of every client answered. -/
theorem report_exact (hr : (machine args).run (init args) es = some (s, tr)) {r : Report}
    (hrep : .report r ∈ tr) :
    r.totals.sent = UInt64.ofNat (flushes tr) ∧ r.totals.recv = UInt64.ofNat (answers tr) ∧
    r.totals.latencyCount = r.totals.recv ∧
    r.totals.latencyMs = ((marks tr).filterMap Mark.rtt?).sum ∧
    r.failures = s.clients.countP failed ∧
    (∀ id c, s.clients[id]? = some c → answersOf id tr = List.range c.sentCount ∧
      (flushesOf id tr = List.range c.sentCount ∨
        failed c = true ∧ flushesOf id tr = List.range (c.sentCount + 1))) ∧
    answers tr ≤ flushes tr ∧ flushes tr ≤ answers tr + r.failures ∧
    (r.exitCode = 0 → answers tr = flushes tr ∧
      (args.durationSecs = none → answers tr = args.connections * args.messages)) := by
  have ht := tallied_run hr
  have hset := settled_run hr
  obtain ⟨hmain, htotals, hfail⟩ := hset.reported r hrep
  have hw := hset.waited
  rw [hmain] at hw
  obtain ⟨hlen, hall⟩ := hw
  obtain ⟨h₂, h₃, h₄⟩ := sum_passed hall
  have h₁ : flushes tr = _ := ht.passed 1 (by decide) (by decide)
  have h₃' : answers tr = _ := ht.passed 3 (by decide) (by decide)
  have hlate (k : ℕ) (hk : 2 < k) (hk' : k ≤ 6) : marked k (marks tr) = answers tr := by
    rw [ht.passed k (by omega) hk', sum_passed_late hall hk, h₃',
      sum_passed_late hall (by decide)]
  rw [htotals, ht.totals, totals_foldl]
  simp only [Totals.zero, UInt64.zero_add]
  rw [ht.passed 2 (by decide) (by decide), h₂, ← h₁, hlate 6 (by decide) (by decide),
    hlate 5 (by decide) (by decide)]
  refine ⟨rfl, rfl, rfl, trivial, hfail, fun id c hc => ?_, by omega, by omega, fun hexit => ?_⟩
  · exact numbered_over (numbered_run hr) hc (hall c (List.mem_of_getElem? hc))
  have hzero : r.failures = 0 := by
    by_contra hne
    rw [Report.exitCode, if_pos (Nat.pos_of_ne_zero hne)] at hexit
    cases hexit
  refine ⟨by omega, fun hd => ?_⟩
  have hreturned (c : LoadClient) (hc : c ∈ s.clients) : c.sentCount = args.messages := by
    have hlim := limited_run hr c hc
    have hnot : ¬ failed c = true := List.countP_eq_zero.mp (hfail.symm.trans hzero) c hc
    have hres := hall c hc
    refine le_antisymm (hlim.bound hd) (hlim.returned hd ?_)
    cases hp : c.pc with
    | returned => rfl
    | failed => exact absurd (by rw [failed, hp]; rfl) hnot
    | _ =>
      rw [hp] at hres
      exact absurd rfl hres
  rw [h₃', sum_passed_late hall (by decide), List.map_eq_replicate_iff.mpr hreturned,
    List.sum_replicate_nat, hlen]

/-- Two clients with two messages each and a payload of three bytes. -/
def twoClients : Args := ⟨2, 2, 3, none⟩

/-- A client writes and flushes its next frame. -/
def oneMessage (id : ℕ) : List LoadEvent :=
  [.client id (.check false), .client id (.wrote 16), .client id .writeDone,
    .client id (.wrote 3), .client id .writeDone, .client id .flushed, .client id (.fetchAdd 0)]

/-- Bytes that come back in two pieces, after 7 ms. -/
def oneAnswer (id : ℕ) (frame : Bytes) : List LoadEvent :=
  [.client id (.answered (frame.take 10)), .client id (.answered (frame.drop 10)),
    .client id .readDone, .client id (.fetchAdd 7), .client id (.fetchAdd 0),
    .client id (.fetchAdd 0)]

/-- The first client has its first message answered and loses its connection with the second one
under way. -/
def lostRun : List LoadEvent :=
  [.spawn, .spawn, .client 1 .connected, .client 0 .connected] ++ oneMessage 0 ++ oneMessage 1 ++
    oneAnswer 0 (framePrefix 0 0 ++ [0, 1, 2]) ++ oneMessage 0 ++
    oneAnswer 1 (framePrefix 1 0 ++ [0, 1, 2]) ++ [.client 0 .fails] ++ oneMessage 1 ++
    oneAnswer 1 (framePrefix 1 1 ++ [0, 1, 2]) ++ [.client 1 (.check false), .join, .join, .report]

theorem report_exact_lostRun : ∃ s tr, ∃ r : Report,
    (machine twoClients).run (init twoClients) lostRun = some (s, tr) ∧
    .report r ∈ tr ∧ r.failures = 1 ∧ flushes tr = 4 ∧ answers tr = 3 ∧
    flushesOf 0 tr = [0, 1] ∧ answersOf 0 tr = [0] ∧
    r.totals.sent = UInt64.ofNat (flushes tr) ∧ r.totals.recv = UInt64.ofNat (answers tr) ∧
    r.totals.latencyCount = r.totals.recv ∧
    r.totals.latencyMs = ((marks tr).filterMap Mark.rtt?).sum ∧
    r.failures = s.clients.countP failed ∧
    (∀ id c, s.clients[id]? = some c → answersOf id tr = List.range c.sentCount ∧
      (flushesOf id tr = List.range c.sentCount ∨
        failed c = true ∧ flushesOf id tr = List.range (c.sentCount + 1))) ∧
    answers tr ≤ flushes tr ∧ flushes tr ≤ answers tr + r.failures ∧
    (r.exitCode = 0 → answers tr = flushes tr ∧ (twoClients.durationSecs = none →
      answers tr = twoClients.connections * twoClients.messages)) :=
  ⟨_, _, ⟨⟨4, 3, 21, 3⟩, 1⟩, rfl, by decide, rfl, by decide, by decide, by decide, by decide,
    @report_exact twoClients _ lostRun _ rfl _ (by decide)⟩

end LoadMain
end TransportProxy.LoadTest
