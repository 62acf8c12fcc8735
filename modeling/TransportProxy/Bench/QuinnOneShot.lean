import TransportProxy.Bench.QuinnEcho
import TransportProxy.Foundations.Machine

/-! # Single-shot clients of the quinn echo server

`quinn_echo_roundtrip`, `quinn_connection_roundtrip` and the worker of `bench_quinn_concurrent` open
a stream, write, finish, and read back as many bytes as their payload has. The first two write the
sentinel before the payload; the worker writes its payload only, which the server then takes for
frames.

`echoOf` is what the server writes back for a whole stream, however the stream arrives.
-/
namespace TransportProxy.Bench
open Foundations Slipstream
set_option autoImplicit false

/-! ## The server's answer to a whole stream -/

def echoOf (input : Bytes) : Bytes :=
  if 4 ≤ input.length then
    let len := (fromLeBytes input).toNat
    let rest := input.drop 4
    if len = quinnReadLimit then (if rest.length ≤ quinnReadLimit then rest else [])
    else if len = 0 ∨ quinnReadLimit < len then []
    else if len ≤ rest.length then
      input.take 4 ++ rest.take len ++ echoOf (rest.drop len)
    else []
  else []
termination_by input.length
decreasing_by
  simp only [List.length_drop]
  omega

/-- A concatenation of complete frames, none of them as long as the limit. -/
inductive Frames : Bytes → Prop where
  | nil : Frames []
  | cons {lenBuf data rest} (h4 : lenBuf.length = 4)
      (hlen : (fromLeBytes lenBuf).toNat = data.length) (hpos : 1 ≤ data.length)
      (hlt : data.length < quinnReadLimit) (hrest : Frames rest) :
      Frames (lenBuf ++ data ++ rest)

theorem echoOf_frame {lenBuf data : Bytes} (h4 : lenBuf.length = 4)
    (hlen : (fromLeBytes lenBuf).toNat = data.length) (hpos : 1 ≤ data.length)
    (hlt : data.length < quinnReadLimit) (rest : Bytes) :
    echoOf (lenBuf ++ data ++ rest) = lenBuf ++ data ++ echoOf rest := by
  have hfrom : (fromLeBytes (lenBuf ++ data ++ rest)).toNat = data.length := by
    rw [List.append_assoc, fromLeBytes_append h4.ge, hlen]
  have hdrop : (lenBuf ++ data ++ rest).drop 4 = data ++ rest := by
    rw [List.append_assoc, List.drop_left' h4]
  have htake : (lenBuf ++ data ++ rest).take 4 = lenBuf := by
    rw [List.append_assoc, List.take_left' h4]
  rw [echoOf]
  simp only [hfrom, hdrop, htake, List.take_left', List.drop_left']
  rw [if_pos (by simp only [List.length_append]; omega), if_neg hlt.ne, if_neg (by omega),
    if_pos (by simp only [List.length_append]; omega)]

theorem Frames.echoOf {input : Bytes} (h : Frames input) : echoOf input = input := by
  induction h with
  | nil => rw [Bench.echoOf]; rfl
  | cons h4 hlen hpos hlt hrest ih => rw [echoOf_frame h4 hlen hpos hlt, ih]

/-- The server never writes more than it reads, and as much only for frames. -/
theorem length_echoOf (input : Bytes) : (echoOf input).length ≤ input.length ∧
    ((echoOf input).length = input.length → Frames input) := by
  fun_induction echoOf input with
  | case1 input h4 len rest hlen hrest =>
    refine ⟨?_, fun h => ?_⟩ <;> simp only [rest, List.length_drop] at *
    · omega
    · omega
  | case4 input h4 len rest hne hvalid hle ih =>
    obtain ⟨ihle, iheq⟩ := ih
    have hrest : rest.length = input.length - 4 := List.length_drop
    have hdrop : (rest.drop len).length = rest.length - len := List.length_drop
    simp only [List.length_append, List.length_take]
    refine ⟨by omega, fun h => ?_⟩
    have hframes := iheq (by omega)
    have hsplit : input = input.take 4 ++ rest.take len ++ rest.drop len := by
      rw [List.append_assoc, List.take_append_drop, List.take_append_drop]
    rw [hsplit]
    have htake : (rest.take len).length = len := List.length_take_of_le hle
    refine .cons (List.length_take_of_le h4) ?_ (by omega) (by omega) hframes
    rw [fromLeBytes_take, htake]
  | case2 input h4 | case3 input h4 | case5 input h4 =>
    refine ⟨Nat.zero_le _, fun h => ?_⟩
    rw [List.length_nil] at h
    omega
  | case6 input h4 =>
    refine ⟨Nat.zero_le _, fun h => ?_⟩
    rw [List.length_nil] at h
    rw [List.eq_nil_of_length_eq_zero h.symm]
    exact .nil

theorem echoOf_eq_iff (payload : Bytes) : payload <+: echoOf payload ↔ Frames payload := by
  obtain ⟨hle, hframes⟩ := length_echoOf payload
  constructor
  · intro h
    exact hframes (Nat.le_antisymm hle h.length_le)
  · intro h
    rw [h.echoOf]

/-- `(QUINN_READ_LIMIT as u32).to_le_bytes()` -/
def sentinel : Bytes := toLeBytes (.ofNat quinnReadLimit)

theorem echoOf_sentinel {payload : Bytes} (h : payload.length ≤ quinnReadLimit) :
    echoOf (sentinel ++ payload) = payload := by
  have hfrom : (fromLeBytes (sentinel ++ payload)).toNat = quinnReadLimit := by
    rw [sentinel, fromLeBytes_toLeBytes]
    rfl
  have hdrop : (sentinel ++ payload).drop 4 = payload := rfl
  rw [echoOf]
  simp only [hfrom, hdrop, if_true]
  rw [if_pos h, if_pos (by simp [sentinel])]

/-! ## The server on a stream that is still arriving -/

/-- What the server is going to write, if `input` is all that it is still going to read. -/
def EchoPc.output : EchoPc → Bytes → Bytes
  | .readLen, input => echoOf input
  | .readData lenBuf, input =>
    let len := (fromLeBytes lenBuf).toNat
    if len ≤ input.length then lenBuf ++ input.take len ++ echoOf (input.drop len) else []
  | .writeLen lenBuf data, input => lenBuf ++ data ++ echoOf input
  | .writeData data, input => data ++ echoOf input
  | .readToEnd, input => if input.length ≤ quinnReadLimit then input else []
  | .writeEnd data, _ => data
  | .closed, _ => []

theorem echoOf_eq_afterLen {input : Bytes} (h : 4 ≤ input.length) :
    echoOf input = (QuinnStream.afterLen (input.take 4)).output (input.drop 4) := by
  rw [echoOf, if_pos h]
  simp only [QuinnStream.afterLen, fromLeBytes_take]
  split
  · rfl
  · split
    · rfl
    · simp only [EchoPc.output, fromLeBytes_take]

theorem echoOf_of_short {input : Bytes} (h : ¬ 4 ≤ input.length) : echoOf input = [] := by
  rw [echoOf, if_neg h]

/-- A step of the server does not change what it writes in all, whatever more arrives; nothing more
does once the client has finished. -/
theorem QuinnStream.serve_output {s s' : QuinnStream} (hs : s.serve = some s') {more : Bytes}
    (hf : s.finished = true → more = []) :
    s'.send ++ s'.pc.output (s'.recv ++ more) = s.send ++ s.pc.output (s.recv ++ more) ∧
      s'.finished = s.finished := by
  obtain ⟨pc, recv, send, finished⟩ := s
  cases pc with
  | readLen =>
    simp only [serve] at hs
    by_cases h4 : 4 ≤ recv.length
    · rw [if_pos h4] at hs
      obtain rfl := Option.some.inj hs
      have hmore : 4 ≤ (recv ++ more).length := by
        rw [List.length_append]
        omega
      refine ⟨?_, rfl⟩
      change _ = send ++ echoOf (recv ++ more)
      rw [echoOf_eq_afterLen hmore, List.take_append_of_le_length h4,
        List.drop_append_of_le_length h4]
    · rw [if_neg h4, Option.ite_none_right_eq_some] at hs
      obtain ⟨hfin, hs⟩ := hs
      obtain rfl := Option.some.inj hs
      rw [hf hfin, List.append_nil]
      simp [EchoPc.output, echoOf_of_short h4]
  | readData lenBuf =>
    simp only [serve] at hs
    by_cases hle : (fromLeBytes lenBuf).toNat ≤ recv.length
    · rw [if_pos hle] at hs
      obtain rfl := Option.some.inj hs
      refine ⟨?_, rfl⟩
      have hmore : (fromLeBytes lenBuf).toNat ≤ (recv ++ more).length := by
        rw [List.length_append]
        omega
      simp only [EchoPc.output]
      rw [if_pos hmore, List.take_append_of_le_length hle, List.drop_append_of_le_length hle]
    · rw [if_neg hle, Option.ite_none_right_eq_some] at hs
      obtain ⟨hfin, hs⟩ := hs
      obtain rfl := Option.some.inj hs
      rw [hf hfin, List.append_nil]
      simp [EchoPc.output, hle]
  | writeLen lenBuf data | writeData data | writeEnd data =>
    obtain rfl := Option.some.inj hs
    simp [EchoPc.output]
  | readToEnd =>
    simp only [serve] at hs
    by_cases hlt : quinnReadLimit < recv.length
    · rw [if_pos hlt] at hs
      obtain rfl := Option.some.inj hs
      have hmore : ¬ (recv ++ more).length ≤ quinnReadLimit := by
        rw [List.length_append]
        omega
      refine ⟨?_, rfl⟩
      simp only [EchoPc.output]
      rw [if_neg hmore]
    · rw [if_neg hlt, Option.ite_none_right_eq_some] at hs
      obtain ⟨hfin, hs⟩ := hs
      obtain rfl := Option.some.inj hs
      rw [hf hfin, List.append_nil]
      simp [EchoPc.output, Nat.le_of_not_lt hlt]
  | closed => cases hs

/-- A server that waits although the client has finished has left its loop. -/
theorem QuinnStream.closed_of_serve_none {s : QuinnStream} (hf : s.finished = true)
    (hs : s.serve = none) : s.pc = .closed := by
  obtain ⟨pc, recv, send, finished⟩ := s
  have hfin : finished = true := hf
  subst hfin
  cases pc with
  | readLen =>
    simp only [serve, if_true] at hs
    split at hs <;> cases hs
  | readData =>
    simp only [serve, if_true] at hs
    split at hs <;> cases hs
  | readToEnd =>
    simp only [serve, if_true] at hs
    split at hs <;> cases hs
  | writeLen | writeData | writeEnd => cases hs
  | closed => rfl

/-! ## The clients -/

inductive OneShotPc where
  /-- these are still to be written, and then the stream is finished -/
  | write (data : List Bytes)
  /-- `recv.read_exact(&mut buf)` -/
  | read
  | done
  | failed
  deriving DecidableEq, Repr

/-- A client that reads back `bufLen` bytes, and its stream. -/
structure OneShot where
  pc : OneShotPc
  bufLen : ℕ
  stream : QuinnStream
  deriving DecidableEq, Repr

inductive OneShotEvent where
  | client
  | server
  /-- the read of the client times out, or finds the stream closed -/
  | giveUp
  deriving DecidableEq, Repr

inductive OneShotObs where
  /-- `read_exact` succeeded with these bytes -/
  | readBack (data : Bytes)
  | failed
  deriving DecidableEq, Repr

namespace OneShot

/-- A client on a fresh stream that writes `data` for the payload. -/
def start (data : List Bytes) (payload : Bytes) : OneShot :=
  ⟨.write data, payload.length, .opened⟩

def quinnEchoRoundtrip (payload : Bytes) : OneShot := start [sentinel, payload] payload

def quinnConnectionRoundtrip (payload : Bytes) : OneShot := start [sentinel, payload] payload

/-- The worker of `bench_quinn_concurrent`. -/
def concurrentWorker (payload : Bytes) : OneShot := start [payload] payload

def client (s : OneShot) : Option (OneShot × List OneShotObs) :=
  match s.pc with
  | .write (w :: data) =>
    some ({ s with pc := .write data, stream := { s.stream with recv := s.stream.recv ++ w } }, [])
  | .write [] => some ({ s with pc := .read, stream := { s.stream with finished := true } }, [])
  | .read =>
    if s.bufLen ≤ s.stream.send.length then
      some ({ s with
        pc := .done
        stream := { s.stream with send := s.stream.send.drop s.bufLen } },
        [.readBack (s.stream.send.take s.bufLen)])
    else none
  | .done | .failed => none

/-- Nothing else can happen, so the read fails. -/
def giveUp (s : OneShot) : Option (OneShot × List OneShotObs) :=
  if s.stream.serve.isNone ∧ s.client.isNone ∧ s.pc = .read then
    some ({ s with pc := .failed }, [.failed])
  else none

def step (s : OneShot) : OneShotEvent → Option (OneShot × List OneShotObs)
  | .client => s.client
  | .server => s.stream.serve.map fun stream => ({ s with stream := stream }, [])
  | .giveUp => s.giveUp

def machine : Machine OneShot OneShotEvent OneShotObs := ⟨step⟩

def Complete (s : OneShot) : Prop := ∀ e, machine.step s e = none

def toWrite (s : OneShot) : Bytes :=
  match s.pc with
  | .write data => data.flatten
  | _ => []

/-- The stream between the two, as long as the client has read nothing: what is written back
is a front of the answer to the whole input, and what is missing is still to come. -/
structure Open (answer : Bytes) (s : OneShot) : Prop where
  output : s.stream.send ++ s.stream.pc.output (s.stream.recv ++ s.toWrite) = answer
  finished : s.stream.finished = true → s.toWrite = []
  reads : s.pc = .read → s.stream.finished = true

/-- What the client has got out of its stream. -/
inductive Got (answer : Bytes) (s : OneShot) (tr : List OneShotObs) : Prop where
  | nothing (h : Open answer s) (hpc : s.pc ≠ .done ∧ s.pc ≠ .failed) (ht : tr = [])
  | data (hpc : s.pc = .done) (hle : s.bufLen ≤ answer.length)
      (ht : tr = [.readBack (answer.take s.bufLen)])
  | error (hpc : s.pc = .failed) (hlt : answer.length < s.bufLen) (ht : tr = [.failed])

theorem Open.start (data : List Bytes) (payload : Bytes) :
    Open (echoOf data.flatten) (start data payload) :=
  ⟨rfl, nofun, nofun⟩

theorem Open.client {answer : Bytes} {s s' : OneShot} {out : List OneShotObs}
    (h : Open answer s) (hs : s.client = some (s', out)) :
    (Open answer s' ∧ s'.pc ≠ .done ∧ s'.pc ≠ .failed ∧ out = []) ∨
      (s'.pc = .done ∧ s.bufLen ≤ answer.length ∧ out = [.readBack (answer.take s.bufLen)]) := by
  obtain ⟨pc, bufLen, stream⟩ := s
  obtain ⟨houtput, hfin, hread⟩ := h
  cases pc with
  | write data =>
    left
    cases data with
    | nil =>
      obtain ⟨rfl, rfl⟩ := Prod.mk.inj (Option.some.inj hs)
      exact ⟨⟨houtput, fun _ => rfl, fun _ => rfl⟩, nofun, nofun, rfl⟩
    | cons w data =>
      obtain ⟨rfl, rfl⟩ := Prod.mk.inj (Option.some.inj hs)
      refine ⟨⟨?_, fun hf => ?_, nofun⟩, nofun, nofun, rfl⟩
      · simpa [toWrite] using houtput
      · have hnil := hfin hf
        simp only [toWrite, List.flatten_cons, List.append_eq_nil_iff] at hnil
        exact hnil.2
  | read =>
    right
    simp only [OneShot.client, Option.ite_none_right_eq_some, Option.some.injEq,
      Prod.mk.injEq] at hs
    obtain ⟨hle, rfl, rfl⟩ := hs
    refine ⟨rfl, ?_, ?_⟩
    · rw [← houtput, List.length_append]
      exact Nat.le_add_right_of_le hle
    · rw [← houtput, List.take_append_of_le_length hle]
  | done | failed => cases hs

/-- The client gives up only if the answer is too short. -/
theorem Open.giveUp {answer : Bytes} {s s' : OneShot} {out : List OneShotObs}
    (h : Open answer s) (hs : s.giveUp = some (s', out)) :
    s'.pc = .failed ∧ answer.length < s.bufLen ∧ out = [.failed] := by
  obtain ⟨pc, bufLen, stream⟩ := s
  obtain ⟨houtput, -, hread⟩ := h
  simp only [OneShot.giveUp, Option.ite_none_right_eq_some, Option.some.injEq,
    Prod.mk.injEq] at hs
  obtain ⟨⟨hserve, hclient, rfl⟩, rfl, rfl⟩ := hs
  have hclosed := QuinnStream.closed_of_serve_none (hread rfl) (Option.isNone_iff_eq_none.mp hserve)
  refine ⟨rfl, ?_, rfl⟩
  rw [← houtput, hclosed]
  simpa [OneShot.client, EchoPc.output] using hclient

/-! A bound on the operations that are left. -/

def serverLeft (stream : QuinnStream) : ℕ :=
  4 * stream.recv.length +
    match stream.pc with
    | .readData _ => 4
    | .writeLen _ _ => 3
    | .writeData _ | .readToEnd => 2
    | .readLen | .writeEnd _ => 1
    | .closed => 0

def left (s : OneShot) : ℕ :=
  serverLeft s.stream + 4 * s.toWrite.length +
    match s.pc with
    | .write data => data.length + 2
    | .read => 1
    | .done | .failed => 0

theorem serve_left {stream stream' : QuinnStream} (hs : stream.serve = some stream') :
    serverLeft stream' < serverLeft stream := by
  obtain ⟨pc, recv, send, finished⟩ := stream
  cases pc with
  | readLen =>
    simp only [QuinnStream.serve] at hs
    by_cases h4 : 4 ≤ recv.length
    · rw [if_pos h4] at hs
      obtain rfl := Option.some.inj hs
      simp only [serverLeft, List.length_drop, QuinnStream.afterLen]
      split <;> grind
    · rw [if_neg h4, Option.ite_none_right_eq_some] at hs
      obtain rfl := Option.some.inj hs.2
      simp [serverLeft]
  | readData lenBuf =>
    simp only [QuinnStream.serve] at hs
    by_cases hle : (fromLeBytes lenBuf).toNat ≤ recv.length
    · rw [if_pos hle] at hs
      obtain rfl := Option.some.inj hs
      simp only [serverLeft, List.length_drop]
      omega
    · rw [if_neg hle, Option.ite_none_right_eq_some] at hs
      obtain rfl := Option.some.inj hs.2
      simp [serverLeft]
  | writeLen | writeData | writeEnd =>
    obtain rfl := Option.some.inj hs
    simp [serverLeft]
  | readToEnd =>
    simp only [QuinnStream.serve] at hs
    by_cases hlt : quinnReadLimit < recv.length
    · rw [if_pos hlt] at hs
      obtain rfl := Option.some.inj hs
      simp [serverLeft]
    · rw [if_neg hlt, Option.ite_none_right_eq_some] at hs
      obtain rfl := Option.some.inj hs.2
      simp only [serverLeft, List.length_nil]
      omega
  | closed => cases hs

theorem client_left {s s' : OneShot} {out : List OneShotObs}
    (hs : s.client = some (s', out)) : s'.bufLen = s.bufLen ∧ s'.left < s.left := by
  obtain ⟨pc, bufLen, stream⟩ := s
  cases pc with
  | write data =>
    cases data with
    | nil =>
      obtain ⟨rfl, rfl⟩ := Prod.mk.inj (Option.some.inj hs)
      exact ⟨rfl, by simp [left, serverLeft, toWrite]⟩
    | cons w data =>
      obtain ⟨rfl, rfl⟩ := Prod.mk.inj (Option.some.inj hs)
      refine ⟨rfl, ?_⟩
      simp only [left, serverLeft, toWrite, List.length_append, List.flatten_cons, List.length_cons]
      omega
  | read =>
    simp only [OneShot.client, Option.ite_none_right_eq_some, Option.some.injEq,
      Prod.mk.injEq] at hs
    obtain ⟨-, rfl, rfl⟩ := hs
    exact ⟨rfl, by simp [left, serverLeft, toWrite]⟩
  | done | failed => cases hs

theorem step_left {s s' : OneShot} {e : OneShotEvent} {out : List OneShotObs}
    (hs : machine.step s e = some (s', out)) : s'.bufLen = s.bufLen ∧ s'.left < s.left := by
  cases e with
  | client => exact client_left hs
  | server =>
    obtain ⟨stream', hserve, h⟩ := Option.map_eq_some_iff.mp hs
    obtain ⟨rfl, rfl⟩ := Prod.mk.inj h
    refine ⟨rfl, ?_⟩
    have hlt := serve_left hserve
    simp only [left, toWrite]
    omega
  | giveUp =>
    change s.giveUp = some (s', out) at hs
    simp only [OneShot.giveUp, Option.ite_none_right_eq_some, Option.some.injEq,
      Prod.mk.injEq] at hs
    obtain ⟨⟨-, -, hpc⟩, rfl, rfl⟩ := hs
    exact ⟨rfl, by simp [left, toWrite, hpc]⟩

theorem Got.step {answer : Bytes} {s s' : OneShot} {e : OneShotEvent} {tr out : List OneShotObs}
    (hi : Got answer s tr) (hs : machine.step s e = some (s', out)) :
    Got answer s' (tr ++ out) := by
  have hbuf := (step_left hs).1
  cases e with
  | client =>
    change s.client = some (s', out) at hs
    cases hi with
    | nothing h hpc ht =>
      subst ht
      obtain ⟨h', hdone, hfailed, rfl⟩ | ⟨hdone, hle, rfl⟩ := h.client hs
      · exact .nothing h' ⟨hdone, hfailed⟩ rfl
      · exact .data hdone (by rwa [hbuf]) (by rw [hbuf]; rfl)
    | data hpc | error hpc =>
      rw [OneShot.client, hpc] at hs
      cases hs
  | server =>
    obtain ⟨stream', hserve, h⟩ := Option.map_eq_some_iff.mp hs
    obtain ⟨rfl, rfl⟩ := Prod.mk.inj h
    rw [List.append_nil]
    cases hi with
    | nothing h hpc ht =>
      obtain ⟨hout, hfin⟩ := QuinnStream.serve_output hserve h.finished
      refine .nothing ⟨hout.trans h.output, fun hf => h.finished (hfin ▸ hf), fun hr => ?_⟩ hpc ht
      exact hfin.trans (h.reads hr)
    | data hpc hle ht => exact .data hpc hle ht
    | error hpc hlt ht => exact .error hpc hlt ht
  | giveUp =>
    change s.giveUp = some (s', out) at hs
    cases hi with
    | nothing h hpc ht =>
      subst ht
      obtain ⟨hfailed, hlt, rfl⟩ := h.giveUp hs
      exact .error hfailed (by rwa [hbuf]) rfl
    | data hpc | error hpc => simp [OneShot.giveUp, hpc] at hs

theorem got_run {data : List Bytes} {payload : Bytes} {es : List OneShotEvent} {s : OneShot}
    {tr : List OneShotObs} (hr : machine.run (start data payload) es = some (s, tr)) :
    s.bufLen = payload.length ∧ Got (echoOf data.flatten) s tr := by
  refine Machine.run_trace
    (fun s tr => s.bufLen = payload.length ∧ Got (echoOf data.flatten) s tr) ?_ hr
    (Machine.Along.true _ _) ⟨rfl, .nothing (.start data payload) ⟨nofun, nofun⟩ rfl⟩
  rintro s tr e s' out ⟨hbuf, hi⟩ - hs
  exact ⟨(step_left hs).1.trans hbuf, hi.step hs⟩

/-- The client reads its payload back. -/
def Echoed (payload : Bytes) (tr : List OneShotObs) : Prop := tr = [.readBack payload]

instance Echoed.decidable (payload : Bytes) (tr : List OneShotObs) :
    Decidable (Echoed payload tr) :=
  inferInstanceAs (Decidable (_ = _))

/-- A client that has stopped has read its payload back if and only if the server's answer to what
it wrote begins with it. -/
theorem echoed_iff_echoOf {data : List Bytes} {payload : Bytes} {es : List OneShotEvent}
    {s : OneShot} {tr : List OneShotObs}
    (hr : machine.run (start data payload) es = some (s, tr)) (hc : s.Complete) :
    Echoed payload tr ↔ payload <+: echoOf data.flatten := by
  obtain ⟨hbuf, hgot⟩ := got_run hr
  rw [Echoed, List.prefix_iff_eq_take]
  cases hgot with
  | nothing h hpc ht =>
    exfalso
    have hclient : s.client = none := hc .client
    have hserve : s.stream.serve = none := Option.map_eq_none_iff.mp (hc .server)
    have hgive : s.giveUp = none := hc .giveUp
    cases hp : s.pc with
    | write data => cases data <;> simp [OneShot.client, hp] at hclient
    | read => simp [OneShot.giveUp, hserve, hclient, hp] at hgive
    | done => exact hpc.1 hp
    | failed => exact hpc.2 hp
  | data hpc hle ht =>
    rw [ht, hbuf]
    simp [eq_comm]
  | error hpc hlt ht =>
    rw [ht]
    refine iff_of_false (by simp) fun h => ?_
    have hlen := congrArg List.length h
    rw [List.length_take] at hlen
    omega

end OneShot

inductive OneShotClient where
  | quinnEchoRoundtrip
  | quinnConnectionRoundtrip
  | concurrentWorker
  deriving DecidableEq, Repr

def OneShotClient.start : OneShotClient → Bytes → OneShot
  | .quinnEchoRoundtrip => OneShot.quinnEchoRoundtrip
  | .quinnConnectionRoundtrip => OneShot.quinnConnectionRoundtrip
  | .concurrentWorker => OneShot.concurrentWorker

namespace OneShot

/-- Every client comes to a stop, and then it has read its payload back if and only if it wrote the
sentinel, or its payload happens to be a list of frames. -/
theorem single_shot_echoed_iff {payload : Bytes} (hlen : payload.length ≤ quinnReadLimit)
    (c : OneShotClient) {es : List OneShotEvent} {s : OneShot} {tr : List OneShotObs}
    (hr : machine.run (c.start payload) es = some (s, tr)) :
    (∃ fs t tr', machine.run s fs = some (t, tr') ∧ t.Complete) ∧
      (s.Complete → (Echoed payload tr ↔ (c = .concurrentWorker → Frames payload))) := by
  refine ⟨Machine.exists_stop (fun _ => True) left
    (fun _ _ _ _ _ hs => ⟨trivial, (step_left hs).2⟩) trivial, fun hc => ?_⟩
  have hsentinel : payload <+: echoOf [sentinel, payload].flatten := by
    simp [echoOf_sentinel hlen]
  cases c with
  | quinnEchoRoundtrip | quinnConnectionRoundtrip =>
    rw [echoed_iff_echoOf hr hc]
    exact iff_of_true hsentinel nofun
  | concurrentWorker =>
    rw [echoed_iff_echoOf hr hc, List.flatten_singleton, echoOf_eq_iff]
    simp

/-- A client with the sentinel, and the worker with a payload that is a frame. -/
def sentinelRun : List OneShotEvent :=
  [.client, .server, .client, .client, .server, .server, .client]

def frameRun : List OneShotEvent :=
  [.client, .client, .server, .server, .server, .server, .server, .client]

theorem single_shot_echoed_iff_runs :
    (∃ s tr, machine.run (OneShotClient.quinnEchoRoundtrip.start [1, 2]) sentinelRun =
      some (s, tr) ∧ Echoed [1, 2] tr) ∧
    ∃ s tr, machine.run (OneShotClient.concurrentWorker.start [1, 0, 0, 0, 7]) frameRun =
      some (s, tr) ∧ Echoed [1, 0, 0, 0, 7] tr := by
  constructor
  · obtain ⟨s, tr, hr, hc⟩ : ∃ s tr,
        machine.run (OneShotClient.quinnEchoRoundtrip.start [1, 2]) sentinelRun = some (s, tr) ∧
        s.Complete :=
      ⟨_, _, rfl, by rintro (_ | _ | _) <;> rfl⟩
    exact ⟨s, tr, hr, ((single_shot_echoed_iff (by decide) _ hr).2 hc).mpr nofun⟩
  · obtain ⟨s, tr, hr, hc⟩ : ∃ s tr,
        machine.run (OneShotClient.concurrentWorker.start [1, 0, 0, 0, 7]) frameRun =
          some (s, tr) ∧ s.Complete :=
      ⟨_, _, rfl, by rintro (_ | _ | _) <;> rfl⟩
    have hframes : Frames [1, 0, 0, 0, 7] :=
      @Frames.cons [1, 0, 0, 0] [7] [] rfl rfl (by decide) (by decide) .nil
    exact ⟨s, tr, hr, ((single_shot_echoed_iff (by decide) _ hr).2 hc).mpr fun _ => hframes⟩

/-- `b"ping"` is no frame: the server takes it for the length of one, and leaves. -/
def ping : Bytes := [112, 105, 110, 103]

theorem ping_not_echoed : ∃ s,
    machine.run (OneShotClient.concurrentWorker.start ping) [.client, .client, .server, .giveUp] =
      some (s, [.failed]) ∧ s.Complete ∧ ¬ Echoed ping [.failed] :=
  ⟨_, rfl, by rintro (_ | _ | _) <;> rfl, by decide⟩

end OneShot

end TransportProxy.Bench
