import TransportProxy.Bench.QuinnEcho
import TransportProxy.Foundations.Machine

/-! # Roundtrips on a reused quinn stream

`quinn_stream_roundtrip` writes a length prefix and the payload and reads the same back, again and
again on one stream. Client and server go on in any order; a read of the client is given up when
nothing more can come.
-/
namespace TransportProxy.Bench
open Foundations Slipstream
set_option autoImplicit false

/-- Where `quinn_stream_roundtrip` stands. -/
inductive FramingPc where
  | idle
  | sendData (payload : Bytes)
  /-- `recv.read_exact(&mut resp_len_buf)` -/
  | recvLen (payload : Bytes)
  /-- `recv.read_exact(&mut buf)` into `resp_len` bytes -/
  | recvData (payload : Bytes) (respLen : ℕ)
  | failed
  deriving DecidableEq, Repr

/-- A client with the payloads it has still to send, and its stream. -/
structure FramingBench where
  pc : FramingPc
  todo : List Bytes
  stream : QuinnStream
  deriving DecidableEq, Repr

inductive FramingEvent where
  | client
  | server
  /-- a read of the client times out, or finds the stream closed -/
  | giveUp
  deriving DecidableEq, Repr

inductive FramingObs where
  /-- the roundtrip with this payload returned `Ok`, having read `data` -/
  | returned (payload data : Bytes)
  | failed (payload : Bytes)
  deriving DecidableEq, Repr

namespace FramingBench

def init (payloads : List Bytes) : FramingBench := ⟨.idle, payloads, .opened⟩

def write (s : FramingBench) (data : Bytes) : FramingBench :=
  { s with stream := { s.stream with recv := s.stream.recv ++ data } }

def read (s : FramingBench) (n : ℕ) : FramingBench :=
  { s with stream := { s.stream with send := s.stream.send.drop n } }

/-- The next operation of `quinn_stream_roundtrip`; `none` while it waits. -/
def client (s : FramingBench) : Option (FramingBench × List FramingObs) :=
  match s.pc with
  | .idle =>
    match s.todo with
    | [] => none
    | payload :: todo =>
      some ({ s.write (lenPrefix payload) with pc := .sendData payload, todo := todo }, [])
  | .sendData payload => some ({ s.write payload with pc := .recvLen payload }, [])
  | .recvLen payload =>
    if 4 ≤ s.stream.send.length then
      let respLen := (fromLeBytes (s.stream.send.take 4)).toNat
      some ({ s.read 4 with pc := .recvData payload respLen }, [])
    else none
  | .recvData payload respLen =>
    if respLen ≤ s.stream.send.length then
      some ({ s.read respLen with pc := .idle }, [.returned payload (s.stream.send.take respLen)])
    else none
  | .failed => none

/-- Nothing else can happen, so the read at which the client stands fails. -/
def giveUp (s : FramingBench) : Option (FramingBench × List FramingObs) :=
  if s.stream.serve.isNone ∧ s.client.isNone then
    match s.pc with
    | .recvLen payload | .recvData payload _ => some ({ s with pc := .failed }, [.failed payload])
    | .idle | .sendData _ | .failed => none
  else none

def step (s : FramingBench) : FramingEvent → Option (FramingBench × List FramingObs)
  | .client => s.client
  | .server => s.stream.serve.map fun stream => ({ s with stream := stream }, [])
  | .giveUp => s.giveUp

/-- Client and server in any order. -/
def machine : Machine FramingBench FramingEvent FramingObs := ⟨step⟩

/-- Nothing can happen any more. -/
def Complete (s : FramingBench) : Prop := ∀ e, machine.step s e = none

end FramingBench

@[simp] def FramingObs.returned? : FramingObs → Option (Bytes × Bytes)
  | .returned payload data => some (payload, data)
  | _ => none

namespace FramingBench

/-- The roundtrips that returned `Ok`, each with its payload and what it read back. -/
def returned (tr : List FramingObs) : List (Bytes × Bytes) := tr.filterMap FramingObs.returned?

@[simp] theorem returned_nil : returned [] = [] := rfl

@[simp] theorem returned_cons (o : FramingObs) (t : List FramingObs) :
    returned (o :: t) = o.returned?.toList ++ returned t := filterMap_cons_toList ..

@[simp] theorem returned_append (t u : List FramingObs) :
    returned (t ++ u) = returned t ++ returned u := List.filterMap_append ..

/-- Every payload came back, and both sides stand between two frames with nothing unread. -/
structure InStep (payloads : List Bytes) (s : FramingBench) (tr : List FramingObs) : Prop where
  returned : returned tr = payloads.map fun payload => (payload, payload)
  pc : s.pc = .idle
  stream : s.stream = .opened

/-! ## The states of a roundtrip -/

/-- The states of a stream that is in step, with the payload on its way; and, for a payload as long
as the limit, those after the server has taken its prefix for the sentinel. -/
inductive Phase : Option Bytes → FramingPc → QuinnStream → Prop where
  | boundary : Phase none .idle .opened
  | lenSent (p) : Phase (some p) (.sendData p) ⟨.readLen, lenPrefix p, [], false⟩
  | allSent (p) : Phase (some p) (.recvLen p) ⟨.readLen, lenPrefix p ++ p, [], false⟩
  | lenRead {p} (h : p.length < quinnReadLimit) :
      Phase (some p) (.sendData p) ⟨.readData (lenPrefix p), [], [], false⟩
  | dataSent {p} (h : p.length < quinnReadLimit) :
      Phase (some p) (.recvLen p) ⟨.readData (lenPrefix p), p, [], false⟩
  | allRead {p} (h : p.length < quinnReadLimit) :
      Phase (some p) (.recvLen p) ⟨.writeLen (lenPrefix p) p, [], [], false⟩
  | lenEchoed {p} (h : p.length < quinnReadLimit) :
      Phase (some p) (.recvLen p) ⟨.writeData p, [], lenPrefix p, false⟩
  | lenBack {p} (h : p.length < quinnReadLimit) :
      Phase (some p) (.recvData p p.length) ⟨.writeData p, [], [], false⟩
  | allEchoed {p} (h : p.length < quinnReadLimit) :
      Phase (some p) (.recvLen p) ⟨.readLen, [], lenPrefix p ++ p, false⟩
  | dataEchoed {p} (h : p.length < quinnReadLimit) :
      Phase (some p) (.recvData p p.length) ⟨.readLen, [], p, false⟩
  | sentinelRead {p} (h : p.length = quinnReadLimit) :
      Phase (some p) (.sendData p) ⟨.readToEnd, [], [], false⟩
  | swallowed {p} (h : p.length = quinnReadLimit) :
      Phase (some p) (.recvLen p) ⟨.readToEnd, p, [], false⟩
  | failed {p} (h : p.length = quinnReadLimit) :
      Phase (some p) .failed ⟨.readToEnd, p, [], false⟩

/-! A bound on the operations that are left. -/

def pcLeft : FramingPc → ℕ
  | .sendData _ => 3
  | .recvLen _ => 2
  | .recvData _ _ => 1
  | .idle | .failed => 0

def serverLeft (stream : QuinnStream) : ℕ :=
  match stream.pc with
  | .readLen => if stream.recv = [] then 0 else 4
  | .readData _ => 3
  | .writeLen _ _ => 2
  | .writeData _ => 1
  | .readToEnd | .writeEnd _ | .closed => 0

def left (s : FramingBench) : ℕ := pcLeft s.pc + serverLeft s.stream + 8 * s.todo.length

variable {cur : Option Bytes} {pc : FramingPc} {stream stream' : QuinnStream}

theorem Phase.afterPrefix {p rest : Bytes} {pc : FramingPc} (h₁ : 1 ≤ p.length)
    (h₂ : p.length ≤ quinnReadLimit)
    (hlt : p.length < quinnReadLimit →
      Phase (some p) pc ⟨.readData (lenPrefix p), rest, [], false⟩)
    (heq : p.length = quinnReadLimit → Phase (some p) pc ⟨.readToEnd, rest, [], false⟩) :
    Phase (some p) pc ⟨QuinnStream.afterLen (lenPrefix p), rest, [], false⟩ ∧
      serverLeft ⟨QuinnStream.afterLen (lenPrefix p), rest, [], false⟩ < 4 := by
  obtain h | h := Nat.lt_or_eq_of_le h₂
  · rw [QuinnStream.afterLen_of_lt h₁ h]
    exact ⟨hlt h, by simp [serverLeft]⟩
  · rw [QuinnStream.afterLen_of_eq h]
    exact ⟨heq h, by simp [serverLeft]⟩

theorem Phase.serve (h : Phase cur pc stream)
    (hlen : ∀ p, cur = some p → 1 ≤ p.length ∧ p.length ≤ quinnReadLimit)
    (hs : stream.serve = some stream') :
    Phase cur pc stream' ∧ serverLeft stream' < serverLeft stream := by
  cases h with
  | boundary => simp [QuinnStream.serve, QuinnStream.opened] at hs
  | lenSent p =>
    obtain ⟨h₁, h₂⟩ := hlen p rfl
    obtain rfl := Option.some.inj hs
    exact Phase.afterPrefix h₁ h₂ .lenRead .sentinelRead
  | allSent p =>
    obtain ⟨h₁, h₂⟩ := hlen p rfl
    obtain rfl := Option.some.inj hs
    exact Phase.afterPrefix h₁ h₂ .dataSent .swallowed
  | @lenRead p h =>
    obtain ⟨h₁, -⟩ := hlen p rfl
    simp only [QuinnStream.serve, lenPrefix_toNat h.le, List.length_nil] at hs
    rw [if_neg (by omega)] at hs
    cases hs
  | dataSent h =>
    simp only [QuinnStream.serve, lenPrefix_toNat h.le, Nat.le_refl, if_true, List.take_length,
      List.drop_length, Option.some.injEq] at hs
    subst hs
    exact ⟨.allRead h, by simp [serverLeft]⟩
  | allRead h =>
    obtain rfl := Option.some.inj hs
    exact ⟨.lenEchoed h, by simp [serverLeft]⟩
  | lenEchoed h =>
    obtain rfl := Option.some.inj hs
    exact ⟨.allEchoed h, by simp [serverLeft]⟩
  | lenBack h =>
    obtain rfl := Option.some.inj hs
    exact ⟨.dataEchoed h, by simp [serverLeft]⟩
  | swallowed h | failed h => simp [QuinnStream.serve, h] at hs
  | allEchoed | dataEchoed | sentinelRead => simp [QuinnStream.serve] at hs

/-- Where a run stands in its list of payloads. -/
structure Progress (payloads : List Bytes) (s : FramingBench) (tr : List FramingObs)
    (done : List Bytes) (cur : Option Bytes) : Prop where
  phase : Phase cur s.pc s.stream
  payloads : payloads = done ++ cur.toList ++ s.todo
  returned : returned tr = done.map fun payload => (payload, payload)
  short : ∀ p ∈ done, p.length < quinnReadLimit

theorem Progress.step {payloads done : List Bytes} {s s' : FramingBench} {e : FramingEvent}
    {tr out : List FramingObs} (hlen : ∀ p ∈ payloads, 1 ≤ p.length ∧ p.length ≤ quinnReadLimit)
    (hi : Progress payloads s tr done cur) (hs : machine.step s e = some (s', out)) :
    (∃ done' cur', Progress payloads s' (tr ++ out) done' cur') ∧ s'.left < s.left := by
  obtain ⟨pc, todo, stream⟩ := s
  have hcur : ∀ p, cur = some p → 1 ≤ p.length ∧ p.length ≤ quinnReadLimit := by
    intro p hp
    apply hlen
    rw [hi.payloads, hp]
    simp
  cases e with
  | server =>
    obtain ⟨stream', hserve, h⟩ := Option.map_eq_some_iff.mp hs
    obtain ⟨rfl, rfl⟩ := Prod.mk.inj h
    obtain ⟨hphase, hlt⟩ := hi.phase.serve hcur hserve
    refine ⟨⟨done, cur, hphase, hi.payloads, ?_, hi.short⟩, ?_⟩
    · rw [List.append_nil]
      exact hi.returned
    · simpa [left] using hlt
  | client =>
    have hsame {pc' : FramingPc} {stream' : QuinnStream} (hphase : Phase cur pc' stream') :
        Progress payloads ⟨pc', todo, stream'⟩ (tr ++ []) done cur := by
      refine ⟨hphase, hi.payloads, ?_, hi.short⟩
      rw [List.append_nil]
      exact hi.returned
    change FramingBench.client ⟨pc, todo, stream⟩ = some (s', out) at hs
    obtain ⟨hphase, hpay, hret, hshort⟩ := hi
    cases hphase with
    | boundary =>
      cases todo with
      | nil => simp [client] at hs
      | cons p todo =>
        obtain ⟨rfl, rfl⟩ := Prod.mk.inj (Option.some.inj hs)
        refine ⟨⟨done, some p, .lenSent p, ?_, ?_, hshort⟩, ?_⟩
        · simpa [write] using hpay
        · rwa [List.append_nil]
        · simp [left, pcLeft, serverLeft, write]
          omega
    | lenSent p =>
      obtain ⟨rfl, rfl⟩ := Prod.mk.inj (Option.some.inj hs)
      exact ⟨⟨done, some p, hsame (.allSent p)⟩, by simp [left, pcLeft, serverLeft, write]⟩
    | lenRead h =>
      obtain ⟨rfl, rfl⟩ := Prod.mk.inj (Option.some.inj hs)
      exact ⟨⟨done, _, hsame (.dataSent h)⟩, by simp [left, pcLeft, serverLeft, write]⟩
    | sentinelRead h =>
      obtain ⟨rfl, rfl⟩ := Prod.mk.inj (Option.some.inj hs)
      exact ⟨⟨done, _, hsame (.swallowed h)⟩, by simp [left, pcLeft, serverLeft, write]⟩
    | @lenEchoed p h =>
      have hlb := Phase.lenBack h
      rw [← lenPrefix_toNat h.le] at hlb
      obtain ⟨rfl, rfl⟩ := Prod.mk.inj (Option.some.inj hs)
      exact ⟨⟨done, _, hsame hlb⟩, by simp [left, pcLeft, serverLeft, read]⟩
    | @allEchoed p h =>
      simp only [client, List.length_append, length_lenPrefix, Nat.le_add_right, if_true,
        take_lenPrefix, lenPrefix_toNat h.le, Option.some.injEq, Prod.mk.injEq] at hs
      obtain ⟨rfl, rfl⟩ := hs
      exact ⟨⟨done, _, hsame (.dataEchoed h)⟩, by simp [left, pcLeft, serverLeft, read]⟩
    | @dataEchoed p h =>
      simp only [client, Nat.le_refl, if_true, List.take_length, Option.some.injEq,
        Prod.mk.injEq] at hs
      obtain ⟨rfl, rfl⟩ := hs
      refine ⟨⟨done ++ [p], none, ?_, ?_, ?_, ?_⟩, by simp [left, pcLeft, serverLeft, read]⟩
      · simpa [read, QuinnStream.opened] using Phase.boundary
      · simpa [read] using hpay
      · simp [hret]
      · simpa [or_imp, forall_and] using ⟨hshort, h⟩
    | @lenBack p h =>
      have h₁ := (hcur p rfl).1
      simp only [client, List.length_nil] at hs
      rw [if_neg (by omega)] at hs
      cases hs
    | allSent | dataSent | allRead | swallowed | failed => simp [client] at hs
  | giveUp =>
    change FramingBench.giveUp ⟨pc, todo, stream⟩ = some (s', out) at hs
    simp only [giveUp, Option.ite_none_right_eq_some] at hs
    obtain ⟨⟨hserve, hclient⟩, hs⟩ := hs
    obtain ⟨hphase, hpay, hret, hshort⟩ := hi
    cases hphase with
    | swallowed h =>
      obtain ⟨rfl, rfl⟩ := Prod.mk.inj (Option.some.inj hs)
      exact ⟨⟨done, _, .failed h, hpay, by simpa using hret, hshort⟩, by simp [left, pcLeft]⟩
    | boundary | lenSent | lenRead | sentinelRead | failed => cases hs
    | allSent | allRead | lenEchoed | lenBack => cases hserve
    | @dataSent p h => simp [QuinnStream.serve, lenPrefix_toNat h.le] at hserve
    | allEchoed | dataEchoed => simp [client] at hclient

theorem Progress.init (payloads : List Bytes) :
    Progress payloads (init payloads) [] [] none :=
  ⟨.boundary, rfl, rfl, nofun⟩

theorem progress_run {payloads : List Bytes} {es : List FramingEvent} {s : FramingBench}
    {tr : List FramingObs} (hlen : ∀ p ∈ payloads, 1 ≤ p.length ∧ p.length ≤ quinnReadLimit)
    (hr : machine.run (init payloads) es = some (s, tr)) :
    ∃ done cur, Progress payloads s tr done cur :=
  Machine.run_trace (fun s tr => ∃ done cur, Progress payloads s tr done cur)
    (fun _ _ _ _ _ ⟨_, _, hi⟩ _ hs => (hi.step hlen hs).1) hr (Machine.Along.true _ _)
    ⟨[], none, .init payloads⟩

/-- A complete stream stands between two frames with nothing left to send, or has failed on a
payload as long as the limit. -/
theorem Progress.complete {payloads done : List Bytes} {s : FramingBench} {tr : List FramingObs}
    (hi : Progress payloads s tr done cur) (hc : s.Complete) :
    (cur = none ∧ s.todo = [] ∧ s.pc = .idle ∧ s.stream = .opened) ∨
      (s.pc = .failed ∧ ∃ p, cur = some p ∧ p.length = quinnReadLimit) := by
  obtain ⟨pc, todo, stream⟩ := s
  obtain ⟨hphase, -, -, -⟩ := hi
  have hclient : FramingBench.client ⟨pc, todo, stream⟩ = none := hc .client
  have hserver : stream.serve = none := Option.map_eq_none_iff.mp (hc .server)
  have hgive : FramingBench.giveUp ⟨pc, todo, stream⟩ = none := hc .giveUp
  cases hphase with
  | boundary =>
    cases todo with
    | nil => exact .inl ⟨rfl, rfl, rfl, rfl⟩
    | cons => cases hclient
  | failed h => exact .inr ⟨rfl, _, rfl, h⟩
  | swallowed h => simp [giveUp, hclient, hserver] at hgive
  | lenSent | lenRead | sentinelRead => cases hclient
  | allSent | allRead | lenEchoed | lenBack => cases hserver
  | @dataSent p h => simp [QuinnStream.serve, lenPrefix_toNat h.le] at hserver
  | allEchoed | dataEchoed => simp [client] at hclient

/-- Client and server come to a stop, and then the stream is in step if and only if no payload is as
long as the server's limit. -/
theorem framing_in_step_iff {payloads : List Bytes} {es : List FramingEvent} {s : FramingBench}
    {tr : List FramingObs} (hlen : ∀ p ∈ payloads, 1 ≤ p.length ∧ p.length ≤ quinnReadLimit)
    (hr : machine.run (init payloads) es = some (s, tr)) :
    (∃ fs t tr', machine.run s fs = some (t, tr') ∧ t.Complete) ∧
      (s.Complete → (InStep payloads s tr ↔ ∀ p ∈ payloads, p.length ≠ quinnReadLimit)) := by
  obtain ⟨done, cur, hi⟩ := progress_run hlen hr
  refine ⟨?_, fun hc => ?_⟩
  · refine Machine.exists_stop (fun s => ∃ tr done cur, Progress payloads s tr done cur) left ?_
      ⟨tr, done, cur, hi⟩
    rintro s e s' out ⟨tr, done, cur, hi⟩ hs
    obtain ⟨⟨done', cur', hi'⟩, hlt⟩ := hi.step hlen hs
    exact ⟨⟨_, done', cur', hi'⟩, hlt⟩
  · obtain ⟨rfl, htodo, hpc, hstream⟩ | ⟨hpc, p, rfl, hp⟩ := hi.complete hc
    · have hpay : payloads = done := by simpa [htodo] using hi.payloads
      subst hpay
      exact iff_of_true ⟨hi.returned, hpc, hstream⟩ fun p hp => (hi.short p hp).ne
    · refine iff_of_false (fun hin => ?_) fun hne => ?_
      · rw [hin.pc] at hpc
        cases hpc
      · exact hne p (by rw [hi.payloads]; simp) hp

def twoRoundtrips : List FramingEvent :=
  [.client, .server, .client, .server, .server, .client, .server, .client, .client, .client,
    .server, .server, .server, .server, .client, .client]

theorem framing_in_step_iff_twoRoundtrips : ∃ s tr,
    machine.run (init [[1, 2], [3]]) twoRoundtrips = some (s, tr) ∧
      InStep [[1, 2], [3]] s tr := by
  obtain ⟨s, tr, hr, hc⟩ : ∃ s tr,
      machine.run (init [[1, 2], [3]]) twoRoundtrips = some (s, tr) ∧ s.Complete :=
    ⟨_, _, rfl, by rintro (_ | _ | _) <;> rfl⟩
  exact ⟨s, tr, hr, ((framing_in_step_iff (by decide) hr).2 hc).mpr (by decide)⟩

/-- The client sends a payload as long as the limit, and the server waits for the end of the
stream. -/
def limitRoundtrip : List FramingEvent := [.client, .client, .server, .giveUp]

theorem limitPayload_run {p : Bytes} (hp : p.length = quinnReadLimit) :
    machine.run (init [p]) limitRoundtrip =
      some (⟨.failed, [], .readToEnd, p, [], false⟩, [.failed p]) := by
  simp [limitRoundtrip, Machine.run, machine, step, client, init, write, QuinnStream.opened,
    QuinnStream.serve, QuinnStream.afterLen_of_eq hp, giveUp, hp]

theorem limitPayload_complete {p : Bytes} (hp : p.length = quinnReadLimit) :
    Complete ⟨.failed, [], .readToEnd, p, [], false⟩ := by
  rintro (_ | _ | _) <;> simp [machine, step, client, giveUp, QuinnStream.serve, hp]

theorem limitRoundtrip_fails : ∃ s tr,
    machine.run (init [List.replicate quinnReadLimit 0xAB]) limitRoundtrip = some (s, tr) ∧
      s.Complete ∧ tr = [.failed (List.replicate quinnReadLimit 0xAB)] ∧
      ¬ InStep [List.replicate quinnReadLimit 0xAB] s tr := by
  have hp : (List.replicate quinnReadLimit (0xAB : UInt8)).length = quinnReadLimit :=
    List.length_replicate
  exact ⟨_, _, limitPayload_run hp, limitPayload_complete hp, rfl, fun h => nomatch h.pc⟩

end FramingBench

end TransportProxy.Bench
