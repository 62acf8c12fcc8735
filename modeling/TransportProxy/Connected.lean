import TransportProxy.Client.Connect

/-! # A connection is real when `connect_stream` says so

The token in the ready channel is sent by the ready callback alone, after it has stored the
connection and the stream id, and only the `select!` takes it out. So a poll that takes a token
returns `Ok` on a real connection. But `ready_rx.recv()` also completes when the thread has dropped
its sender, and then the poll returns `Ok` as well.
-/
namespace TransportProxy.Slipstream
open Foundations
set_option autoImplicit false

/-- Only a ready callback puts a token into the ready channel, and it has stored the connection and
the stream id by then. -/
theorem Client.Step.ready_sent {s s' : Client} {e : ClientEvent} {out : List ClientObs}
    (h : Client.Step s e s' out) :
    (s'.readyQ.buf = s.readyQ.buf ∧ .readySent ∉ out) ∨
      (.readySent ∈ out ∧ s'.readyQ.buf ≠ [] ∧ ∃ cb nextId, e = .stream cb nextId 0 ∧
        cb.event = .ready ∧ s'.ctx.cnx = cb.cnx ∧ s'.ctx.streamId = nextId) := by
  cases h with
  | @ready cb nextId markRet q sent hp he hm hq =>
    subst hm
    obtain ⟨⟨hb, rfl⟩, rfl⟩ | ⟨rfl, rfl⟩ := hq
    · exact .inr ⟨by simp, by simp, cb, nextId, rfl, he, rfl, rfl⟩
    · exact .inl ⟨rfl, by simp⟩
  | noop hp hn ha ho => obtain rfl | rfl := ho <;> exact .inl ⟨rfl, by simp⟩
  | checked hp hr ho | peeked hp hr hn hb ho | peekClosed hp hr hn hb ho =>
    obtain ⟨d, rfl⟩ := ho
    exact .inl ⟨rfl, by simp⟩
  | afterClose => exact .inl ⟨rfl, by split <;> simp⟩
  | _ => exact .inl ⟨rfl, by simp⟩

namespace Connect
variable {args : ConnectArgs}

theorem setupNext_silent {setup next : Setup} {e : ConnectEvent} {out : List ConnectObs}
    (h : setupNext args setup e = some (next, out)) (o : ClientObs) : .client o ∉ out := by
  unfold setupNext at h
  split at h <;> simp only [Option.some.injEq, Prod.mk.injEq, reduceCtorEq] at h <;>
    obtain ⟨-, rfl⟩ := h
  case h_6 | h_7 => split <;> simp
  all_goals simp

theorem freed_silent (s : Connect) (e : ClientEvent) (o : ClientObs) : .client o ∉ s.freed e := by
  unfold freed
  split
  · split <;> simp
  · simp

theorem dropLocal_ends {client : Client} (h : client.LoopEnds) (l : Local) :
    (dropLocal client l).LoopEnds := by
  cases l <;> exact h.congr rfl rfl rfl rfl rfl

/-- While `connect_stream` waits, there is a token in the ready channel if one was sent. -/
structure Waiting (s : Connect) (tr : List ConnectObs) : Prop where
  ends : s.client.LoopEnds
  token : s.task = .select → (s.client.readyQ.buf ≠ [] ↔ .client .readySent ∈ tr)

theorem Waiting.init : Waiting init [] := ⟨.init, by simp [Connect.init, Client.init]⟩

theorem Step.waiting {s s' : Connect} {e : ConnectEvent} {tr out : List ConnectObs}
    (h : Step args s e s' out) (hi : Waiting s tr) : Waiting s' (tr ++ out) := by
  cases h with
  | setup hn =>
    refine ⟨hi.ends, fun ht => ?_⟩
    rw [List.mem_append, or_iff_left (setupNext_silent hn _)]
    exact hi.token ht
  | @client e client out ha h =>
    refine ⟨h.loopEnds hi.ends, fun ht => ?_⟩
    have hout : .client .readySent ∈ tr ++ (s.freed e ++ out.map ConnectObs.client) ↔
        .client .readySent ∈ tr ∨ .readySent ∈ out := by
      rw [List.mem_append, List.mem_append, or_iff_right (freed_silent s e _)]
      simp
    rw [hout]
    obtain ⟨hb, hn⟩ | ⟨hs, hb, -⟩ := h.ready_sent
    · rw [or_iff_left hn]
      simpa only [hb] using hi.token ht
    · exact iff_of_true hb (.inr hs)
  | timer => exact ⟨hi.ends, by simpa using hi.token⟩
  | token => exact ⟨hi.ends.congr rfl rfl rfl rfl rfl, nofun⟩
  | closed => exact ⟨hi.ends, nofun⟩
  | waits ht => exact ⟨hi.ends.congr rfl rfl rfl rfl rfl, fun _ => by simpa using hi.token ht⟩
  | bailed => exact ⟨hi.ends, nofun⟩
  | bailedLate => exact ⟨hi.ends.congr rfl rfl rfl rfl rfl, nofun⟩
  | dropLocal => exact ⟨dropLocal_ends hi.ends _, nofun⟩

theorem Waiting.sender_of_exited {s : Connect} {tr : List ConnectObs} (h : Waiting s tr)
    (hp : s.client.pc = .exited) : s.client.readyQ.sender = false := by
  have hr := h.ends.ready
  rw [hp] at hr
  simpa [LoopPc.dropped] using hr

theorem waiting_run {es : List ConnectEvent} {s : Connect} {tr : List ConnectObs}
    (hr : (machine args).run init es = some (s, tr)) : Waiting s tr :=
  Machine.run_trace Waiting (fun _ _ _ _ _ hi _ hs => (step_cases hs).waiting hi) hr
    (Machine.Along.true _ _) .init

/-- The ready callback was delivered, and it stored the connection and the stream id and sent the
token. -/
def Ready (args : ConnectArgs) (es : List ConnectEvent) : Prop :=
  ∃ es₁ cb nextId es₂ m tr m' out, es = es₁ ++ .client (.stream cb nextId 0) :: es₂ ∧
    (machine args).run init es₁ = some (m, tr) ∧
    (machine args).step m (.client (.stream cb nextId 0)) = some (m', out) ∧
    cb.event = .ready ∧ .client .readySent ∈ out ∧ m'.client.ctx.cnx = cb.cnx ∧
    m'.client.ctx.streamId = nextId

theorem ready_iff {es : List ConnectEvent} {s : Connect} {tr : List ConnectObs}
    (hr : (machine args).run init es = some (s, tr)) :
    Ready args es ↔ .client .readySent ∈ tr := by
  constructor
  · rintro ⟨es₁, cb, nextId, es₂, m, tr₁, m', out, rfl, h₁, hs, -, ho, -⟩
    obtain ⟨m₁, tr₂, rest, hm, hrest, rfl⟩ := (Machine.run_append_iff ..).mp hr
    rw [h₁] at hm
    obtain ⟨rfl, rfl⟩ := Prod.mk.inj (Option.some.inj hm)
    obtain ⟨s₁, out₁, rest₁, hs₁, -, rfl⟩ := (Machine.run_cons_iff ..).mp hrest
    rw [hs] at hs₁
    obtain ⟨rfl, rfl⟩ := Prod.mk.inj (Option.some.inj hs₁)
    simp [ho]
  · intro ho
    obtain ⟨es₁, e, es₂, m, tr₁, m', out, rfl, h₁, hs, ho⟩ := Machine.step_of_mem hr ho
    cases step_cases hs with
    | setup hn => exact absurd ho (setupNext_silent hn _)
    | @client e client cout ha h =>
      have hc : .readySent ∈ cout := by
        simpa [freed_silent] using ho
      obtain ⟨-, hn⟩ | ⟨-, -, cb, nextId, rfl, he, hcnx, hid⟩ := h.ready_sent
      · exact absurd hc hn
      · exact ⟨es₁, cb, nextId, es₂, m, tr₁, _, _, rfl, h₁, hs, he, ho, hcnx, hid⟩
    | _ => cases ho

/-- The poll looks at a ready channel that is empty and closed: the thread has ended, or dropped its
context, without a token. -/
def Misled (s : Connect) : ConnectEvent → Prop
  | .poll recvFirst => s.client.readyQ.buf = [] ∧ s.client.readyQ.sender = false ∧
    (recvFirst = true ∨ s.timer = false)
  | _ => False

def ReturnedOk (s : Connect) : Prop := ∃ locals, s.task = .returned none locals

def ReturnedErr (s : Connect) : Prop := ∃ error locals, s.task = .returned (some error) locals

theorem not_returnedOk_of_select {s : Connect} (h : s.task = .select) : ¬ s.ReturnedOk := by
  rintro ⟨locals, hl⟩
  rw [h] at hl
  cases hl

theorem not_returnedOk_bail (s : Connect) : ¬ s.bail.ReturnedOk := by
  rintro ⟨locals, hl⟩
  cases hl

theorem not_misled_of_sender {s : Connect} {e : ConnectEvent}
    (h : s.client.readyQ.sender = true) : ¬ s.Misled e := by
  cases e with
  | poll recvFirst =>
    rintro ⟨-, hs, -⟩
    rw [h] at hs
    cases hs
  | _ => exact id

/-- A poll that comes to the timer first does not look at the channel. -/
theorem not_misled_of_timer {s : Connect} (h : s.timer = true) : ¬ s.Misled (.poll false) := by
  rintro ⟨-, -, hf | hf⟩
  · cases hf
  · rw [h] at hf
    cases hf

theorem not_misled_of_setup {s : Connect} {setup next : Setup} {e : ConnectEvent}
    {out : List ConnectObs} (h : setupNext args setup e = some (next, out)) : ¬ s.Misled e := by
  cases e with
  | poll recvFirst => cases setup <;> cases h
  | _ => exact id

end Connect

/-- A step in which `connect_stream` returns is right about the connection, and in particular
returns an error if the thread has ended without a token, if and only if it does not look at a ready
channel that is empty and closed. -/
theorem ok_means_ready_iff {args : ConnectArgs} {es : List ConnectEvent} {s s' : Connect}
    {tr out : List ConnectObs} {e : ConnectEvent}
    (hr : (Connect.machine args).run Connect.init es = some (s, tr)) (ht : s.task = .select)
    (hs : (Connect.machine args).step s e = some (s', out)) :
    ((s'.ReturnedOk → Connect.Ready args es) ↔ ¬ s.Misled e) ∧
      (s.client.pc = .exited → ¬ Connect.Ready args es → ∀ recvFirst, e = .poll recvFirst →
        (s'.ReturnedErr ↔ ¬ s.Misled e)) := by
  have hi := Connect.waiting_run hr
  have hready := Connect.ready_iff hr
  rw [← hi.token ht] at hready
  cases Connect.step_cases hs with
  | setup hn =>
    have hm : ¬ s.Misled e := Connect.not_misled_of_setup hn
    refine ⟨iff_of_true (fun h => absurd h (Connect.not_returnedOk_of_select ht)) hm, ?_⟩
    rintro - - recvFirst rfl
    cases hset : s.setup <;> rw [hset] at hn <;> cases hn
  | client | timer =>
    exact ⟨iff_of_true (fun h => absurd h (Connect.not_returnedOk_of_select ht)) id,
      fun _ _ _ h => by cases h⟩
  | token _ _ hb =>
    have hne : s.client.readyQ.buf ≠ [] := by simp [hb]
    exact ⟨iff_of_true (fun _ => hready.mpr hne) fun hm => hne hm.1,
      fun _ hn => absurd (hready.mpr hne) hn⟩
  | closed _ hf hb hc =>
    have hm : s.client.readyQ.buf = [] ∧ s.client.readyQ.sender = false ∧ _ := ⟨hb, hc, hf⟩
    refine ⟨iff_of_false (fun h => ?_) fun h => h hm, fun _ _ _ _ => iff_of_false ?_ fun h => h hm⟩
    · exact hready.mp (h ⟨_, rfl⟩) hb
    · rintro ⟨error, locals, h⟩
      cases h
  | waits _ hf hb hc =>
    refine ⟨iff_of_true (fun h => absurd h (Connect.not_returnedOk_of_select ht))
      (Connect.not_misled_of_sender hc), fun hp => ?_⟩
    have hdropped := hi.sender_of_exited hp
    rw [hc] at hdropped
    cases hdropped
  | bailed _ hf =>
    have hm := Connect.not_misled_of_timer hf
    exact ⟨iff_of_true (fun h => absurd h (Connect.not_returnedOk_bail _)) hm,
      fun _ _ _ _ => iff_of_true ⟨_, _, rfl⟩ hm⟩
  | bailedLate _ hf hb hc =>
    have hm := Connect.not_misled_of_sender (e := .poll true) hc
    exact ⟨iff_of_true (fun h => absurd h (Connect.not_returnedOk_bail _)) hm,
      fun _ _ _ _ => iff_of_true ⟨_, _, rfl⟩ hm⟩
  | dropLocal hl =>
    rw [ht] at hl
    cases hl

/-- The peer's ready event comes before the poll. -/
def readyThenPoll : List ConnectEvent :=
  [.cString, .cString, .cString, .getServerAddress 0, .create 1, .createCnx 2, .startClientCnx 0,
    .poll true, .client (.stream ⟨2, 0, none, .ready⟩ 0 0)]

def localhost : ConnectArgs := ⟨[49, 50, 55, 46, 48, 46, 48, 46, 49], 4433, [104], none⟩

theorem ok_means_ready_iff_readyThenPoll : ∃ s tr s' out,
    (Connect.machine localhost).run Connect.init readyThenPoll = some (s, tr) ∧
      (Connect.machine localhost).step s (.poll true) = some (s', out) ∧ s'.ReturnedOk ∧
      Connect.Ready localhost readyThenPoll := by
  obtain ⟨s, tr, s', out, hr, hs, ht, hq, hok⟩ : ∃ s tr s' out,
      (Connect.machine localhost).run Connect.init readyThenPoll = some (s, tr) ∧
      (Connect.machine localhost).step s (.poll true) = some (s', out) ∧ s.task = .select ∧
      s.client.readyQ.buf = [()] ∧ s'.ReturnedOk := ⟨_, _, _, _, rfl, rfl, rfl, rfl, _, rfl⟩
  refine ⟨s, tr, s', out, hr, hs, hok, (ok_means_ready_iff hr ht hs).1.mpr ?_ hok⟩
  rintro ⟨hb, -⟩
  rw [hq] at hb
  cases hb

/-- `picoquic_create` fails: the thread drops the context and ends. -/
def createFails : List ConnectEvent :=
  [.cString, .cString, .cString, .getServerAddress 0, .create 0, .client .loopReturn,
    .client (.resume 0), .client (.resume 0), .client (.resume 0), .poll true]

/-- `connect_stream` returns `Ok` although no connection was ever made. -/
theorem createFails_returns_ok : ∃ s tr,
    (Connect.machine localhost).run Connect.init createFails = some (s, tr) ∧
      s.client.pc = .exited ∧ s.ReturnedOk ∧ ¬ Connect.Ready localhost createFails := by
  obtain ⟨s, tr, hr, hp, hok, hn⟩ : ∃ s tr,
      (Connect.machine localhost).run Connect.init createFails = some (s, tr) ∧
      s.client.pc = .exited ∧ s.ReturnedOk ∧ .client .readySent ∉ tr :=
    ⟨_, _, rfl, rfl, ⟨_, rfl⟩, by decide⟩
  exact ⟨s, tr, hr, hp, hok, fun h => hn ((Connect.ready_iff hr).mp h)⟩

end TransportProxy.Slipstream
