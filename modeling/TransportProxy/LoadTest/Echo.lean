import TransportProxy.LoadTest.Report

/-! # The load test against an echo server

The load test looks at no byte that comes back: it takes the next `frame_len` bytes for the answer.
Against a server that echoes its streams, that is the frame just written, as long as the numbers of
clients and messages fit into eight digits; a frame with a longer prefix is not read to its end.
-/
namespace TransportProxy.LoadTest
open Foundations Slipstream
set_option autoImplicit false

def Args.frame (args : Args) (id count : ℕ) : Bytes := framePrefix id count ++ args.payload

/-- The frames before this one. -/
def Args.frames (args : Args) (id count : ℕ) : Bytes :=
  (List.range count).flatMap fun k => args.frame id k

/-- The numbers that a frame begins with. -/
def frameNumbers (frame : Bytes) : ℕ × ℕ :=
  (fromHex (frame.take 8), fromHex ((frame.drop 8).take 8))

variable {args : Args} {id count : ℕ}

theorem Args.frames_succ (args : Args) (id count : ℕ) :
    args.frames id (count + 1) = args.frames id count ++ args.frame id count := by
  simp [frames, List.range_succ, List.flatMap_append]

theorem Args.length_frame (args : Args) (hid : id < 16 ^ 8) (hn : count < 16 ^ 8) :
    (args.frame id count).length = args.frameLen := by
  rw [frame, framePrefix, List.length_append, List.length_append, length_lowerHex hid,
    length_lowerHex hn, payload, List.length_map, List.length_range, frameLen]
  omega

theorem frameNumbers_frame (args : Args) (hid : id < 16 ^ 8) (hn : count < 16 ^ 8) :
    frameNumbers (args.frame id count) = (id, count) := by
  have hlen := length_lowerHex hid
  have hlen' := length_lowerHex hn
  rw [frameNumbers, Args.frame, framePrefix, List.append_assoc, List.take_left' hlen,
    List.drop_left' hlen, List.take_left' hlen', fromHex_lowerHex, fromHex_lowerHex]

namespace LoadClient
variable {c c' : LoadClient} {e : ClientEvent} {out : List Mark}

/-- What has been written and what has come back, where the client stands. -/
def InStep (args : Args) (id : ℕ) (c : LoadClient) : Prop :=
  match c.pc with
  | .connecting | .top | .returned =>
    c.written = args.frames id c.sentCount ∧ c.answered = args.frames id c.sentCount
  | .writePrefix rest =>
    c.written ++ rest = args.frames id c.sentCount ++ framePrefix id c.sentCount ∧
      c.answered = args.frames id c.sentCount
  | .writePayload rest =>
    c.written ++ rest = args.frames id (c.sentCount + 1) ∧
      c.answered = args.frames id c.sentCount
  | .flush | .countSent =>
    c.written = args.frames id (c.sentCount + 1) ∧ c.answered = args.frames id c.sentCount
  | .readExact buf =>
    c.written = args.frames id (c.sentCount + 1) ∧
      c.answered = args.frames id c.sentCount ++ buf ∧ buf <+: args.frame id c.sentCount
  | .addLatency | .countLatency | .countRecv =>
    c.written = args.frames id (c.sentCount + 1) ∧
      c.answered = args.frames id (c.sentCount + 1)
  | .failed _ => True

/-- The bytes that come back are the next ones that were written. -/
def Echoed (c : LoadClient) : ClientEvent → Prop
  | .answered data => data <+: c.written.drop c.answered.length
  | _ => True

instance Echoed.decidable (c : LoadClient) : ∀ e, Decidable (c.Echoed e)
  | .answered data => inferInstanceAs (Decidable (data <+: _))
  | .connected | .check _ | .wrote _ | .writeDone | .flushed | .fetchAdd _ | .readDone
  | .fails => .isTrue trivial

theorem Step.sentCount_le (h : Step args id c e c' out) : c.sentCount ≤ c'.sentCount := by
  obtain ⟨hn, -⟩ | ⟨hn, -⟩ | ⟨hn, -⟩ := h.stage <;> omega

/-- An answer is what `read_exact` has put into its buffer. -/
theorem Step.answer_of_mem (h : Step args id c e c' out) {buf : Bytes}
    (hm : .answered count buf ∈ out) :
    count = c.sentCount ∧ c.pc = .readExact buf ∧ buf.length = args.frameLen := by
  cases h with
  | readDone hp hl =>
    obtain ⟨rfl, rfl⟩ := Mark.answered.inj (List.mem_singleton.mp hm)
    exact ⟨rfl, hp, hl⟩
  | _ => simp at hm

/-- The buffer of `read_exact` is the frame that was written last, once it is full. -/
theorem InStep.answer (hi : InStep args id c) {buf : Bytes} (hp : c.pc = .readExact buf)
    (hid : id < 16 ^ 8) (hn : c.sentCount < 16 ^ 8) (hl : buf.length = args.frameLen) :
    buf = args.frame id c.sentCount := by
  rw [InStep, hp] at hi
  exact hi.2.2.eq_of_length (hl.trans (args.length_frame hid hn).symm)

theorem Step.inStep (h : Step args id c e c' out) (he : c.Echoed e) (hid : id < 16 ^ 8)
    (hn : c.sentCount < 16 ^ 8) (hi : InStep args id c) : InStep args id c' := by
  cases h with
  | connected hp | stops hp =>
    rw [InStep, hp] at hi
    exact hi
  | begins hp hs =>
    rw [InStep, hp] at hi
    exact ⟨by rw [hi.1], hi.2⟩
  | @wrotePrefix n rest hp =>
    rw [InStep, hp] at hi
    refine ⟨?_, hi.2⟩
    simp only [List.append_assoc, List.take_append_drop]
    exact hi.1
  | @wrotePayload n rest hp =>
    rw [InStep, hp] at hi
    refine ⟨?_, hi.2⟩
    simp only [List.append_assoc, List.take_append_drop]
    exact hi.1
  | prefixDone hp =>
    rw [InStep, hp] at hi
    obtain ⟨hw, ha⟩ := hi
    rw [List.append_nil] at hw
    refine ⟨?_, ha⟩
    rw [hw, Args.frames_succ, Args.frame, List.append_assoc]
  | payloadDone hp =>
    rw [InStep, hp] at hi
    obtain ⟨hw, ha⟩ := hi
    rw [List.append_nil] at hw
    exact ⟨hw, ha⟩
  | flushed hp =>
    rw [InStep, hp] at hi
    exact hi
  | countSent hp =>
    rw [InStep, hp] at hi
    exact ⟨hi.1, by rw [List.append_nil, hi.2], List.nil_prefix⟩
  | @answered buf data hp hd hle =>
    rw [InStep, hp] at hi
    obtain ⟨hw, ha, hb⟩ := hi
    refine ⟨hw, by rw [ha, List.append_assoc], ?_⟩
    simp only [Echoed] at he
    rw [hw, ha, Args.frames_succ, List.length_append, ← List.drop_drop, List.drop_left] at he
    obtain ⟨rest, hrest⟩ := hb
    rw [← hrest, List.drop_left] at he
    rw [← hrest]
    exact (List.prefix_append_right_inj buf).mpr he
  | readDone hp hl =>
    have hbuf := hi.answer hp hid hn hl
    rw [InStep, hp] at hi
    refine ⟨hi.1, ?_⟩
    rw [hi.2.1, hbuf, Args.frames_succ]
  | addLatency hp | countLatency hp | countRecv hp =>
    rw [InStep, hp] at hi
    exact hi
  | connectFails | writeFails | flushFails | readFails => trivial

end LoadClient

namespace LoadMain
variable {s s' : LoadMain} {e : LoadEvent} {es : List LoadEvent} {tr out : List LoadObs}

def Echoed (s : LoadMain) : LoadEvent → Prop
  | .client id ce => ∀ c ∈ s.clients[id]?, c.Echoed ce
  | _ => True

instance Echoed.decidable (s : LoadMain) : ∀ e, Decidable (s.Echoed e)
  | .client id _ => inferInstanceAs (Decidable (∀ c ∈ s.clients[id]?, _))
  | .spawn | .join | .report => .isTrue trivial

/-- Every client is in step as long as its numbers have eight digits, and so was every answer. -/
structure AllInStep (args : Args) (s : LoadMain) (tr : List LoadObs) : Prop where
  clients : ∀ id c, s.clients[id]? = some c → id < 16 ^ 8 → c.sentCount < 16 ^ 8 →
    c.InStep args id
  answers : ∀ id count buf, .mark id (.answered count buf) ∈ tr → id < 16 ^ 8 →
    count < 16 ^ 8 → buf = args.frame id count

theorem AllInStep.init (args : Args) : AllInStep args (init args) [] :=
  ⟨fun _ _ hc => absurd hc (by simp [LoadMain.init]), fun _ _ _ hm => absurd hm List.not_mem_nil⟩

theorem Step.allInStep (h : Step args s e s' out) (he : s.Echoed e) (hi : AllInStep args s tr) :
    AllInStep args s' (tr ++ out) := by
  cases h with
  | spawn =>
    refine ⟨fun id c hc hid hn => ?_, by simpa using hi.answers⟩
    rw [List.getElem?_append] at hc
    split at hc
    · exact hi.clients id c hc hid hn
    · rw [List.mem_singleton.mp (List.mem_of_getElem? hc)]
      exact ⟨rfl, rfl⟩
  | @client k e c c' out hc h =>
    have hst := LoadClient.step_cases h
    have hstep (hk : k < 16 ^ 8) (hn : c.sentCount < 16 ^ 8) : c'.InStep args k :=
      hst.inStep (he c hc) hk hn (hi.clients k c hc hk hn)
    refine ⟨fun id d hd hid hn => ?_, fun id count buf hm hid hn => ?_⟩
    · rw [List.getElem?_set] at hd
      split at hd
      · rename_i hk
        subst hk
        obtain ⟨-, hd⟩ := Option.ite_none_right_eq_some.mp hd
        obtain rfl := Option.some.inj hd
        exact hstep hid (hst.sentCount_le.trans_lt hn)
      · exact hi.clients id d hd hid hn
    · obtain hm | hm := List.mem_append.mp hm
      · exact hi.answers id count buf hm hid hn
      · obtain ⟨m, hm, hkm⟩ := List.mem_map.mp hm
        obtain ⟨rfl, rfl⟩ := LoadObs.mark.inj hkm
        obtain ⟨rfl, hp, hl⟩ := hst.answer_of_mem hm
        exact (hi.clients k c hc hid hn).answer hp hid hn hl
  | join => exact ⟨hi.clients, by simpa using hi.answers⟩
  | report => exact ⟨hi.clients, by simpa using hi.answers⟩

/-- Against an echo server: what a client takes for the answer to a message is the frame of that
message, byte by byte, and begins with the client's number and the message's. -/
theorem answers_in_step (hr : (machine args).run (init args) es = some (s, tr))
    (hg : (machine args).Along Echoed (init args) es) {buf : Bytes}
    (hm : .mark id (.answered count buf) ∈ tr) (hid : id < 16 ^ 8) (hn : count < 16 ^ 8) :
    buf = args.frame id count ∧ frameNumbers buf = (id, count) := by
  have hi : AllInStep args s tr :=
    Machine.run_trace (AllInStep args) (fun _ _ _ _ _ hi hk hs => (step_cases hs).allInStep hk hi)
      hr hg (.init args)
  have hbuf := hi.answers id count buf hm hid hn
  exact ⟨hbuf, hbuf ▸ frameNumbers_frame args hid hn⟩

theorem answers_in_step_lostRun : ∃ s tr,
    (machine twoClients).run (init twoClients) lostRun = some (s, tr) ∧
    framePrefix 1 1 ++ [0, 1, 2] = twoClients.frame 1 1 ∧
    frameNumbers (framePrefix 1 1 ++ [0, 1, 2]) = (1, 1) :=
  ⟨_, _, rfl, @answers_in_step twoClients 1 1 _ lostRun _ rfl (by decide) _ (by decide)
    (by decide) (by decide)⟩

end LoadMain
end TransportProxy.LoadTest
