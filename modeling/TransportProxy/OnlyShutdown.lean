import TransportProxy.DrainRefinement
import TransportProxy.Server.Discard

/-! # Which FINs are shutdowns

An empty chunk in the send queue means FIN. `poll_shutdown` enqueues one, and so does `poll_write`
for an empty buffer. In a run without such a write every FIN goes back to a shutdown, and the bytes
handed over before it are those accepted before that shutdown.
-/
namespace TransportProxy.Slipstream
open Foundations
set_option autoImplicit false

/-- `poll_shutdown` has put its marker into the send queue, and `bytes` are those of the chunks that
`poll_write` had put there before. -/
def ShutdownAfter (bytes : Bytes) (tr : List BridgeObs) : Prop :=
  ∃ u v, tr = u ++ .queued [] :: .shutdown :: v ∧ (queued u).flatten = bytes

theorem ShutdownAfter.mem {bytes : Bytes} {tr : List BridgeObs} (h : ShutdownAfter bytes tr) :
    .shutdown ∈ tr := by
  obtain ⟨u, v, rfl, -⟩ := h
  simp

namespace Bridge

/-- The poll is no `poll_write` of an empty buffer; where a chunk is parked, the buffer does not
matter. -/
def WritesData (b : Bridge) : AppOp → Prop
  | .pollWrite buf => b.sendHalf.pendingSend = none → buf ≠ []
  | _ => True

instance WritesData.decidable (b : Bridge) : ∀ op, Decidable (b.WritesData op)
  | .pollWrite _ => inferInstanceAs (Decidable (_ → _))
  | .pollRead _ | .pollWriteWake | .pollWriteRetry | .pollFlush | .pollShutdown | .dropStream =>
    .isTrue trivial

/-- Every empty entry of the send queue was put there by a `poll_shutdown`. -/
def FinsAreShutdowns (tr : List BridgeObs) : Prop :=
  ∀ pre suf, queued tr = pre ++ [] :: suf →
    ∃ u v, tr = u ++ .queued [] :: .shutdown :: v ∧ queued u = pre

theorem FinsAreShutdowns.of_not_mem {tr : List BridgeObs} (h : [] ∉ queued tr) :
    FinsAreShutdowns tr := by
  intro pre suf hq
  rw [hq] at h
  simp at h

theorem FinsAreShutdowns.shutdown : FinsAreShutdowns [.queued [], .shutdown] := by
  intro pre suf hq
  cases pre with
  | nil => exact ⟨[], [], rfl, rfl⟩
  | cons x pre => simp at hq

theorem FinsAreShutdowns.append {t u : List BridgeObs} (ht : FinsAreShutdowns t)
    (hu : FinsAreShutdowns u) : FinsAreShutdowns (t ++ u) := by
  intro pre suf hq
  rw [queued_append] at hq
  obtain ⟨mid, hmid, -⟩ | ⟨mid, rfl, hmid⟩ := append_eq_split hq
  · obtain ⟨v, w, rfl, hv⟩ := ht pre mid hmid
    exact ⟨v, w ++ u, by simp, hv⟩
  · obtain ⟨v, w, rfl, hv⟩ := hu mid suf hmid
    exact ⟨t ++ v, w, by simp, by rw [queued_append, hv]⟩

/-- What stands behind the front of the send queue, and a marker behind that. -/
theorem FinsAreShutdowns.after {t u : List BridgeObs} {front suf : List Bytes}
    (h : FinsAreShutdowns t) (hq : queued t = front ++ [] :: suf) :
    ShutdownAfter front.flatten (t ++ u) := by
  obtain ⟨v, w, rfl, hv⟩ := h front suf hq
  exact ⟨v, w ++ u, by simp, by rw [hv]⟩

/-- No chunk of `poll_write` is empty, wherever it is. -/
structure FinInv (b : Bridge) (tr : List BridgeObs) : Prop where
  parked : ∀ x, b.sendHalf.pendingSend = some x → x.1 ≠ []
  retry : ∀ x, b.writer = .retry x → x.1 ≠ []
  fins : FinsAreShutdowns tr

theorem FinInv.new : FinInv Bridge.new [] := ⟨nofun, nofun, .of_not_mem List.not_mem_nil⟩

theorem FinInv.offers {b : Bridge} {tr : List BridgeObs} {op : AppOp} {toSend : Bytes × ℕ}
    (hi : FinInv b tr) (hg : b.WritesData op) (hw : b.Offers op toSend) : toSend.1 ≠ [] := by
  obtain ⟨buf, rfl, -, -, rfl⟩ | ⟨rfl, hw⟩ := hw
  · cases hp : b.sendHalf.pendingSend with
    | none => exact hg hp
    | some x => exact hi.parked x hp
  · exact hi.retry toSend hw

/-- A step that leaves the half alone, or returns from a call, and enqueues nothing. -/
theorem FinInv.quiet {b b' : Bridge} {tr out : List BridgeObs} (hi : FinInv b tr)
    (hs : ∀ x, b'.sendHalf.pendingSend = some x → b.sendHalf.pendingSend = some x)
    (hw : ∀ x, b'.writer = .retry x → b.writer = .retry x) (hq : queued out = []) :
    FinInv b' (tr ++ out) := by
  refine ⟨fun x hx => hi.parked x (hs x hx), fun x hx => hi.retry x (hw x hx), hi.fins.append ?_⟩
  exact .of_not_mem (by rw [hq]; exact List.not_mem_nil)

theorem FinInv.step {b b' : Bridge} {tr out : List BridgeObs} {op : BridgeOp} (hi : FinInv b tr)
    (hg : ∀ aop, op = .app aop → b.WritesData aop) (h : machine.step b op = some (b', out)) :
    FinInv b' (tr ++ out) := by
  cases op with
  | loop op =>
    have hs := loop_cases (Option.some.inj h)
    obtain ⟨hhalf, hwriter⟩ := hs.writer
    exact hi.quiet (fun x hx => by rwa [hhalf] at hx) (fun x hx => by rwa [hwriter] at hx) hs.queued
  | app aop =>
    have hdata := hg aop rfl
    cases app_cases h with
    | wrote hw =>
      refine ⟨nofun, nofun, hi.fins.append (.of_not_mem ?_)⟩
      simpa using (hi.offers hdata hw).symm
    | writeClosed => exact hi.quiet nofun nofun rfl
    | writeFull hw =>
      refine ⟨fun x hx => ?_, nofun, hi.fins.append (.of_not_mem List.not_mem_nil)⟩
      obtain rfl := Option.some.inj hx
      exact hi.offers hdata hw
    | wakeToken hw hp =>
      refine ⟨nofun, fun x hx => ?_, hi.fins.append (.of_not_mem List.not_mem_nil)⟩
      obtain rfl := Writer.retry.inj hx
      exact hi.parked _ hp
    | wakeClosed | wakeWait => exact hi.quiet (fun _ => id) nofun rfl
    | shutdown => exact ⟨hi.parked, hi.retry, hi.fins.append .shutdown⟩
    | read | readPending | flush | shutdownLost | dropRecv | dropSend | dropWake =>
      exact hi.quiet (fun _ => id) (fun _ => id) rfl

end Bridge

/-! ## The client -/

namespace Client

def WritesData (s : Client) : ClientEvent → Prop
  | .app op => s.bridge.WritesData op
  | _ => True

instance WritesData.decidable (s : Client) : ∀ e, Decidable (s.WritesData e)
  | .app op => inferInstanceAs (Decidable (s.bridge.WritesData op))
  | .stream _ _ _ | .loop _ _ _ | .resume _ | .loopReturn => .isTrue trivial

/-- Every call with `set_fin = 1` comes after a shutdown, and hands over the end of what was written
before it. -/
def OnlyShutdownEnds (tr : List ClientObs) : Prop :=
  ∀ before after cnx sid data ret, tr = before ++ .add cnx sid data 1 ret :: after →
    ShutdownAfter (handed before).flatten (bridgeTrace before)

theorem finInv_run {es : List ClientEvent} {s : Client} {tr : List ClientObs}
    (hr : machine.run init es = some (s, tr)) (hg : machine.Along WritesData init es) :
    s.bridge.FinInv (bridgeTrace tr) := by
  refine Machine.run_trace (fun (s : Client) tr => s.bridge.FinInv (bridgeTrace tr)) ?_ hr hg .new
  intro s tr e s' out hi hk hs
  rw [bridgeTrace_append]
  obtain ⟨hb, ht, -⟩ | ⟨op, hc, hop⟩ := (step_cases hs).bridge_op
  · rw [ht, List.append_nil, hb]
    exact hi
  · refine hi.step (fun aop haop => ?_) hop
    subst haop
    have he : e = .app aop := hc
    rw [he] at hk
    exact hk

/-- A call with `set_fin = 1` is for the first of the entries that wait, and that is a marker. -/
theorem Step.fin {s s' : Client} {e : ClientEvent} {out₁ out₂ : List ClientObs} {cnx : CnxPtr}
    {sid : UInt64} {data : Bytes} {ret : ℤ} (hk : s.KeepsOrder e)
    (h : Step s e s' (out₁ ++ .add cnx sid data 1 ret :: out₂)) :
    ∃ rest, s.unsent = [] :: rest ∧ calls out₁ = [] := by
  have hmem : (⟨cnx, sid, data, 1, ret⟩ : AddToStream) ∈
      adds (out₁ ++ .add cnx sid data 1 ret :: out₂) := by simp
  obtain rfl := finOf_eq_one.mp (h.setFin _ hmem).symm
  have hcall := @List.mem_map_of_mem _ _ _ _ AddToStream.entry hmem
  obtain ⟨hc, -⟩ | ⟨v, rest, ok, hc, -, hu, -⟩ := h.sends hk
  · simp at hc
  · rw [← calls, hc, List.mem_singleton] at hcall
    obtain rfl : [] = v := congrArg Prod.fst hcall
    refine ⟨rest, hu, ?_⟩
    cases hc₁ : calls out₁ with
    | nil => rfl
    | cons c cs => simp [hc₁] at hc

/-- If no write is empty and every call returns 0, only a shutdown ends the client's stream. -/
theorem onlyShutdownEnds_run {es : List ClientEvent} {s : Client} {tr : List ClientObs}
    (hr : machine.run init es = some (s, tr))
    (hg : machine.Along (fun s e => e.RetZero ∧ s.WritesData e) init es) : OnlyShutdownEnds tr := by
  rintro before after cnx sid data ret rfl
  obtain ⟨es₁, e, es₂, m, u, m', out₁, out₂, rfl, hm, hs, rfl⟩ := Machine.step_of_split hr
  obtain ⟨hg₁, hk⟩ := hg.append hm
  have hi := granted_run hm (hg₁.mono fun _ _ h => h.1) .init
  obtain ⟨rest, hu, hc⟩ := (step_cases hs).fin (keepsOrder_of_retZero hi.peek hk.head.1)
  have hq := hi.enqueued
  rw [hu] at hq
  have hhanded : handed (u ++ out₁) = handed u := by
    rw [handed_append, handed, handed, hc, handedOver_nil, List.append_nil]
  rw [hhanded, bridgeTrace_append]
  exact (finInv_run hm (hg₁.mono fun _ _ h => h.2)).fins.after hq

end Client

/-! ## The server -/

namespace Server

def WritesData (s : Server) : ServerEvent → Prop
  | .app i op => (s.stream i).WritesData op
  | _ => True

instance WritesData.decidable (s : Server) : ∀ e, Decidable (s.WritesData e)
  | .app i op => inferInstanceAs (Decidable ((s.stream i).WritesData op))
  | .accept | .stream _ | .loop _ _ _ | .resume _ => .isTrue trivial

def OnlyShutdownEnds (tr : List ServerObs) : Prop :=
  ∀ before after j cnx sid data ret, tr = before ++ .add j cnx sid data 1 ret :: after →
    ShutdownAfter (handedOver (calls j before)).flatten (bridgeTrace j before)

theorem finInv_run {es : List ServerEvent} {s : Server} {tr : List ServerObs}
    (hr : machine.run init es = some (s, tr)) (hg : machine.Along WritesData init es) (j : ℕ) :
    (s.stream j).FinInv (bridgeTrace j tr) := by
  refine Machine.run_trace (fun (s : Server) tr => (s.stream j).FinInv (bridgeTrace j tr)) ?_ hr hg
    .new
  intro s tr e s' out hi hk hs
  rw [bridgeTrace_append]
  obtain ⟨hb, ht⟩ | ⟨op, hc, hop⟩ := (step_cases hs).bridge_op j
  · rw [ht, List.append_nil, hb]
    exact hi
  · refine hi.step (fun aop haop => ?_) hop
    subst haop
    have he : e = .app j aop := hc
    rw [he] at hk
    exact hk

/-- A call with `set_fin = 1` is for the first entry of the queue, and that is a marker. -/
theorem Step.fin {s s' : Server} {e : ServerEvent} {out₁ out₂ : List ServerObs} {j : ℕ}
    {cnx : CnxPtr} {sid : UInt64} {data : Bytes} {ret : ℤ}
    (h : Step s e s' (out₁ ++ .add j cnx sid data 1 ret :: out₂)) :
    ∃ rest, (s.stream j).sendQ.buf = [] :: rest ∧ calls j out₁ = [] := by
  have hmem : (⟨cnx, sid, data, 1, ret⟩ : AddToStream) ∈
      adds j (out₁ ++ .add j cnx sid data 1 ret :: out₂) := by simp
  obtain rfl := finOf_eq_one.mp (h.setFin _ hmem).symm
  have hcall := @List.mem_map_of_mem _ _ _ _ AddToStream.entry hmem
  obtain ⟨ret', v, -, hh, hc⟩ | ⟨hc, -⟩ := h.calls_iff j
  · rw [← calls, hc, List.mem_singleton] at hcall
    obtain rfl : [] = v := congrArg Prod.fst hcall
    have hp := h.popped j
    rw [hc, List.map_singleton] at hp
    obtain ⟨-, ht⟩ | ⟨op, hop⟩ := h.bridge j
    · rw [ht] at hp
      cases hp
    · have hsend := (Bridge.step_conserves hop).send
      rw [hp] at hsend
      cases hb : (s.stream j).sendQ.buf with
      | nil => exact absurd hb hh.2.2
      | cons w rest =>
        rw [hb] at hsend
        refine ⟨rest, by rw [(List.cons.inj hsend).1], ?_⟩
        cases hc₁ : calls j out₁ with
        | nil => rfl
        | cons c cs => simp [hc₁] at hc
  · simp at hc

theorem onlyShutdownEnds_run {es : List ServerEvent} {s : Server} {tr : List ServerObs}
    (hr : machine.run init es = some (s, tr))
    (hg : machine.Along (fun s e => e.RetZero ∧ s.WritesData e) init es) : OnlyShutdownEnds tr := by
  rintro before after j cnx sid data ret rfl
  obtain ⟨es₁, e, es₂, m, u, m', out₁, out₂, rfl, hm, hs, rfl⟩ := Machine.step_of_split hr
  have hg₁ := (hg.append hm).1
  obtain ⟨rest, hb, hc⟩ := (step_cases hs).fin
  have hq := (ledger_run hm j).send
  rw [hb, ← handed_run hm (hg₁.mono fun _ _ h => retZeroFor_of_retZero h.1 j)] at hq
  rw [calls_append, hc, List.append_nil, bridgeTrace_append]
  exact (finInv_run hm (hg₁.mono fun _ _ h => h.2) j).fins.after hq

end Server

/-! ## Both sides -/

/-- In every run in which no write without data finds its half free, only shutdown ends a stream, on
the client and on the server. -/
theorem only_shutdown_ends (cs : List ClientEvent) (es : List ServerEvent) :
    (∀ {s tr}, Client.machine.run Client.init cs = some (s, tr) →
      Client.machine.Along (fun s e => e.RetZero ∧ s.WritesData e) Client.init cs →
      Client.OnlyShutdownEnds tr) ∧
    (∀ {s tr}, Server.machine.run Server.init es = some (s, tr) →
      Server.machine.Along (fun s e => e.RetZero ∧ s.WritesData e) Server.init es →
      Server.OnlyShutdownEnds tr) :=
  ⟨Client.onlyShutdownEnds_run, Server.onlyShutdownEnds_run⟩

def clientShutdown : List ClientEvent :=
  [.stream ⟨1, 0, none, .ready⟩ 0 0, .app (.pollWrite [1, 2]), .loop 5 .null 0, .resume 0,
    .app .pollShutdown, .loop 3 .null 0, .resume 0, .resume 0]

def serverShutdown : List ServerEvent :=
  [.stream ⟨1, 0, none, .ready⟩, .stream ⟨1, 4, none, .streamData⟩, .accept,
    .app 0 (.pollWrite [1, 2]), .app 0 .pollShutdown, .loop 3 .null [1], .resume 0, .resume 0,
    .resume 0]

theorem only_shutdown_ends_shutdown :
    (∃ s tr, Client.machine.run Client.init clientShutdown = some (s, tr) ∧
      .add 1 0 [] 1 0 ∈ tr ∧ Client.OnlyShutdownEnds tr) ∧
    ∃ s tr, Server.machine.run Server.init serverShutdown = some (s, tr) ∧
      .add 0 1 4 [] 1 0 ∈ tr ∧ Server.OnlyShutdownEnds tr := by
  obtain ⟨hclient, hserver⟩ := only_shutdown_ends clientShutdown serverShutdown
  exact ⟨⟨_, _, rfl, by decide, hclient rfl (by decide)⟩,
    _, _, rfl, by decide, hserver rfl (by decide)⟩

def clientEmptyWrite : List ClientEvent :=
  [.stream ⟨1, 0, none, .ready⟩ 0 0, .app (.pollWrite []), .loop 5 .null 0, .resume 0,
    .loop 3 .null 0]

def serverEmptyWrite : List ServerEvent :=
  [.stream ⟨1, 0, none, .ready⟩, .stream ⟨1, 4, none, .streamData⟩, .accept,
    .app 0 (.pollWrite []), .loop 3 .null [1], .resume 0]

theorem emptyWrite_ends_stream :
    (∃ s tr, Client.machine.run Client.init clientEmptyWrite = some (s, tr) ∧
      Client.machine.Along (fun _ e => e.RetZero) Client.init clientEmptyWrite ∧
      ¬ Client.OnlyShutdownEnds tr) ∧
    ∃ s tr, Server.machine.run Server.init serverEmptyWrite = some (s, tr) ∧
      Server.machine.Along (fun _ e => e.RetZero) Server.init serverEmptyWrite ∧
      ¬ Server.OnlyShutdownEnds tr := by
  constructor
  · refine ⟨_, _, rfl, by decide, fun h => ?_⟩
    have hfin := h [.callback ⟨1, 0, none, .ready⟩, .readySent, .returned 0, .bridge (.queued []),
      .bridge (.wrote 0), .bridge (.popped []), .returned 0, .unpeeked []] [] 1 0 [] 0 rfl
    exact absurd hfin.mem (by decide)
  · refine ⟨_, _, rfl, by decide, fun h => ?_⟩
    have hfin := h [.callback ⟨1, 0, none, .ready⟩ none, .returned 0,
      .callback ⟨1, 4, none, .streamData⟩ (some 0), .accepted 1 0, .returned 0,
      .bridge 0 (.queued []), .bridge 0 (.wrote 0), .bridge 0 (.popped [])] [] 0 1 4 [] 0 rfl
    exact absurd hfin.mem (by decide)

end TransportProxy.Slipstream
