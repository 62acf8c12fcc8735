import TransportProxy.Bridge.Ownership

/-! # What the sending half promises its caller

`poll_shutdown` reports success whether or not the end marker found a place in the send queue, and
`poll_write` answers for the chunk that it keeps in `pending_send`, which may come from an earlier
call that was given up. Both keep their promise exactly as long as the caller is lucky: there is
room for the marker, and the buffer begins with the kept chunk.
-/
namespace TransportProxy.Slipstream
open Foundations
set_option autoImplicit false

@[simp] def BridgeObs.wrote? : BridgeObs → Option ℕ
  | .wrote n => some n
  | _ => none

/-- The results of the `poll_write` calls that returned `Ready(Ok)`. -/
def wrote (tr : List BridgeObs) : List ℕ := tr.filterMap BridgeObs.wrote?

@[simp] theorem wrote_nil : wrote [] = [] := rfl

@[simp] theorem wrote_cons (o : BridgeObs) (t : List BridgeObs) :
    wrote (o :: t) = o.wrote?.toList ++ wrote t := filterMap_cons_toList ..

namespace Bridge

/-! ## `poll_shutdown` -/

/-- A `poll_shutdown` after the trace `tr`: with success and a live packet loop the marker is in the
send queue, behind all that was accepted before; and a marker that was not enqueued is no success. -/
structure ShutdownIsFin (b b' : Bridge) (tr out : List BridgeObs) : Prop where
  marker : .shutdown ∈ out → b.sendQ.receiver = true →
    ∃ front, b'.sendQ.buf = front ++ [[]] ∧ queued tr = popped tr ++ front
  refused : queued out = [] → .shutdown ∉ out

/-- A shutdown is a FIN if and only if the packet loop is there and the queue has room. -/
theorem shutdown_is_fin_iff {ops : List BridgeOp} {b b' : Bridge} {tr out : List BridgeObs}
    (hr : machine.run new ops = some (b, tr))
    (hs : machine.step b (.app .pollShutdown) = some (b', out)) :
    ShutdownIsFin b b' tr out ↔ b.sendQ.receiver = true ∧ b.sendQ.buf.length < sendCapacity := by
  have hc : AppStep b .pollShutdown b' out := app_cases hs
  constructor
  · intro hfin
    cases hc with
    | shutdown ho hw hrecv hb => exact ⟨hrecv, hb⟩
    | shutdownLost => exact absurd (List.mem_singleton_self _) (hfin.refused rfl)
    | wrote hw | writeClosed hw | writeFull hw => obtain ⟨_, h, -⟩ | ⟨h, -⟩ := hw <;> cases h
  · rintro ⟨hrecv, hb⟩
    cases hc with
    | shutdown => exact ⟨fun _ _ => ⟨b.sendQ.buf, rfl, (ledger_run hr).send⟩, by simp⟩
    | shutdownLost ho hw hlost =>
      obtain hlost | hfull := hlost
      · rw [hrecv] at hlost
        cases hlost
      · omega
    | wrote hw | writeClosed hw | writeFull hw => obtain ⟨_, h, -⟩ | ⟨h, -⟩ := hw <;> cases h

theorem shutdown_is_fin_iff_oneChunk : ∃ b tr b' out,
    machine.run new [.app (.pollWrite [1, 2])] = some (b, tr) ∧
      machine.step b (.app .pollShutdown) = some (b', out) ∧ ShutdownIsFin b b' tr out :=
  ⟨_, _, _, _, rfl, rfl,
    (@shutdown_is_fin_iff [.app (.pollWrite [1, 2])] _ _ _ _ rfl rfl).mpr ⟨rfl, by decide⟩⟩

/-! A send queue that nobody drains. -/

section Undrained

/-- `k` chunks were written, and nothing was drained. -/
structure Undrained (k : ℕ) (b : Bridge) : Prop where
  owner : b.owner = .held
  writer : b.writer = .idle
  half : b.sendHalf = ⟨none⟩
  receiver : b.sendQ.receiver = true
  length : b.sendQ.buf.length = k
  tokens : b.wakeQ.buf = []
  sender : b.wakeQ.sender = true

theorem Undrained.write {k : ℕ} {b : Bridge} (h : Undrained k b) (hk : k < sendCapacity) :
    ∃ b' out, machine.step b (.app (.pollWrite [0])) = some (b', out) ∧ Undrained (k + 1) b' := by
  have hb : b.sendQ.buf.length < sendCapacity := by rwa [h.length]
  have hs : machine.step b (.app (.pollWrite [0])) = some (b.writeTrySend ([0], 1)) := by
    simp [machine, step, app, h.owner, h.writer, Writer.returned, pollWrite, h.half]
  rw [writeTrySend, Channel.trySend_of_room _ h.receiver hb] at hs
  refine ⟨_, _, hs, h.owner, rfl, rfl, h.receiver, ?_, h.tokens, h.sender⟩
  simp [h.length]

theorem undrained_run : ∃ b tr, machine.run new
    (List.replicate sendCapacity (.app (.pollWrite [0]))) = some (b, tr) ∧
      Undrained sendCapacity b :=
  machine.run_replicate (fun k b _ => Undrained k b) (by constructor <;> rfl)
    fun _ _ _ hk hm => hm.write hk

theorem Undrained.full {b : Bridge} (h : Undrained sendCapacity b) (v : Bytes) :
    b.sendQ.trySend v = (.error .full, b.sendQ) := by
  obtain ⟨hr, -⟩ | ⟨-, hb, -⟩ | ⟨-, -, hq⟩ := b.sendQ.trySend_cases v
  · rw [h.receiver] at hr
    cases hr
  · rw [h.length] at hb
    exact absurd hb (Nat.lt_irrefl _)
  · exact hq

end Undrained

def fillQueue : List BridgeOp := List.replicate sendCapacity (.app (.pollWrite [0]))

/-- The queue is full: `poll_shutdown` returns `Ready(Ok)` and the marker is lost. -/
theorem fullQueue_loses_marker : ∃ b tr b' out, machine.run new fillQueue = some (b, tr) ∧
    b.sendQ.receiver = true ∧ machine.step b (.app .pollShutdown) = some (b', out) ∧
      ¬ ShutdownIsFin b b' tr out := by
  obtain ⟨b, tr, hr, h⟩ := undrained_run
  have hs : machine.step b (.app .pollShutdown) = some (b, [.shutdown]) := by
    simp [machine, step, app, h.owner, h.writer, Writer.returned, pollShutdown, h.full]
  refine ⟨b, tr, b, [.shutdown], hr, h.receiver, hs, fun hfin => ?_⟩
  exact hfin.refused rfl (List.mem_singleton_self _)

/-! ## `poll_write` -/

/-- A call of `poll_write`: the chunk that an earlier call had left in `pending_send`, and the
buffer of this one. -/
structure WriteArgs where
  parked : Option Bytes
  buf : Bytes
  deriving DecidableEq, Repr

def WriteArgs.chunk (args : WriteArgs) : Bytes := args.parked.getD args.buf

def begins (b : Bridge) : BridgeOp → Option WriteArgs
  | .app (.pollWrite buf) => some ⟨b.sendHalf.pendingSend.map Prod.fst, buf⟩
  | _ => none

/-- The calls of a run that returned `Ready(Ok(n))`, each with its `n`; `args` is the call in
progress when the run starts. -/
def writeCalls (b : Bridge) (args : WriteArgs) : List BridgeOp → List (WriteArgs × ℕ)
  | [] => []
  | op :: ops =>
    match machine.step b op with
    | none => []
    | some r =>
      let args := (b.begins op).getD args
      (wrote r.2).map (fun n => (args, n)) ++ writeCalls r.1 args ops

/-- The chunks that `poll_write` put into the send queue. -/
def chunks (tr : List BridgeObs) : List Bytes := (queued tr).filter (· ≠ [])

/-- Every call that returned `Ready(Ok(n))` accepted the first `n` bytes of its own buffer, and
nothing else was put into the stream. -/
structure ExactWrites (ops : List BridgeOp) (tr : List BridgeObs) : Prop where
  bound : ∀ c ∈ writeCalls new ⟨none, []⟩ ops, c.2 ≤ c.1.buf.length
  exact : chunks tr = (writeCalls new ⟨none, []⟩ ops).map fun c => c.1.buf.take c.2

/-- The chunk of the call in progress is the one that the half keeps or is about to send. -/
structure CallInv (b : Bridge) (args : WriteArgs) : Prop where
  parked : ∀ x, b.sendHalf.pendingSend = some x → x.1 ≠ [] ∧ x.2 = x.1.length
  full : b.writer = .full → ∀ x, b.sendHalf.pendingSend = some x → x.1 = args.chunk
  retry : ∀ x, b.writer = .retry x → x.1 ≠ [] ∧ x.2 = x.1.length ∧ x.1 = args.chunk

theorem CallInv.offers {b : Bridge} {args : WriteArgs} {aop : AppOp} {toSend : Bytes × ℕ}
    (hi : CallInv b args) (hne : ∀ buf, aop = .pollWrite buf → buf ≠ [])
    (hw : b.Offers aop toSend) : toSend.1 ≠ [] ∧ toSend.2 = toSend.1.length ∧
      toSend.1 = ((b.begins (.app aop)).getD args).chunk := by
  obtain ⟨buf, rfl, -, -, rfl⟩ | ⟨rfl, hw⟩ := hw
  · cases hp : b.sendHalf.pendingSend with
    | none => exact ⟨hne buf rfl, rfl, by simp [begins, WriteArgs.chunk, hp]⟩
    | some x =>
      obtain ⟨h₁, h₂⟩ := hi.parked x hp
      exact ⟨h₁, h₂, by simp [begins, WriteArgs.chunk, hp]⟩
  · exact hi.retry toSend hw

theorem CallInv.congr {b b' : Bridge} {args : WriteArgs} (hi : CallInv b args)
    (hs : b'.sendHalf = b.sendHalf) (hw : b'.writer = b.writer ∨ b'.writer.returned = true) :
    CallInv b' args := by
  refine ⟨by rw [hs]; exact hi.parked, fun hf => ?_, fun x hx => ?_⟩
  · obtain hw | hw := hw
    · rw [hs]
      exact hi.full (hw.symm.trans hf)
    · rw [hf] at hw
      cases hw
  · obtain hw | hw := hw
    · exact hi.retry x (hw.symm.trans hx)
    · rw [hx] at hw
      cases hw

/-- What a step puts into the queue for `poll_write`, it puts there for the call in progress. -/
structure Answers (args : WriteArgs) (out : List BridgeObs) : Prop where
  chunks : chunks out = (wrote out).map fun _ => args.chunk
  length : ∀ n ∈ wrote out, n = args.chunk.length

theorem Answers.of_nil {args : WriteArgs} {out : List BridgeObs} (hc : Bridge.chunks out = [])
    (hw : wrote out = []) : Answers args out := by
  refine ⟨by rw [hc, hw, List.map_nil], fun n hn => ?_⟩
  rw [hw] at hn
  cases hn

theorem LoopStep.wrote {b b' : Bridge} {op : LoopOp} {out : List BridgeObs}
    (h : LoopStep b op b' out) : Slipstream.wrote out = [] := by
  cases h <;> rfl

theorem CallInv.step {b b' : Bridge} {args : WriteArgs} {op : BridgeOp} {out : List BridgeObs}
    (hi : CallInv b args) (hne : ∀ buf, op = .app (.pollWrite buf) → buf ≠ [])
    (h : machine.step b op = some (b', out)) :
    CallInv b' ((b.begins op).getD args) ∧ Answers ((b.begins op).getD args) out := by
  cases op with
  | loop op =>
    have hs := loop_cases (Option.some.inj h)
    obtain ⟨hhalf, hwriter⟩ := hs.writer
    exact ⟨hi.congr hhalf (.inl hwriter), .of_nil (by rw [chunks, hs.queued]; rfl) hs.wrote⟩
  | app aop =>
    have hoff {toSend : Bytes × ℕ} (hw : b.Offers aop toSend) :=
      hi.offers (fun buf hop => hne buf (by rw [hop])) hw
    cases app_cases h with
    | wrote hw =>
      obtain ⟨h₁, h₂, h₃⟩ := hoff hw
      refine ⟨⟨nofun, nofun, nofun⟩, ?_, ?_⟩
      · rw [← h₃]
        simp [chunks, h₁]
      · rw [← h₃, ← h₂]
        simp
    | writeClosed hw => exact ⟨⟨nofun, nofun, nofun⟩, .of_nil rfl rfl⟩
    | writeFull hw =>
      obtain ⟨h₁, h₂, h₃⟩ := hoff hw
      refine ⟨⟨fun x hx => ?_, fun _ x hx => ?_, nofun⟩, .of_nil rfl rfl⟩
      · obtain rfl := Option.some.inj hx
        exact ⟨h₁, h₂⟩
      · obtain rfl := Option.some.inj hx
        exact h₃
    | wakeToken hw hp =>
      refine ⟨⟨nofun, nofun, fun x hx => ?_⟩, .of_nil rfl rfl⟩
      obtain rfl := Writer.retry.inj hx
      obtain ⟨h₁, h₂⟩ := hi.parked _ hp
      exact ⟨h₁, h₂, hi.full hw _ hp⟩
    | wakeClosed | wakeWait => exact ⟨hi.congr rfl (.inr rfl), .of_nil rfl rfl⟩
    | read | readPending | flush | shutdown | shutdownLost | dropRecv | dropSend | dropWake =>
      exact ⟨hi.congr rfl (.inl rfl), .of_nil rfl rfl⟩

/-- Every call that returned `Ready(Ok)` sent the kept chunk, if there was one, and its own buffer
otherwise. -/
theorem calls_run {ops : List BridgeOp} {b t : Bridge} {args : WriteArgs} {tr : List BridgeObs}
    (hr : machine.run b ops = some (t, tr)) (hi : CallInv b args)
    (hne : ∀ buf, .app (.pollWrite buf) ∈ ops → buf ≠ []) :
    chunks tr = (writeCalls b args ops).map (fun c => c.1.chunk) ∧
      ∀ c ∈ writeCalls b args ops, c.2 = c.1.chunk.length := by
  induction ops generalizing b args tr with
  | nil =>
    simp only [Machine.run_nil, Option.some.injEq, Prod.mk.injEq] at hr
    obtain ⟨-, rfl⟩ := hr
    exact ⟨rfl, nofun⟩
  | cons op ops ih =>
    obtain ⟨b', out, rest, hs, hr', rfl⟩ := (Machine.run_cons_iff ..).mp hr
    obtain ⟨hi', ha⟩ := hi.step (fun buf hop => hne buf (by rw [hop]; exact List.mem_cons_self)) hs
    obtain ⟨hc, hl⟩ := ih hr' hi' fun buf hb => hne buf (List.mem_cons_of_mem _ hb)
    simp only [writeCalls, hs, List.map_append, List.map_map, List.mem_append]
    refine ⟨?_, ?_⟩
    · rw [← hc, chunks, queued_append, List.filter_append]
      exact congrArg (· ++ chunks rest) ha.chunks
    · rintro c (hc | hc)
      · obtain ⟨n, hn, rfl⟩ := List.mem_map.mp hc
        exact ha.length n hn
      · exact hl c hc

/-- A call accepts the first bytes of its buffer if and only if these are the chunk it sends. -/
theorem exact_iff_begins (args : WriteArgs) :
    args.chunk.length ≤ args.buf.length ∧ args.chunk = args.buf.take args.chunk.length ↔
      ∀ v, args.parked = some v → v <+: args.buf := by
  cases hp : args.parked with
  | none => simp [WriteArgs.chunk, hp]
  | some v =>
    simp only [WriteArgs.chunk, hp, Option.getD_some, Option.some.injEq, forall_eq']
    rw [List.prefix_iff_eq_take]
    refine ⟨And.right, fun h => ⟨?_, h⟩⟩
    have hle := congrArg List.length h
    rw [List.length_take] at hle
    omega

theorem writeCalls_append {ops fs : List BridgeOp} {b t : Bridge} {tr : List BridgeObs}
    (hr : machine.run b ops = some (t, tr)) (args : WriteArgs) : ∃ args',
      writeCalls b args (ops ++ fs) = writeCalls b args ops ++ writeCalls t args' fs := by
  induction ops generalizing b args tr with
  | nil =>
    simp only [Machine.run_nil, Option.some.injEq, Prod.mk.injEq] at hr
    obtain ⟨rfl, -⟩ := hr
    exact ⟨args, rfl⟩
  | cons op ops ih =>
    obtain ⟨b', out, rest, hs, hr', -⟩ := (Machine.run_cons_iff ..).mp hr
    obtain ⟨args', h⟩ := ih hr' ((b.begins op).getD args)
    refine ⟨args', ?_⟩
    simp only [List.cons_append, writeCalls, hs, h, List.append_assoc]

/-- The writes that fill the queue find no chunk of an earlier call. -/
theorem Undrained.writeCalls_replicate {k n : ℕ} {b : Bridge} (h : Undrained k b)
    (hn : k + n ≤ sendCapacity) (args : WriteArgs) :
    ∀ c ∈ writeCalls b args (List.replicate n (.app (.pollWrite [0]))), c.1.parked = none := by
  induction n generalizing k b args with
  | zero => nofun
  | succ n ih =>
    obtain ⟨b', out, hs, h'⟩ := h.write (by omega)
    intro c hc
    simp only [List.replicate_succ, writeCalls, hs, List.mem_append] at hc
    obtain hc | hc := hc
    · obtain ⟨m, -, rfl⟩ := List.mem_map.mp hc
      simp [begins, h.half]
    · exact ih h' (by omega) _ c hc

/-- The queue is full and a write is parked; its caller gives up, the packet loop takes a chunk, and
`buf` is written. -/
def givenUpWrite (buf : Bytes) : List BridgeOp :=
  [.app (.pollWrite [1, 2]), .app .pollWriteWake, .loop .sendTryRecv, .app (.pollWrite buf)]

/-- The call with this buffer returns 2. -/
theorem Undrained.giveUp {b : Bridge} (h : Undrained sendCapacity b) (args : WriteArgs)
    (buf : Bytes) : ∃ t tr, machine.run b (givenUpWrite buf) = some (t, tr) ∧
      writeCalls b args (givenUpWrite buf) = [(⟨some [1, 2], buf⟩, 2)] := by
  have hw : b.wakeQ.pollRecv = (.pending, b.wakeQ.wait) := by
    simp [Channel.pollRecv, h.tokens, h.sender]
  obtain ⟨v, rest, hbuf⟩ : ∃ v rest, b.sendQ.buf = v :: rest := by
    cases hb : b.sendQ.buf with
    | nil =>
      have hl := h.length
      rw [hb] at hl
      cases hl
    | cons v rest => exact ⟨v, rest, rfl⟩
  have hroom : b.sendQ.pop.buf.length < sendCapacity := by
    have hl := h.length
    rw [hbuf, List.length_cons] at hl
    rw [Channel.pop_buf, hbuf, List.tail_cons]
    omega
  -- the four steps
  set b₁ : Bridge := { b with sendHalf := ⟨some ([1, 2], 2)⟩, writer := .full } with hb₁
  have h₁ : machine.step b (.app (.pollWrite [1, 2])) = some (b₁, []) := by
    simp [machine, Bridge.step, app, h.owner, h.writer, Writer.returned, pollWrite, writeTrySend,
      h.half, h.full, hb₁]
  set b₂ : Bridge := { b₁ with wakeQ := b.wakeQ.wait, writer := .parked } with hb₂
  have h₂ : machine.step b₁ (.app .pollWriteWake) = some (b₂, [.writePending]) := by
    simp [machine, Bridge.step, app, pollWriteWake, hw, hb₁, hb₂]
  set b₃ : Bridge := { b₂ with sendQ := b.sendQ.pop } with hb₃
  have h₃ : machine.step b₂ (.loop .sendTryRecv) = some (b₃, [.popped v]) := by
    simp [machine, Bridge.step, loop, sendTryRecv, Channel.tryRecv, hbuf, hb₁, hb₂, hb₃]
  have hpush := Channel.trySend_of_room [1, 2] (c := b.sendQ.pop) h.receiver hroom
  have h₄ : machine.step b₃ (.app (.pollWrite buf)) =
      some ({ b₃ with sendQ := b.sendQ.pop.push [1, 2] hroom, sendHalf := ⟨none⟩, writer := .idle },
        [.queued [1, 2], .wrote 2]) := by
    simp [machine, Bridge.step, app, h.owner, Writer.returned, pollWrite, writeTrySend, hpush, hb₁,
      hb₂, hb₃]
  refine ⟨_, _, machine.run_append ((Machine.run_single_iff ..).mpr h₁)
    (machine.run_append ((Machine.run_single_iff ..).mpr h₂)
      (machine.run_append ((Machine.run_single_iff ..).mpr h₃)
        ((Machine.run_single_iff ..).mpr h₄))), ?_⟩
  simp only [givenUpWrite, writeCalls, h₁, h₂, h₃, h₄]
  simp [begins, hb₁, hb₂, hb₃]

/-- The calls of such a run are those that fill the queue and the last one. -/
theorem giveUp_run (buf : Bytes) : ∃ b tr calls,
    machine.run new (fillQueue ++ givenUpWrite buf) = some (b, tr) ∧
      writeCalls new ⟨none, []⟩ (fillQueue ++ givenUpWrite buf) =
        calls ++ [(⟨some [1, 2], buf⟩, 2)] ∧ ∀ c ∈ calls, c.1.parked = none := by
  obtain ⟨b, tr, hr, h⟩ := undrained_run
  obtain ⟨args, hcalls⟩ := @writeCalls_append _ (givenUpWrite buf) _ _ _ hr ⟨none, []⟩
  obtain ⟨t, tr', hr', hlast⟩ := h.giveUp args buf
  rw [hlast] at hcalls
  refine ⟨t, _, _, machine.run_append hr hr', hcalls, ?_⟩
  exact Undrained.writeCalls_replicate (k := 0) (by constructor <;> rfl) (Nat.zero_add _).le _

/-- The writes of a run are exact if and only if every call that returned `Ready(Ok)` and found a
chunk of an earlier call was given a buffer that begins with it. -/
theorem exact_writes_iff {ops : List BridgeOp} {b : Bridge} {tr : List BridgeObs}
    (hr : machine.run new ops = some (b, tr))
    (hne : ∀ buf, .app (.pollWrite buf) ∈ ops → buf ≠ []) :
    ExactWrites ops tr ↔
      ∀ c ∈ writeCalls new ⟨none, []⟩ ops, ∀ v, c.1.parked = some v → v <+: c.1.buf := by
  obtain ⟨hc, hl⟩ := calls_run hr ⟨nofun, nofun, nofun⟩ hne
  constructor
  · rintro ⟨hbound, hexact⟩ c hm
    rw [← exact_iff_begins, ← hl c hm]
    refine ⟨hbound c hm, ?_⟩
    rw [hc, List.map_inj_left] at hexact
    exact hexact c hm
  · intro h
    have hboth := fun c hm => (exact_iff_begins c.1).mpr (h c hm)
    refine ⟨fun c hm => ?_, ?_⟩
    · rw [hl c hm]
      exact (hboth c hm).1
    · rw [hc, List.map_inj_left]
      intro c hm
      rw [hl c hm]
      exact (hboth c hm).2

/-- The same bytes and more are written again: the call sends the kept chunk and answers for it. -/
theorem exact_writes_iff_givenUpWrite : ∃ b tr,
    machine.run new (fillQueue ++ givenUpWrite [1, 2, 3]) = some (b, tr) ∧
      (⟨some [1, 2], [1, 2, 3]⟩, 2) ∈
        writeCalls new ⟨none, []⟩ (fillQueue ++ givenUpWrite [1, 2, 3]) ∧
      ExactWrites (fillQueue ++ givenUpWrite [1, 2, 3]) tr := by
  obtain ⟨b, tr, calls, hr, hcalls, hnone⟩ := giveUp_run [1, 2, 3]
  refine ⟨b, tr, hr, ?_, (exact_writes_iff hr ?_).mpr ?_⟩
  · rw [hcalls]
    exact List.mem_append_right _ (List.mem_singleton_self _)
  · intro buf hb
    simp only [fillQueue, givenUpWrite, List.mem_append, List.mem_replicate, List.mem_cons,
      BridgeOp.app.injEq, AppOp.pollWrite.injEq, reduceCtorEq, List.not_mem_nil, false_or,
      or_false] at hb
    obtain ⟨-, rfl⟩ | rfl | rfl := hb <;> simp
  · intro c hc v hv
    rw [hcalls] at hc
    obtain hc | hc := List.mem_append.mp hc
    · rw [hnone c hc] at hv
      cases hv
    · obtain rfl := List.mem_singleton.mp hc
      obtain rfl := Option.some.inj hv
      exact ⟨[3], rfl⟩

/-- Another buffer is written: the call returns 2 for a buffer of one byte. -/
theorem givenUpWrite_answers_for_another : ∃ b tr,
    machine.run new (fillQueue ++ givenUpWrite [9]) = some (b, tr) ∧
      (⟨some [1, 2], [9]⟩, 2) ∈ writeCalls new ⟨none, []⟩ (fillQueue ++ givenUpWrite [9]) ∧
      ¬ ExactWrites (fillQueue ++ givenUpWrite [9]) tr := by
  obtain ⟨b, tr, calls, hr, hcalls, -⟩ := giveUp_run [9]
  have hmem : (⟨some [1, 2], [9]⟩, 2) ∈
      writeCalls new ⟨none, []⟩ (fillQueue ++ givenUpWrite [9]) := by
    rw [hcalls]
    exact List.mem_append_right _ (List.mem_singleton_self _)
  refine ⟨b, tr, hr, hmem, fun hx => ?_⟩
  exact absurd (hx.bound _ hmem) (by decide)

end Bridge
end TransportProxy.Slipstream
