import TransportProxy.Bridge.Halves

/-! # Roundtrips on a persistent KCP pair

`kcp_deepseek_persistent_roundtrip`, `ys_kcp_persistent_roundtrip` and `kcprs_persistent_roundtrip`
(`benches/`) send a payload from one endpoint, let the other one echo what it receives, and return
with the first piece that comes back. A KCP connection is a byte stream in each direction: what was
sent and not received yet, of which a `recv` returns a front part of any length. When the datagrams
arrive is then a matter of which `recv` succeeds, and with how much.

The pair outlives a call, and so do the bytes that a call leaves in the streams.
-/
namespace TransportProxy.Bench
open Foundations Slipstream
set_option autoImplicit false

abbrev kcpUdpMaxIter : ℕ := 2000

/-- Where a call stands. -/
inductive RoundtripPc where
  | idle
  /-- in an iteration of the loop, at `kcp_b.recv` -/
  | serverRecv (payload : Bytes) (iter : ℕ)
  /-- at `kcp_a.recv` -/
  | clientRecv (payload : Bytes) (iter : ℕ)
  deriving DecidableEq, Repr

/-- The two endpoints, by what is on its way between them. -/
structure KcpPair where
  toServer : Bytes
  toClient : Bytes
  pc : RoundtripPc
  deriving DecidableEq, Repr

inductive RoundtripEvent where
  /-- a call, and whether its `kcp_a.send(payload)` succeeds -/
  | call (payload : Bytes) (sent : Bool)
  /-- the result of the `recv` at which the call stands; `none` is an error -/
  | recv (r : Option ℕ)
  /-- one of the operations with a `?` in the loop fails -/
  | fail
  deriving DecidableEq, Repr

inductive RoundtripObs where
  /-- `Ok(n)` with the `n` bytes received, for a call with this payload -/
  | returned (payload data : Bytes)
  /-- `Ok(0)` after the last iteration -/
  | timedOut
  | failed
  deriving DecidableEq, Repr

namespace KcpPair

def init : KcpPair := ⟨[], [], .idle⟩

/-- `let mut buf = vec![0u8; payload.len() + 2048]` -/
def bufLen (payload : Bytes) : ℕ := payload.length + 2048

/-- The end of an iteration without an echo. -/
def nextIter (s : KcpPair) (payload : Bytes) (iter : ℕ) : KcpPair × List RoundtripObs :=
  if iter + 1 < kcpUdpMaxIter then ({ s with pc := .serverRecv payload (iter + 1) }, [])
  else ({ s with pc := .idle }, [.timedOut])

/-- A call up to its loop. -/
def call (s : KcpPair) (payload : Bytes) (sent : Bool) : KcpPair × List RoundtripObs :=
  if sent then ({ s with toServer := s.toServer ++ payload, pc := .serverRecv payload 0 }, [])
  else (s, [.failed])

/-- `kcp_b.recv(&mut buf)`, and the echo of what it returns. -/
def serverRecv (s : KcpPair) (payload : Bytes) (iter : ℕ) : Option ℕ → Option KcpPair
  | none => some { s with pc := .clientRecv payload iter }
  | some n =>
    if n ≤ s.toServer.length ∧ n ≤ bufLen payload then
      some
        { toServer := s.toServer.drop n
          toClient := s.toClient ++ s.toServer.take n
          pc := .clientRecv payload iter }
    else none

/-- `kcp_a.recv(&mut buf)`, which ends the call if it succeeds; `checksLen` if the call looks at
`n > 0` as well. -/
def clientRecv (checksLen : Bool) (s : KcpPair) (payload : Bytes) (iter : ℕ) :
    Option ℕ → Option (KcpPair × List RoundtripObs)
  | none => some (s.nextIter payload iter)
  | some n =>
    if n ≤ s.toClient.length ∧ n ≤ bufLen payload then
      if checksLen = true ∧ n = 0 then some (s.nextIter payload iter)
      else some ({ s with toClient := s.toClient.drop n, pc := .idle },
        [.returned payload (s.toClient.take n)])
    else none

def step (checksLen : Bool) (s : KcpPair) :
    RoundtripEvent → Option (KcpPair × List RoundtripObs)
  | .call payload sent => if s.pc = .idle then some (s.call payload sent) else none
  | .recv r =>
    match s.pc with
    | .idle => none
    | .serverRecv payload iter => (s.serverRecv payload iter r).map fun s => (s, [])
    | .clientRecv payload iter => s.clientRecv checksLen payload iter r
  | .fail =>
    match s.pc with
    | .serverRecv _ _ => some ({ s with pc := .idle }, [.failed])
    | _ => none

end KcpPair

/-- Calls of one of the three functions, one after the other, on one pair. -/
def persistentRoundtrip (checksLen : Bool) : Machine KcpPair RoundtripEvent RoundtripObs :=
  ⟨KcpPair.step checksLen⟩

def kcpDeepseekPersistentRoundtrip : Machine KcpPair RoundtripEvent RoundtripObs :=
  persistentRoundtrip false

def ysKcpPersistentRoundtrip : Machine KcpPair RoundtripEvent RoundtripObs :=
  persistentRoundtrip true

def kcprsPersistentRoundtrip : Machine KcpPair RoundtripEvent RoundtripObs :=
  persistentRoundtrip false

namespace KcpPair

/-- The bytes that the client is still to receive: those echoed, and then those to be echoed. -/
def outstanding (s : KcpPair) : Bytes := s.toClient ++ s.toServer

/-- A call that is counted as a success has received the echo of its payload, and all of it. -/
def Whole (M : Machine KcpPair RoundtripEvent RoundtripObs) (s : KcpPair) (e : RoundtripEvent) :
    Prop :=
  ∀ s' out payload data, M.step s e = some (s', out) → .returned payload data ∈ out → data ≠ [] →
    data = payload ∧ s'.outstanding = []

/-- When the client receives something, no bytes but those of this call are outstanding, and it
receives all of them in one piece. -/
def OnePiece (s : KcpPair) (e : RoundtripEvent) : Prop :=
  match s.pc, e with
  | .clientRecv payload _, .recv (some n) =>
    0 < n → s.outstanding.length = payload.length ∧ n = payload.length
  | _, _ => True

instance OnePiece.decidable : ∀ (s : KcpPair) (e : RoundtripEvent), Decidable (s.OnePiece e)
  | ⟨_, _, .clientRecv _ _⟩, .recv (some _) => inferInstanceAs (Decidable (_ → _ ∧ _))
  | ⟨_, _, .clientRecv _ _⟩, .recv none | ⟨_, _, .clientRecv _ _⟩, .call _ _
  | ⟨_, _, .clientRecv _ _⟩, .fail | ⟨_, _, .idle⟩, _ | ⟨_, _, .serverRecv _ _⟩, _ =>
    .isTrue trivial

/-! ## What one step can do -/

inductive Step (s : KcpPair) : RoundtripEvent → KcpPair → List RoundtripObs → Prop where
  | sent {payload} (hp : s.pc = .idle) :
      Step s (.call payload true)
        { s with toServer := s.toServer ++ payload, pc := .serverRecv payload 0 } []
  | sendFailed {payload} (hp : s.pc = .idle) : Step s (.call payload false) s [.failed]
  | noData {payload iter} (hp : s.pc = .serverRecv payload iter) :
      Step s (.recv none) { s with pc := .clientRecv payload iter } []
  | echoed {payload iter n} (hp : s.pc = .serverRecv payload iter)
      (hn : n ≤ s.toServer.length) :
      Step s (.recv (some n))
        { toServer := s.toServer.drop n
          toClient := s.toClient ++ s.toServer.take n
          pc := .clientRecv payload iter } []
  | noEcho {payload iter r} (hp : s.pc = .clientRecv payload iter) (hr : r = none ∨ r = some 0) :
      Step s (.recv r) (s.nextIter payload iter).1 (s.nextIter payload iter).2
  | received {payload iter n} (hp : s.pc = .clientRecv payload iter)
      (hn : n ≤ s.toClient.length) :
      Step s (.recv (some n)) { s with toClient := s.toClient.drop n, pc := .idle }
        [.returned payload (s.toClient.take n)]
  | failed {payload iter} (hp : s.pc = .serverRecv payload iter) :
      Step s .fail { s with pc := .idle } [.failed]

theorem step_cases {checksLen : Bool} {s s' : KcpPair} {e : RoundtripEvent}
    {out : List RoundtripObs} (h : (persistentRoundtrip checksLen).step s e = some (s', out)) :
    Step s e s' out := by
  change s.step checksLen e = some (s', out) at h
  cases e with
  | call payload sent =>
    simp only [step, Option.ite_none_right_eq_some, Option.some.injEq, call] at h
    obtain ⟨hp, h⟩ := h
    cases sent with
    | true =>
      obtain ⟨rfl, rfl⟩ := Prod.mk.inj h
      exact .sent hp
    | false =>
      obtain ⟨rfl, rfl⟩ := Prod.mk.inj h
      exact .sendFailed hp
  | recv r =>
    cases hp : s.pc with
    | idle => simp [step, hp] at h
    | serverRecv payload iter =>
      simp only [step, hp, Option.map_eq_some_iff, Prod.mk.injEq] at h
      obtain ⟨s₁, h, rfl, rfl⟩ := h
      cases r with
      | none =>
        obtain rfl := Option.some.inj h
        exact .noData hp
      | some n =>
        simp only [serverRecv, Option.ite_none_right_eq_some, Option.some.injEq] at h
        obtain ⟨⟨hn, -⟩, rfl⟩ := h
        exact .echoed hp hn
    | clientRecv payload iter =>
      simp only [step, hp] at h
      cases r with
      | none =>
        have hs := Step.noEcho hp (.inl rfl)
        rwa [Option.some.inj h] at hs
      | some n =>
        simp only [clientRecv, Option.ite_none_right_eq_some] at h
        obtain ⟨⟨hn, -⟩, h⟩ := h
        by_cases h0 : checksLen = true ∧ n = 0
        · rw [if_pos h0] at h
          have hs := Step.noEcho hp (r := some n) (.inr (by rw [h0.2]))
          rwa [Option.some.inj h] at hs
        · rw [if_neg h0, Option.some.injEq, Prod.mk.injEq] at h
          obtain ⟨rfl, rfl⟩ := h
          exact .received hp hn
  | fail =>
    cases hp : s.pc with
    | serverRecv payload iter =>
      simp only [step, hp, Option.some.injEq, Prod.mk.injEq] at h
      obtain ⟨rfl, rfl⟩ := h
      exact .failed hp
    | idle | clientRecv => simp [step, hp] at h

/-! ## The bytes of a call come last -/

end KcpPair

def RoundtripPc.payload? : RoundtripPc → Option Bytes
  | .idle => none
  | .serverRecv payload _ | .clientRecv payload _ => some payload

namespace KcpPair

/-- The outstanding bytes end with those of the call in progress; before them is what earlier calls
have left. -/
def EndsWithCall (s : KcpPair) : Prop :=
  ∀ payload, s.pc.payload? = some payload → payload <:+ s.outstanding

theorem Step.endsWithCall {s s' : KcpPair} {e : RoundtripEvent} {out : List RoundtripObs}
    (h : Step s e s' out) (hi : s.EndsWithCall) : s'.EndsWithCall := by
  intro payload hpay
  cases h with
  | sent =>
    obtain rfl := Option.some.inj hpay
    exact ⟨s.outstanding, by simp [outstanding]⟩
  | sendFailed => exact hi payload hpay
  | noData hp => exact hi payload (by rw [hp]; exact hpay)
  | @echoed _ _ n hp =>
    have hkeep : s.toClient ++ s.toServer.take n ++ s.toServer.drop n = s.outstanding := by
      rw [List.append_assoc, List.take_append_drop]
      rfl
    have hsuf := hi payload (by rw [hp]; exact hpay)
    rwa [← hkeep] at hsuf
  | @noEcho _ iter _ hp =>
    unfold nextIter at hpay ⊢
    by_cases hlt : iter + 1 < kcpUdpMaxIter
    · rw [if_pos hlt] at hpay ⊢
      exact hi payload (by rw [hp]; exact hpay)
    · rw [if_neg hlt] at hpay
      cases hpay
  | received | failed => cases hpay

/-- A piece of a stream that ends with `payload` is `payload` and leaves nothing behind exactly if
there is nothing else in the stream and the piece is as long. -/
theorem piece_iff {payload front back : Bytes} {n : ℕ} (hsuf : payload <:+ front ++ back)
    (hn : n ≤ front.length) :
    (front.take n = payload ∧ front.drop n ++ back = []) ↔
      (front ++ back).length = payload.length ∧ n = payload.length := by
  constructor
  · rintro ⟨rfl, hrest⟩
    have hlen := congrArg List.length hrest
    simp only [List.length_append, List.length_drop, List.length_nil, List.length_take] at hlen ⊢
    omega
  · rintro ⟨hlen, rfl⟩
    have hall := hsuf.eq_of_length hlen.symm
    rw [List.length_append] at hlen
    have hback : back = [] := List.eq_nil_of_length_eq_zero (by omega)
    subst hback
    rw [List.append_nil] at hall
    simp [hall]

/-- A call that is counted is a whole roundtrip exactly if it receives what is outstanding in one
piece. -/
theorem whole_iff {checksLen : Bool} {s s' : KcpPair} {e : RoundtripEvent}
    {out : List RoundtripObs} (hs : (persistentRoundtrip checksLen).step s e = some (s', out))
    (hi : s.EndsWithCall) : s.Whole (persistentRoundtrip checksLen) e ↔ s.OnePiece e := by
  have hquiet : (∀ payload data, .returned payload data ∉ out) →
      s.Whole (persistentRoundtrip checksLen) e := by
    intro hn s₁ out₁ payload data hs₁ hm
    obtain ⟨-, rfl⟩ := Prod.mk.inj (Option.some.inj (hs.symm.trans hs₁))
    exact absurd hm (hn payload data)
  cases step_cases hs with
  | sent hp | sendFailed hp | noData hp | echoed hp | failed hp =>
    simp only [OnePiece, hp, iff_true]
    exact hquiet (by simp)
  | @noEcho payload iter r hp hr =>
    have hone : s.OnePiece (.recv r) := by
      obtain rfl | rfl := hr <;> simp [OnePiece, hp]
    refine iff_of_true (hquiet ?_) hone
    unfold nextIter
    split <;> simp
  | @received payload iter n hp hn =>
    have hpiece := piece_iff (hi payload (by rw [hp]; rfl)) hn
    have hdata : s.toClient.take n ≠ [] ↔ 0 < n := by
      rw [← List.length_pos_iff, List.length_take]
      omega
    simp only [OnePiece, hp]
    rw [← hdata]
    constructor
    · intro hw hd
      exact hpiece.mp (hw _ _ payload _ hs (List.mem_singleton_self _) hd)
    · intro h1 s₁ out₁ payload₁ data hs₁ hm hd
      obtain ⟨rfl, rfl⟩ := Prod.mk.inj (Option.some.inj (hs.symm.trans hs₁))
      obtain ⟨rfl, rfl⟩ := RoundtripObs.returned.inj (List.mem_singleton.mp hm)
      exact hpiece.mpr (h1 hd)

theorem whole_run {checksLen : Bool} {es : List RoundtripEvent} {s : KcpPair}
    {tr : List RoundtripObs} (hr : (persistentRoundtrip checksLen).run init es = some (s, tr)) :
    (persistentRoundtrip checksLen).Along (Whole (persistentRoundtrip checksLen)) init es ↔
      (persistentRoundtrip checksLen).Along OnePiece init es :=
  Machine.Along.congr EndsWithCall (fun _ _ _ _ hi hs => (step_cases hs).endsWithCall hi)
    (fun _ _ _ _ hi hs => whole_iff hs hi) hr nofun

/-- On each of the three pairs every counted call of a run is a whole roundtrip if and only if every
call that receives something finds nothing of earlier calls in the streams and receives its echo in
one piece. -/
theorem counted_roundtrips_whole_iff (es : List RoundtripEvent) :
    (∀ {s tr}, kcpDeepseekPersistentRoundtrip.run init es = some (s, tr) →
      (kcpDeepseekPersistentRoundtrip.Along (Whole kcpDeepseekPersistentRoundtrip) init es ↔
        kcpDeepseekPersistentRoundtrip.Along OnePiece init es)) ∧
    (∀ {s tr}, ysKcpPersistentRoundtrip.run init es = some (s, tr) →
      (ysKcpPersistentRoundtrip.Along (Whole ysKcpPersistentRoundtrip) init es ↔
        ysKcpPersistentRoundtrip.Along OnePiece init es)) ∧
    ∀ {s tr}, kcprsPersistentRoundtrip.run init es = some (s, tr) →
      (kcprsPersistentRoundtrip.Along (Whole kcprsPersistentRoundtrip) init es ↔
        kcprsPersistentRoundtrip.Along OnePiece init es) :=
  ⟨whole_run, whole_run, whole_run⟩

/-- The echo of the first call comes back in one piece although the server receives it in two, and a
second call follows. -/
def twoCalls : List RoundtripEvent :=
  [.call [1, 2] true, .recv none, .recv none, .recv (some 1), .recv none, .recv (some 1),
    .recv (some 2), .call [3] true, .recv (some 1), .recv (some 1)]

theorem counted_roundtrips_whole_iff_twoCalls :
    (∃ s tr, kcpDeepseekPersistentRoundtrip.run init twoCalls = some (s, tr) ∧
      tr = [.returned [1, 2] [1, 2], .returned [3] [3]] ∧
      kcpDeepseekPersistentRoundtrip.Along (Whole kcpDeepseekPersistentRoundtrip) init twoCalls) ∧
    (∃ s tr, ysKcpPersistentRoundtrip.run init twoCalls = some (s, tr) ∧
      ysKcpPersistentRoundtrip.Along (Whole ysKcpPersistentRoundtrip) init twoCalls) ∧
    ∃ s tr, kcprsPersistentRoundtrip.run init twoCalls = some (s, tr) ∧
      kcprsPersistentRoundtrip.Along (Whole kcprsPersistentRoundtrip) init twoCalls := by
  obtain ⟨hdeepseek, hys, hkcprs⟩ := counted_roundtrips_whole_iff twoCalls
  exact ⟨⟨_, _, rfl, rfl, (hdeepseek rfl).mpr (by decide)⟩,
    ⟨_, _, rfl, (hys rfl).mpr (by decide)⟩, _, _, rfl, (hkcprs rfl).mpr (by decide)⟩

/-- The server echoes the payload in one go, and its first `n` bytes come back first. -/
def firstPiece (payload : Bytes) (n : ℕ) : List RoundtripEvent :=
  [.call payload true, .recv (some payload.length), .recv (some n)]

theorem firstPiece_not_whole (checksLen : Bool) {payload : Bytes} {n : ℕ} (h0 : 0 < n)
    (hn : n < payload.length) :
    ∃ s, (persistentRoundtrip checksLen).run init (firstPiece payload n) =
        some (s, [.returned payload (payload.take n)]) ∧ s.outstanding = payload.drop n ∧
      ¬ (persistentRoundtrip checksLen).Along (Whole (persistentRoundtrip checksLen)) init
        (firstPiece payload n) := by
  have hsum : n ≤ payload.length + 2048 := by omega
  have hne : n ≠ 0 := by omega
  have hr : (persistentRoundtrip checksLen).run init (firstPiece payload n) =
      some (⟨[], payload.drop n, .idle⟩, [.returned payload (payload.take n)]) := by
    simp [firstPiece, Machine.run, persistentRoundtrip, step, call, serverRecv, clientRecv, init,
      bufLen, hn.le, hsum, hne]
  refine ⟨_, hr, by simp [outstanding], fun hw => ?_⟩
  have hone := (whole_run hr).mp hw
  simp [firstPiece, Machine.Along, persistentRoundtrip, step, call, serverRecv, init, bufLen,
    OnePiece, h0] at hone
  omega

/-- 4096 bytes are several segments, and the first of them to come back ends the call. -/
theorem firstSegment_counted :
    (∃ s tr, kcpDeepseekPersistentRoundtrip.run init
        (firstPiece (List.replicate 4096 0xAB) 1376) = some (s, tr) ∧
      s.outstanding = List.replicate 2720 0xAB ∧
      ¬ kcpDeepseekPersistentRoundtrip.Along (Whole kcpDeepseekPersistentRoundtrip) init
        (firstPiece (List.replicate 4096 0xAB) 1376)) ∧
    ∃ s tr, ysKcpPersistentRoundtrip.run init
        (firstPiece (List.replicate 4096 0xAB) 1372) = some (s, tr) ∧
      s.outstanding = List.replicate 2724 0xAB ∧
      ¬ ysKcpPersistentRoundtrip.Along (Whole ysKcpPersistentRoundtrip) init
        (firstPiece (List.replicate 4096 0xAB) 1372) := by
  constructor
  · have hlen : 1376 < (List.replicate 4096 (0xAB : UInt8)).length := by
      rw [List.length_replicate]
      omega
    obtain ⟨s, hr, ho, hn⟩ := firstPiece_not_whole false (by omega) hlen
    exact ⟨s, _, hr, by rw [ho, List.drop_replicate], hn⟩
  · have hlen : 1372 < (List.replicate 4096 (0xAB : UInt8)).length := by
      rw [List.length_replicate]
      omega
    obtain ⟨s, hr, ho, hn⟩ := firstPiece_not_whole true (by omega) hlen
    exact ⟨s, _, hr, by rw [ho, List.drop_replicate], hn⟩

end KcpPair

end TransportProxy.Bench
