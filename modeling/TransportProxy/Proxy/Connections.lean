import TransportProxy.Duplex.Connections
import TransportProxy.Proxy.Direct
import Mathlib.Data.Fintype.Basic

/-! # Many proxied connections of one server

Every client of `client.rs` relays a TCP stream to its connection, and a handler of the server
relays that to an upstream. One packet loop at the server serves all of them: they share its map,
its accept queue and its drain. Still each of them is a wire of its own, as long as it is in good
order itself; the others may stall, fail, be reset or leave.
-/
namespace TransportProxy.Slipstream
open Foundations
set_option autoImplicit false

structure Proxies (ι : Type) where
  near : ι → RelayTask
  connections : Connections ι
  /-- the tasks of the server's streams, each with an upstream of its own -/
  far : ℕ → RelayTask

inductive ProxiesEvent (ι : Type) where
  | near (i : ι) (e : RelayEvent)
  | far (j : ℕ) (e : RelayEvent)
  | connections (e : ConnectionsEvent ι)
  deriving DecidableEq, Repr

inductive ProxiesObs (ι : Type) where
  | near (i : ι) (o : TcpObs)
  | far (j : ℕ) (o : TcpObs)
  | connections (o : ConnectionsObs ι)
  deriving DecidableEq, Repr

/-- An operation of one of the tasks. -/
def ConnectionsEvent.isPoll {ι : Type} : ConnectionsEvent ι → Bool
  | .client _ (.app _) => true
  | .server (.app _ _) => true
  | _ => false

namespace Proxies
variable {ι : Type}

def init : Proxies ι := ⟨fun _ => .init, .init, fun _ => .init⟩

/-- One of the connections, among all streams of the server. -/
def proxied (s : Proxies ι) (i : ι) : Proxied := ⟨s.near i, s.connections.duplex i, s.far⟩

section Step
variable [DecidableEq ι] [Fintype ι] (key : ι → CnxPtr) (sid : ι → UInt64)

def nearStep (s : Proxies ι) (i : ι) (e : RelayEvent) :
    Option (Proxies ι × List (ProxiesObs ι)) :=
  match (s.near i).tcp e with
  | some r => some ({ s with near := Function.update s.near i r.1 }, r.2.map (.near i))
  | none =>
    ((s.near i).op (s.connections.clients i).bridge.writer e).bind fun op =>
      (s.connections.clientStep sid i (.app op)).map fun r =>
        ({ s with
          near := Function.update s.near i ((s.near i).next
            (Client.bridgeTrace (Duplex.clientTrace (Connections.seen i r.2))))
          connections := r.1 }, r.2.map .connections)

def farStep (s : Proxies ι) (j : ℕ) (e : RelayEvent) :
    Option (Proxies ι × List (ProxiesObs ι)) :=
  match (s.far j).tcp e with
  | some r =>
    if s.connections.server.Accepted j then
      some ({ s with far := Function.update s.far j r.1 }, r.2.map (.far j))
    else none
  | none =>
    ((s.far j).op (s.connections.server.stream j).writer e).bind fun op =>
      (s.connections.serverStep key sid (.app j op)).map fun r =>
        ({ s with
          far := Function.update s.far j
            ((s.far j).next (Server.bridgeTrace j (Connections.serverTrace r.2)))
          connections := r.1 }, r.2.map .connections)

def step (s : Proxies ι) : ProxiesEvent ι → Option (Proxies ι × List (ProxiesObs ι))
  | .near i e => s.nearStep sid i e
  | .far j e => s.farStep key sid j e
  | .connections e =>
    if e.isPoll then none
    else ((Connections.machine key sid).step s.connections e).map fun r =>
      ({ s with connections := r.1 }, r.2.map .connections)

/-- All tasks, all packet loops and the network under every interleaving. -/
def machine : Machine (Proxies ι) (ProxiesEvent ι) (ProxiesObs ι) := ⟨step key sid⟩

end Step

end Proxies

/-! ## One of the connections -/

def ProxiesObs.seen {ι : Type} [DecidableEq ι] (i : ι) : ProxiesObs ι → Option ProxiedObs
  | .near k o => if k = i then some (.near o) else none
  | .far j o => some (.far j o)
  | .connections o => (o.seen i).map .duplex

@[simp] def ProxiesObs.server? {ι : Type} : ProxiesObs ι → Option ServerObs
  | .connections o => o.server?
  | _ => none

namespace Proxies
variable {ι : Type} [DecidableEq ι]

/-- What a trace shows of connection `i`. -/
def seen (i : ι) (tr : List (ProxiesObs ι)) : List ProxiedObs := tr.filterMap (ProxiesObs.seen i)

theorem seen_map_near_self (i : ι) (u : List TcpObs) : seen i (u.map (.near i)) = u.map .near := by
  induction u with
  | nil => rfl
  | cons o u ih =>
    rw [List.map_cons, seen, filterMap_cons_toList, ProxiesObs.seen, if_pos rfl]
    exact congrArg (_ :: ·) ih

theorem seen_map_near_of_ne {i k : ι} (h : k ≠ i) (u : List TcpObs) :
    seen i (u.map (.near k)) = [] :=
  filterMap_map_none (fun o => show ProxiesObs.seen i (.near k o) = none from if_neg h) u

theorem seen_map_far (i : ι) (j : ℕ) (u : List TcpObs) :
    seen i (u.map (.far j)) = u.map (.far j) := by
  induction u with
  | nil => rfl
  | cons o u ih => exact congrArg (_ :: ·) ih

theorem seen_map_connections (i : ι) (t : List (ConnectionsObs ι)) :
    seen i (t.map .connections) = (Connections.seen i t).map .duplex := by
  induction t with
  | nil => rfl
  | cons o t ih =>
    rw [List.map_cons, seen, filterMap_cons_toList, ProxiesObs.seen, Connections.seen,
      filterMap_cons_toList, List.map_append]
    refine congrArg₂ (· ++ ·) ?_ ih
    cases o.seen i <;> rfl

variable (key : ι → CnxPtr) (sid : ι → UInt64)

/-- The event of connection `i` that an event is. -/
def proxiedEvent (i : ι) (s : Proxies ι) : ProxiesEvent ι → Option ProxiedEvent
  | .near k e => if k = i then some (.near e) else none
  | .far j e => some (.far j e)
  | .connections e => (Connections.duplexEvent key sid i s.connections e).map .duplex

variable {key sid} {i k : ι} {s s' : Proxies ι} {out : List (ProxiesObs ι)}

theorem step_near {e : RelayEvent} (h : s.nearStep sid k e = some (s', out)) (i : ι) :
    if k = i then (s.proxied i).nearStep (sid i) e = some (s'.proxied i, seen i out)
    else s'.proxied i = s.proxied i ∧ seen i out = [] := by
  unfold nearStep at h
  cases ht : (s.near k).tcp e with
  | some r =>
    rw [ht] at h
    obtain ⟨rfl, rfl⟩ := Prod.mk.inj (Option.some.inj h)
    split
    · rename_i hk
      subst hk
      rw [seen_map_near_self]
      simp [Proxied.nearStep, proxied, ht]
    · rename_i hk
      exact ⟨by simp [proxied, Ne.symm hk], seen_map_near_of_ne hk r.2⟩
  | none =>
    rw [ht] at h
    obtain ⟨op, hop, h⟩ := Option.bind_eq_some_iff.mp h
    obtain ⟨⟨c, cout⟩, hs, he⟩ := Option.map_eq_some_iff.mp h
    obtain ⟨rfl, rfl⟩ := Prod.mk.inj he
    rw [seen_map_connections]
    split
    · rename_i hk
      subst hk
      have hd := Connections.clientStep_self hs
      have hop' : (s.near k).op (s.connections.duplex k).client.bridge.writer e = some op := hop
      simp [Proxied.nearStep, proxied, ht, hop', hd]
    · rename_i hk
      obtain ⟨hd, hnil⟩ := Connections.clientStep_of_ne hk hs
      rw [hnil]
      exact ⟨by simp [proxied, Ne.symm hk, hd], rfl⟩

theorem step_far {j : ℕ} {e : RelayEvent} (h : s.farStep key sid j e = some (s', out)) (i : ι) :
    (s.proxied i).farStep (key i) (sid i) j e = some (s'.proxied i, seen i out) := by
  unfold farStep at h
  unfold Proxied.farStep
  have htask : (s.proxied i).far = s.far := rfl
  cases ht : (s.far j).tcp e with
  | some r =>
    rw [ht] at h
    obtain ⟨hacc, h⟩ := Option.ite_none_right_eq_some.mp h
    obtain ⟨rfl, rfl⟩ := Prod.mk.inj (Option.some.inj h)
    have hacc' : (s.proxied i).duplex.server.Accepted j := hacc
    rw [htask, ht, seen_map_far]
    exact if_pos hacc'
  | none =>
    rw [ht] at h
    obtain ⟨op, hop, h⟩ := Option.bind_eq_some_iff.mp h
    obtain ⟨⟨c, cout⟩, hs, he⟩ := Option.map_eq_some_iff.mp h
    obtain ⟨rfl, rfl⟩ := Prod.mk.inj he
    have hd : (s.proxied i).duplex.serverStep (key i) (sid i) (.app j op) =
        some (c.duplex i, Connections.seen i cout) := Connections.serverStep_duplex hs i
    have hop' : (s.far j).op ((s.proxied i).duplex.server.stream j).writer e = some op := hop
    rw [htask, ht, seen_map_connections]
    simp only [hop', Option.bind_some, hd, Option.map_some, Connections.serverTrace_seen]
    rfl

omit [DecidableEq ι] in
theorem isPoll_lift (i : ι) (de : DuplexEvent) : (Connections.lift i de).isPoll = de.isPoll := by
  cases de with
  | client e | server e => cases e <;> rfl
  | deliverUp | deliverDown => rfl

variable [Fintype ι]

/-- A step is one of connection `i`, or nothing there. -/
theorem step_proxied {e : ProxiesEvent ι} (hinj : Function.Injective key)
    (h : (machine key sid).step s e = some (s', out)) (i : ι) :
    match proxiedEvent key sid i s e with
    | none => s'.proxied i = s.proxied i ∧ seen i out = []
    | some pe => (Proxied.machine (key i) (sid i)).step (s.proxied i) pe =
        some (s'.proxied i, seen i out) := by
  cases e with
  | near k e =>
    have hn := step_near h i
    by_cases hk : k = i
    · rw [if_pos hk] at hn
      simp only [proxiedEvent, if_pos hk]
      exact hn
    · rw [if_neg hk] at hn
      simp only [proxiedEvent, if_neg hk]
      exact hn
  | far j e => exact step_far h i
  | connections e =>
    simp only [machine, step, Option.ite_none_left_eq_some, Option.map_eq_some_iff] at h
    obtain ⟨hpoll, ⟨c, cout⟩, hs, he⟩ := h
    obtain ⟨rfl, rfl⟩ := Prod.mk.inj he
    have hd := Connections.step_duplex hinj hs i
    rw [seen_map_connections]
    simp only [proxiedEvent]
    cases hde : Connections.duplexEvent key sid i s.connections e with
    | none =>
      rw [hde] at hd
      rw [hd.2]
      exact ⟨by simp [proxied, hd.1], rfl⟩
    | some de =>
      rw [hde] at hd
      have hnot : ¬ de.isPoll = true := by
        obtain rfl | ⟨k, n, cb, rfl, rfl⟩ := Connections.duplexEvent_cases hde
        · rwa [isPoll_lift] at hpoll
        · exact Bool.false_ne_true
      simp only [Option.map_some, Proxied.machine, Proxied.step]
      rw [if_neg hnot]
      simp [proxied, hd]

/-- What one sees of connection `i`. -/
def proxiedView (hinj : Function.Injective key) (i : ι) :
    Machine.View (machine key sid) (Proxied.machine (key i) (sid i)) where
  state s := s.proxied i
  obs := ProxiesObs.seen i
  event := proxiedEvent key sid i
  sound s e s' out h := by
    have hp := step_proxied hinj h i
    cases hpe : proxiedEvent key sid i s e with
    | none =>
      rw [hpe] at hp
      exact .inl ⟨rfl, hp⟩
    | some pe =>
      rw [hpe] at hp
      exact .inr ⟨pe, rfl, hp⟩

/-- What the event is for connection `i` keeps that one in good order. -/
def Orderly (key : ι → CnxPtr) (sid : ι → UInt64) (i : ι) (s : Proxies ι)
    (tr : List (ProxiesObs ι)) (e : ProxiesEvent ι) : Prop :=
  ∀ pe ∈ proxiedEvent key sid i s e, (s.proxied i).Orderly (key i) (sid i) (seen i tr) pe

instance Orderly.decidable (key : ι → CnxPtr) (sid : ι → UInt64) (i : ι) (s : Proxies ι)
    (tr : List (ProxiesObs ι)) (e : ProxiesEvent ι) : Decidable (s.Orderly key sid i tr e) :=
  inferInstanceAs (Decidable (∀ pe ∈ proxiedEvent key sid i s e, _))

/-- The streams of the server that connection `i` has opened. -/
def streams (key : ι → CnxPtr) (i : ι) (tr : List (ProxiesObs ι)) : List ℕ :=
  Proxied.streams (key i) (seen i tr)

/-- What a trace shows at the ends of connection `i`, if its stream at the server is `j`. -/
def ends (i : ι) (j : ℕ) (tr : List (ProxiesObs ι)) : List (WireEvent UInt8) :=
  Proxied.ends j (seen i tr)

variable {es : List (ProxiesEvent ι)} {tr : List (ProxiesObs ι)} {j : ℕ}

/-- What a trace shows of the server. -/
def serverTrace (tr : List (ProxiesObs ι)) : List ServerObs := tr.filterMap ProxiesObs.server?

omit [Fintype ι] in
/-- All clients see the same of it. -/
theorem serverTrace_seen (i : ι) (tr : List (ProxiesObs ι)) :
    Duplex.serverTrace (Proxied.duplexTrace (seen i tr)) = serverTrace tr := by
  rw [Duplex.serverTrace, Proxied.duplexTrace, seen, List.filterMap_filterMap,
    List.filterMap_filterMap]
  refine List.filterMap_congr fun o _ => ?_
  cases o with
  | near k o => by_cases hk : k = i <;> simp [ProxiesObs.seen, hk]
  | far j o => rfl
  | connections o =>
    cases o with
    | client k o => by_cases hk : k = i <;> simp [ProxiesObs.seen, ConnectionsObs.seen, hk]
    | server o => rfl

/-- No stream is the stream of two clients. -/
theorem not_mem_streams (hinj : Function.Injective key)
    (hr : (machine key sid).run init es = some (s, tr))
    (hj : (s.proxied i).Owns (key i) j (seen i tr)) (hk : k ≠ i) : j ∉ streams key k tr := by
  obtain ⟨fs, hfs⟩ := (proxiedView hinj i).run hr
  obtain ⟨ds, hds⟩ := Proxied.duplexView.run hfs
  have hp : Server.Placed s.connections.server
      (Duplex.serverTrace (Proxied.duplexTrace (seen i tr))) := Duplex.placed_run hds
  intro hm
  have hm' : j ∈ Server.acceptedOf (key k)
      (Duplex.serverTrace (Proxied.duplexTrace (seen i tr))) := by
    rw [serverTrace_seen, ← serverTrace_seen k]
    exact hm
  obtain ho | ⟨-, hle⟩ := hj
  · exact hk (hinj (hp.unique hm' (by rw [ho]; exact List.mem_singleton_self j)))
  · exact absurd (hp.lt hm') hle.not_gt

/-- Each connection that goes on or ends in good order is a wire from its client to the upstream of
its stream, whatever becomes of the others, and no other client has to do with that one. -/
theorem proxies_are_wires (hinj : Function.Injective key)
    (hr : (machine key sid).run init es = some (s, tr)) (i : ι)
    (hg : (machine key sid).AlongTrace (Orderly key sid i) init [] es)
    (hj : (s.proxied i).Owns (key i) j (seen i tr)) :
    (∃ fs w, Wire.machine.run .init fs = some (w, ends i j tr)) ∧
      ∀ k, k ≠ i → j ∉ streams key k tr := by
  obtain ⟨fs, hfs, hfg⟩ := (proxiedView hinj i).run_alongTrace
    (H := Proxied.Orderly (key i) (sid i)) (fun s tr e pe r _ h he => h pe he) hr hg
  obtain ⟨gs, w, hgs, -⟩ := Proxied.Runs.onWire ⟨⟨fs, hfs, hfg⟩, hj⟩
  exact ⟨⟨gs, w, hgs⟩, fun k hk => not_mem_streams hinj hr hj hk⟩

/-- An event of connection `i` as one of them all. -/
def lift (i : ι) : ProxiedEvent → ProxiesEvent ι
  | .near e => .near i e
  | .far j e => .far j e
  | .duplex e => .connections (Connections.lift i e)

/-- Connection `i`, the first one, is lost when one of its two bytes has arrived and the call that
hands over the answer has failed. Then `k` does all that `closedRun` does, and the third one never
starts. -/
def lostRun (i k : Fin 3) : List (ProxiesEvent (Fin 3)) :=
  (([.duplex (.client (.stream ⟨9, 0, none, .ready⟩ 4 0)), .near (.tcpRead [5, 6]), .near .write,
    .duplex (.client (.loop 5 .null 0)), .duplex (.client (.resume 0)),
    .duplex (.client (.loop 3 .null 0)), .duplex (.client (.resume 0)),
    .duplex (.client (.resume 0)), .duplex (.client (.resume 0)),
    .duplex (.server (.stream ⟨7, 0, none, .ready⟩)), .duplex (.deliverUp 1),
    .duplex (.server (.resume 0)), .duplex (.server .accept), .far 0 (.read 8),
    .far 0 (.tcpWrite 1), .far 0 (.tcpRead [9]), .far 0 .write,
    .duplex (.server (.loop 2 .null [7])), .duplex (.server (.resume (-1))),
    .duplex (.server (.resume 0)), .duplex (.server (.resume 0)), .duplex (.server (.resume 0)),
    .duplex (.server (.stream ⟨7, 4, none, .close⟩)), .duplex (.server (.resume 0)),
    .duplex (.server (.resume 0))] : List ProxiedEvent).map (lift i)) ++
    (Proxied.closedRun 8 [8] 1).map (lift k)

theorem proxies_are_wires_lostRun : ∃ s tr,
    (machine threeKeys oneId).run init (lostRun 0 1) = some (s, tr) ∧
    streams threeKeys 0 tr = [0] ∧ streams threeKeys 1 tr = [1] ∧
    (Server.addsOn 7 (serverTrace tr)).map AddToStream.ret = [-1] ∧
    ends 1 1 tr = [.up (.put [1, 2, 3]), .up (.put []), .down (.put [8]), .up (.take [1, 2, 3]),
      .up .close, .down (.put []), .down (.take [8]), .down .close] ∧
    (∃ fs w, Wire.machine.run .init fs = some (w, ends 1 1 tr)) ∧
    ∀ k, k ≠ 1 → 1 ∉ streams threeKeys k tr :=
  ⟨_, _, rfl, by decide, by decide, by decide, by decide,
    @proxies_are_wires _ _ threeKeys oneId _ _ (lostRun 0 1) _ 1 (by decide) rfl 1 (by decide)
      (by decide)⟩

end Proxies
end TransportProxy.Slipstream
