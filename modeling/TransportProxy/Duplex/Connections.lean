import TransportProxy.Duplex.Machine
import Mathlib.Data.Fintype.Defs
import Mathlib.Logic.Function.Basic

/-! # All connections of one server

The clients `ι` reach one server, each through a connection of its own. The server knows the
connection of client `i` by the pointer `key i`, and picoquic has given its stream the id `sid i`.
One packet loop serves all of them; a call of `picoquic_add_to_stream` hands bytes over for the
client on whose connection and stream it is made. What each client has of all this is a duplex
connection, of which the other clients are events that bring nothing on it.
-/
namespace TransportProxy.Slipstream
open Foundations
set_option autoImplicit false

structure Connections (ι : Type) where
  server : Server
  clients : ι → Client
  /-- handed over by a client and not delivered yet -/
  up : ι → Bytes
  /-- handed over by the server and not delivered yet -/
  down : ι → Bytes

inductive ConnectionsEvent (ι : Type) where
  | client (i : ι) (e : ClientEvent)
  | server (e : ServerEvent)
  | deliverUp (i : ι) (n : ℕ)
  | deliverDown (i : ι) (n : ℕ)
  deriving DecidableEq, Repr

inductive ConnectionsObs (ι : Type) where
  | client (i : ι) (o : ClientObs)
  | server (o : ServerObs)
  deriving DecidableEq, Repr

namespace Connections
variable {ι : Type}

def init : Connections ι := ⟨.init, fun _ => .init, fun _ => [], fun _ => []⟩

/-- The connection of one client. -/
def duplex (s : Connections ι) (i : ι) : Duplex := ⟨s.clients i, s.server, s.up i, s.down i⟩

section Step
variable [DecidableEq ι] [Fintype ι] (key : ι → CnxPtr) (sid : ι → UInt64)

def clientStep (s : Connections ι) (i : ι) (e : ClientEvent) :
    Option (Connections ι × List (ConnectionsObs ι)) :=
  (Client.machine.step (s.clients i) e).map fun r =>
    ({ s with
      clients := Function.update s.clients i r.1
      up := Function.update s.up i (s.up i ++ Duplex.sentUp (sid i) r.2) }, r.2.map (.client i))

/-- A step of the server may hand bytes over for every client. -/
def serverStep (s : Connections ι) (e : ServerEvent) :
    Option (Connections ι × List (ConnectionsObs ι)) :=
  (Server.machine.step s.server e).map fun r =>
    ({ s with server := r.1, down := fun i => s.down i ++ Duplex.sentDown (key i) (sid i) r.2 },
      r.2.map .server)

def step (s : Connections ι) :
    ConnectionsEvent ι → Option (Connections ι × List (ConnectionsObs ι))
  | .client i e => if e.GivesId (sid i) ∧ e.brings = false then s.clientStep sid i e else none
  | .server e => if ∀ i, e.brings (key i) = false then s.serverStep key sid e else none
  | .deliverUp i n =>
    if n ≤ (s.up i).length then
      { s with up := Function.update s.up i ((s.up i).drop n) }.serverStep key sid
        (.stream ((s.duplex i).upCallback (key i) (sid i) n))
    else none
  | .deliverDown i n =>
    if n ≤ (s.down i).length then
      { s with down := Function.update s.down i ((s.down i).drop n) }.clientStep sid i
        (.stream ((s.duplex i).downCallback (sid i) n) 0 0)
    else none

/-- All clients, the server and the network under every interleaving. -/
def machine : Machine (Connections ι) (ConnectionsEvent ι) (ConnectionsObs ι) := ⟨step key sid⟩

end Step

end Connections

/-! ## The connection of one client -/

@[simp] def ConnectionsObs.server? {ι : Type} : ConnectionsObs ι → Option ServerObs
  | .client _ _ => none
  | .server o => some o

def ConnectionsObs.seen {ι : Type} [DecidableEq ι] (i : ι) : ConnectionsObs ι → Option DuplexObs
  | .client k o => if k = i then some (.client o) else none
  | .server o => some (.server o)

namespace Connections
variable {ι : Type} [DecidableEq ι]

/-- What a trace shows of the connection of client `i`. -/
def seen (i : ι) (tr : List (ConnectionsObs ι)) : List DuplexObs :=
  tr.filterMap (ConnectionsObs.seen i)

theorem seen_map_client_self (i : ι) (out : List ClientObs) :
    seen i (out.map (.client i)) = out.map .client := by
  induction out with
  | nil => rfl
  | cons o out ih =>
    rw [List.map_cons, seen, filterMap_cons_toList, ConnectionsObs.seen, if_pos rfl]
    exact congrArg (_ :: ·) ih

theorem seen_map_client_of_ne {i k : ι} (h : k ≠ i) (out : List ClientObs) :
    seen i (out.map (.client k)) = [] :=
  filterMap_map_none (fun o => show ConnectionsObs.seen i (.client k o) = none from if_neg h) out

theorem seen_map_server (i : ι) (out : List ServerObs) :
    seen i (out.map .server) = out.map .server := by
  induction out with
  | nil => rfl
  | cons o out ih => exact congrArg (_ :: ·) ih

theorem seen_append (i : ι) (t u : List (ConnectionsObs ι)) :
    seen i (t ++ u) = seen i t ++ seen i u := List.filterMap_append ..

/-- What a trace shows of the server, which is what every client sees of it. -/
def serverTrace (tr : List (ConnectionsObs ι)) : List ServerObs :=
  tr.filterMap ConnectionsObs.server?

theorem serverTrace_seen (i : ι) (tr : List (ConnectionsObs ι)) :
    Duplex.serverTrace (seen i tr) = serverTrace tr := by
  rw [Duplex.serverTrace, seen, List.filterMap_filterMap]
  refine List.filterMap_congr fun o _ => ?_
  cases o with
  | client k o => by_cases hk : k = i <;> simp [ConnectionsObs.seen, hk]
  | server o => rfl

variable (key : ι → CnxPtr) (sid : ι → UInt64)

/-- The event of the connection of client `i` that an event is. The bytes of another client come
with an event of the server. -/
def duplexEvent (i : ι) (s : Connections ι) : ConnectionsEvent ι → Option DuplexEvent
  | .client k e => if k = i then some (.client e) else none
  | .server e => some (.server e)
  | .deliverUp k n =>
    if k = i then some (.deliverUp n)
    else some (.server (.stream ((s.duplex k).upCallback (key k) (sid k) n)))
  | .deliverDown k n => if k = i then some (.deliverDown n) else none

variable {key sid} {i k : ι} {s s' : Connections ι} {out : List (ConnectionsObs ι)}

theorem duplex_update_up (s : Connections ι) (i : ι) (b : Bytes) :
    ({ s with up := Function.update s.up i b } : Connections ι).duplex i =
      { s.duplex i with up := b } := by
  simp [duplex]

theorem duplex_update_down (s : Connections ι) (i : ι) (b : Bytes) :
    ({ s with down := Function.update s.down i b } : Connections ι).duplex i =
      { s.duplex i with down := b } := by
  simp [duplex]

theorem duplex_update_up_of_ne (h : k ≠ i) (s : Connections ι) (b : Bytes) :
    ({ s with up := Function.update s.up k b } : Connections ι).duplex i = s.duplex i := by
  simp [duplex, h.symm]

theorem duplex_update_down_of_ne (h : k ≠ i) (s : Connections ι) (b : Bytes) :
    ({ s with down := Function.update s.down k b } : Connections ι).duplex i = s.duplex i := by
  simp [duplex, h.symm]

theorem clientStep_self {e : ClientEvent} (h : s.clientStep sid i e = some (s', out)) :
    (s.duplex i).clientStep (sid i) e = some (s'.duplex i, seen i out) := by
  obtain ⟨⟨c, cout⟩, hs, he⟩ := Option.map_eq_some_iff.mp h
  obtain ⟨rfl, rfl⟩ := Prod.mk.inj he
  simp [Duplex.clientStep, duplex, hs, seen_map_client_self]

theorem clientStep_of_ne (hk : k ≠ i) {e : ClientEvent}
    (h : s.clientStep sid k e = some (s', out)) : s'.duplex i = s.duplex i ∧ seen i out = [] := by
  obtain ⟨⟨c, cout⟩, -, he⟩ := Option.map_eq_some_iff.mp h
  obtain ⟨rfl, rfl⟩ := Prod.mk.inj he
  exact ⟨by simp [duplex, hk.symm], seen_map_client_of_ne hk cout⟩

theorem serverStep_duplex {e : ServerEvent} (h : s.serverStep key sid e = some (s', out)) (i : ι) :
    (s.duplex i).serverStep (key i) (sid i) e = some (s'.duplex i, seen i out) := by
  obtain ⟨⟨u, sout⟩, hs, he⟩ := Option.map_eq_some_iff.mp h
  obtain ⟨rfl, rfl⟩ := Prod.mk.inj he
  simp [Duplex.serverStep, duplex, hs, seen_map_server]

omit [DecidableEq ι] in
/-- The bytes of one connection are brought on no other one. -/
theorem not_brings_upCallback (hinj : Function.Injective key) (hk : k ≠ i) (s : Connections ι)
    (n : ℕ) : ServerEvent.brings (key i)
      (.stream ((s.duplex k).upCallback (key k) (sid k) n)) = false := by
  have hne : key k ≠ key i := fun h => hk (hinj h)
  simp [ServerEvent.brings, Duplex.upCallback, hne]

/-- An event of one connection as one of them all. -/
def lift (i : ι) : DuplexEvent → ConnectionsEvent ι
  | .client e => .client i e
  | .server e => .server e
  | .deliverUp n => .deliverUp i n
  | .deliverDown n => .deliverDown i n

theorem duplexEvent_lift (de : DuplexEvent) :
    duplexEvent key sid i s (lift i de) = some de := by
  cases de <;> simp [lift, duplexEvent]

variable {e : ConnectionsEvent ι}

/-- What a connection sees is an event of its own or of the server, or bytes on another one. -/
theorem duplexEvent_cases {de : DuplexEvent} (h : duplexEvent key sid i s e = some de) :
    e = lift i de ∨ ∃ k n cb, e = .deliverUp k n ∧ de = .server (.stream cb) := by
  cases e with
  | client k e | deliverDown k n =>
    obtain ⟨rfl, he⟩ := Option.ite_none_right_eq_some.mp h
    obtain rfl := Option.some.inj he
    exact .inl rfl
  | server e =>
    obtain rfl := Option.some.inj h
    exact .inl rfl
  | deliverUp k n =>
    by_cases hk : k = i
    · rw [duplexEvent, if_pos hk] at h
      obtain rfl := Option.some.inj h
      exact .inl (hk ▸ rfl)
    · rw [duplexEvent, if_neg hk] at h
      exact .inr ⟨k, n, _, rfl, (Option.some.inj h).symm⟩

variable [Fintype ι]

/-- A step is one of the connection of client `i`, or nothing there. -/
theorem step_duplex (hinj : Function.Injective key)
    (h : (machine key sid).step s e = some (s', out)) (i : ι) :
    match duplexEvent key sid i s e with
    | none => s'.duplex i = s.duplex i ∧ seen i out = []
    | some de => (Duplex.machine (key i) (sid i)).step (s.duplex i) de =
        some (s'.duplex i, seen i out) := by
  cases e with
  | client k e =>
    simp only [machine, step, Option.ite_none_right_eq_some] at h
    by_cases hk : k = i
    · subst k
      simp only [duplexEvent, if_true]
      exact (if_pos h.1).trans (clientStep_self h.2)
    · simpa [duplexEvent, hk] using clientStep_of_ne hk h.2
  | server e =>
    simp only [machine, step, Option.ite_none_right_eq_some] at h
    exact (if_pos (h.1 i)).trans (serverStep_duplex h.2 i)
  | deliverUp k n =>
    simp only [machine, step, Option.ite_none_right_eq_some] at h
    obtain ⟨hle, h⟩ := h
    have hd := serverStep_duplex h i
    by_cases hk : k = i
    · subst hk
      rw [duplex_update_up] at hd
      simp only [duplexEvent, if_true]
      exact (if_pos hle).trans hd
    · rw [duplex_update_up_of_ne hk] at hd
      simp only [duplexEvent, if_neg hk]
      exact (if_pos (not_brings_upCallback hinj hk s n)).trans hd
  | deliverDown k n =>
    simp only [machine, step, Option.ite_none_right_eq_some] at h
    obtain ⟨hle, h⟩ := h
    by_cases hk : k = i
    · subst hk
      have hd := clientStep_self h
      rw [duplex_update_down] at hd
      simp only [duplexEvent, if_true]
      exact (if_pos hle).trans hd
    · have hd := clientStep_of_ne hk h
      rw [duplex_update_down_of_ne hk] at hd
      simpa [duplexEvent, hk] using hd

end Connections

/-- Three connections, known by their pointers only: their streams have the same id. -/
def threeKeys (i : Fin 3) : CnxPtr := 7 + i.val

def oneId (_ : Fin 3) : UInt64 := 4

end TransportProxy.Slipstream
