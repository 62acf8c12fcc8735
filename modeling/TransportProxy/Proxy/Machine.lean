import TransportProxy.Duplex.OwnStream
import TransportProxy.Proxy.Relay

/-! # A proxied connection from end to end

`client.rs` accepts a TCP connection, opens a stream through the transport and relays the one to the
other; `handle_connection` at the server connects to the upstream and relays the stream to that. So
the bytes pass two relay tasks, `near` at the client and one of `far` at the server, and the stream
between them. The server has such a task for every stream that it accepts, whichever connection has
opened it. The TCP streams may do anything at any moment, and so may the packet loops, the network
and the other connections of the server.
-/
namespace TransportProxy.Slipstream
open Foundations
set_option autoImplicit false

structure Proxied where
  near : RelayTask
  duplex : Duplex
  /-- the tasks of the server's streams, each with an upstream of its own -/
  far : ℕ → RelayTask

inductive ProxiedEvent where
  | near (e : RelayEvent)
  | far (j : ℕ) (e : RelayEvent)
  | duplex (e : DuplexEvent)
  deriving DecidableEq, Repr

inductive ProxiedObs where
  | near (o : TcpObs)
  | far (j : ℕ) (o : TcpObs)
  | duplex (o : DuplexObs)
  deriving DecidableEq, Repr

/-- An operation of one of the tasks. -/
def DuplexEvent.isPoll : DuplexEvent → Bool
  | .client (.app _) => true
  | .server (.app _ _) => true
  | _ => false

/-- Stream `j` has been opened and has left the accept queue. -/
def Server.Accepted (s : Server) (j : ℕ) : Prop := j < s.streams.length ∧ j ∉ s.acceptQ

instance Server.Accepted.decidable (s : Server) (j : ℕ) : Decidable (s.Accepted j) :=
  inferInstanceAs (Decidable (_ ∧ _))

namespace Proxied
variable (key : CnxPtr) (sid : UInt64)

def init : Proxied := ⟨.init, .init, fun _ => .init⟩

/-- The task at the client makes an operation on its TCP stream or one on the bridged stream. -/
def nearStep (s : Proxied) (e : RelayEvent) : Option (Proxied × List ProxiedObs) :=
  match s.near.tcp e with
  | some r => some ({ s with near := r.1 }, r.2.map .near)
  | none =>
    (s.near.op s.duplex.client.bridge.writer e).bind fun op =>
      (s.duplex.clientStep sid (.app op)).map fun r =>
        ({ s with
          near := s.near.next (Client.bridgeTrace (Duplex.clientTrace r.2))
          duplex := r.1 }, r.2.map .duplex)

/-- A task at the server is there when its stream has been accepted. -/
def farStep (s : Proxied) (j : ℕ) (e : RelayEvent) : Option (Proxied × List ProxiedObs) :=
  match (s.far j).tcp e with
  | some r =>
    if s.duplex.server.Accepted j then
      some ({ s with far := Function.update s.far j r.1 }, r.2.map (.far j))
    else none
  | none =>
    ((s.far j).op (s.duplex.server.stream j).writer e).bind fun op =>
      (s.duplex.serverStep key sid (.app j op)).map fun r =>
        ({ s with
          far := Function.update s.far j
            ((s.far j).next (Server.bridgeTrace j (Duplex.serverTrace r.2)))
          duplex := r.1 }, r.2.map .duplex)

def step (s : Proxied) : ProxiedEvent → Option (Proxied × List ProxiedObs)
  | .near e => s.nearStep sid e
  | .far j e => s.farStep key sid j e
  | .duplex e =>
    if e.isPoll then none
    else ((Duplex.machine key sid).step s.duplex e).map fun r =>
      ({ s with duplex := r.1 }, r.2.map .duplex)

/-- All tasks, both packet loops and the network under every interleaving. -/
def machine : Machine Proxied ProxiedEvent ProxiedObs := ⟨step key sid⟩

end Proxied

@[simp] def ProxiedObs.near? : ProxiedObs → Option TcpObs
  | .near o => some o
  | _ => none

def ProxiedObs.far? (j : ℕ) : ProxiedObs → Option TcpObs
  | .far i o => if i = j then some o else none
  | _ => none

@[simp] def ProxiedObs.duplex? : ProxiedObs → Option DuplexObs
  | .duplex o => some o
  | _ => none

namespace Proxied

/-- What a trace shows of the client's TCP stream, and of the upstream of stream `j`. -/
def nearTrace (tr : List ProxiedObs) : List TcpObs := tr.filterMap ProxiedObs.near?

def farTrace (j : ℕ) (tr : List ProxiedObs) : List TcpObs := tr.filterMap (ProxiedObs.far? j)

/-- And of what is between the tasks. -/
def duplexTrace (tr : List ProxiedObs) : List DuplexObs := tr.filterMap ProxiedObs.duplex?

/-- The streams of the server that the connection has opened. -/
def streams (key : CnxPtr) (tr : List ProxiedObs) : List ℕ := Duplex.streams key (duplexTrace tr)

@[simp] theorem nearTrace_append (t u : List ProxiedObs) :
    nearTrace (t ++ u) = nearTrace t ++ nearTrace u := List.filterMap_append ..

@[simp] theorem farTrace_append (j : ℕ) (t u : List ProxiedObs) :
    farTrace j (t ++ u) = farTrace j t ++ farTrace j u := List.filterMap_append ..

@[simp] theorem duplexTrace_append (t u : List ProxiedObs) :
    duplexTrace (t ++ u) = duplexTrace t ++ duplexTrace u := List.filterMap_append ..

@[simp] theorem nearTrace_map_near (u : List TcpObs) : nearTrace (u.map .near) = u := by
  induction u with
  | nil => rfl
  | cons o u ih => exact congrArg (o :: ·) ih

@[simp] theorem farTrace_map_far_self (j : ℕ) (u : List TcpObs) :
    farTrace j (u.map (.far j)) = u := by
  induction u with
  | nil => rfl
  | cons o u ih =>
    rw [List.map_cons, farTrace, filterMap_cons_toList, ProxiedObs.far?, if_pos rfl]
    exact congrArg (o :: ·) ih

theorem farTrace_map_far_of_ne {i j : ℕ} (h : i ≠ j) (u : List TcpObs) :
    farTrace j (u.map (.far i)) = [] :=
  filterMap_map_none (fun o => show ProxiedObs.far? j (.far i o) = none from if_neg h) u

@[simp] theorem duplexTrace_map_duplex (t : List DuplexObs) : duplexTrace (t.map .duplex) = t := by
  induction t with
  | nil => rfl
  | cons o t ih => exact congrArg (o :: ·) ih

@[simp] theorem nearTrace_map_far (j : ℕ) (u : List TcpObs) : nearTrace (u.map (.far j)) = [] :=
  filterMap_map_none (fun _ => rfl) u

@[simp] theorem nearTrace_map_duplex (t : List DuplexObs) : nearTrace (t.map .duplex) = [] :=
  filterMap_map_none (fun _ => rfl) t

@[simp] theorem farTrace_map_near (j : ℕ) (u : List TcpObs) : farTrace j (u.map .near) = [] :=
  filterMap_map_none (fun _ => rfl) u

@[simp] theorem farTrace_map_duplex (j : ℕ) (t : List DuplexObs) :
    farTrace j (t.map .duplex) = [] :=
  filterMap_map_none (fun _ => rfl) t

@[simp] theorem duplexTrace_map_near (u : List TcpObs) : duplexTrace (u.map .near) = [] :=
  filterMap_map_none (fun _ => rfl) u

@[simp] theorem duplexTrace_map_far (j : ℕ) (u : List TcpObs) :
    duplexTrace (u.map (.far j)) = [] :=
  filterMap_map_none (fun _ => rfl) u

/-! ## What one step can do -/

/-- The event between the tasks that a step makes, if any. -/
def duplexEvent (s : Proxied) : ProxiedEvent → Option DuplexEvent
  | .near e =>
    match s.near.tcp e with
    | some _ => none
    | none => (s.near.op s.duplex.client.bridge.writer e).map fun op => .client (.app op)
  | .far j e =>
    match (s.far j).tcp e with
    | some _ => none
    | none => ((s.far j).op (s.duplex.server.stream j).writer e).map fun op => .server (.app j op)
  | .duplex e => some e

variable (key : CnxPtr) (sid : UInt64)

inductive Step (s : Proxied) (e : ProxiedEvent) (s' : Proxied) (out : List ProxiedObs) : Prop where
  | nearTcp (re : RelayEvent) (tout : List TcpObs) (ht : s.near.tcp re = some (s'.near, tout))
      (he : s.duplexEvent e = none) (hout : out = tout.map .near)
      (hduplex : s'.duplex = s.duplex) (hfar : s'.far = s.far)
  | farTcp (j : ℕ) (re : RelayEvent) (task : RelayTask) (tout : List TcpObs)
      (ht : (s.far j).tcp re = some (task, tout)) (he : s.duplexEvent e = none)
      (hout : out = tout.map (.far j)) (hduplex : s'.duplex = s.duplex)
      (hfar : s'.far = Function.update s.far j task) (hnear : s'.near = s.near)
      (hacc : s.duplex.server.Accepted j)
  | nearOp (re : RelayEvent) (op : AppOp) (dout : List DuplexObs)
      (hop : s.near.op s.duplex.client.bridge.writer re = some op)
      (he : s.duplexEvent e = some (.client (.app op)))
      (hs : (Duplex.machine key sid).step s.duplex (.client (.app op)) = some (s'.duplex, dout))
      (hout : out = dout.map .duplex)
      (hnear : s'.near = s.near.next (Client.bridgeTrace (Duplex.clientTrace dout)))
      (hfar : s'.far = s.far)
  | farOp (j : ℕ) (re : RelayEvent) (op : AppOp) (dout : List DuplexObs)
      (hop : (s.far j).op (s.duplex.server.stream j).writer re = some op)
      (he : s.duplexEvent e = some (.server (.app j op)))
      (hs : (Duplex.machine key sid).step s.duplex (.server (.app j op)) = some (s'.duplex, dout))
      (hout : out = dout.map .duplex)
      (hfar : s'.far = Function.update s.far j
        ((s.far j).next (Server.bridgeTrace j (Duplex.serverTrace dout))))
      (hnear : s'.near = s.near)
  | duplex (de : DuplexEvent) (dout : List DuplexObs) (he : s.duplexEvent e = some de)
      (hs : (Duplex.machine key sid).step s.duplex de = some (s'.duplex, dout))
      (hpoll : de.isPoll = false) (hout : out = dout.map .duplex) (hnear : s'.near = s.near)
      (hfar : s'.far = s.far)

variable {key sid} {s s' : Proxied} {e : ProxiedEvent} {out : List ProxiedObs}

theorem step_cases (h : (machine key sid).step s e = some (s', out)) :
    Step key sid s e s' out := by
  cases e with
  | near re =>
    simp only [machine, step, nearStep] at h
    cases ht : s.near.tcp re with
    | some r =>
      rw [ht] at h
      obtain ⟨rfl, rfl⟩ := Prod.mk.inj (Option.some.inj h)
      exact .nearTcp re r.2 ht (by simp only [duplexEvent, ht]) rfl rfl rfl
    | none =>
      rw [ht] at h
      obtain ⟨op, hop, h⟩ := Option.bind_eq_some_iff.mp h
      obtain ⟨⟨d, dout⟩, hs, hd⟩ := Option.map_eq_some_iff.mp h
      obtain ⟨rfl, rfl⟩ := Prod.mk.inj hd
      exact .nearOp re op dout hop (by simp only [duplexEvent, ht, hop, Option.map_some])
        ((Duplex.step_client_app ..).trans hs) rfl rfl rfl
  | far j re =>
    simp only [machine, step, farStep] at h
    cases ht : (s.far j).tcp re with
    | some r =>
      rw [ht] at h
      obtain ⟨hacc, h⟩ := Option.ite_none_right_eq_some.mp h
      obtain ⟨rfl, rfl⟩ := Prod.mk.inj (Option.some.inj h)
      exact .farTcp j re r.1 r.2 ht (by simp only [duplexEvent, ht]) rfl rfl rfl rfl hacc
    | none =>
      rw [ht] at h
      obtain ⟨op, hop, h⟩ := Option.bind_eq_some_iff.mp h
      obtain ⟨⟨d, dout⟩, hs, hd⟩ := Option.map_eq_some_iff.mp h
      obtain ⟨rfl, rfl⟩ := Prod.mk.inj hd
      exact .farOp j re op dout hop (by simp only [duplexEvent, ht, hop, Option.map_some])
        ((Duplex.step_server_app ..).trans hs) rfl rfl rfl
  | duplex de =>
    simp only [machine, step, Option.ite_none_left_eq_some, Option.map_eq_some_iff] at h
    obtain ⟨hpoll, ⟨d, dout⟩, hs, hd⟩ := h
    obtain ⟨rfl, rfl⟩ := Prod.mk.inj hd
    exact .duplex de dout rfl hs (by simpa using hpoll) rfl rfl rfl

/-- What one sees between the tasks. -/
def duplexView : Machine.View (machine key sid) (Duplex.machine key sid) where
  state := Proxied.duplex
  obs := ProxiedObs.duplex?
  event := duplexEvent
  sound s e s' out h := by
    cases step_cases h with
    | nearTcp re tout ht he hout hd =>
      subst hout
      exact .inl ⟨he, hd, duplexTrace_map_near tout⟩
    | farTcp j re task tout ht he hout hd =>
      subst hout
      exact .inl ⟨he, hd, duplexTrace_map_far j tout⟩
    | nearOp re op dout hop he hs hout | farOp j re op dout hop he hs hout
    | duplex de dout he hs hpoll hout =>
      subst hout
      exact .inr ⟨_, he, hs.trans
        (congrArg (fun t => some (s'.duplex, t)) (duplexTrace_map_duplex dout).symm)⟩

variable {es : List ProxiedEvent} {tr : List ProxiedObs} {G : Proxied → ProxiedEvent → Prop}

/-- A guarded run, seen between the tasks under the guard that it has there. -/
theorem duplex_run {H : Duplex → DuplexEvent → Prop}
    (hGH : ∀ s e de r, (machine key sid).step s e = some r → G s e → s.duplexEvent e = some de →
      H s.duplex de)
    (hr : (machine key sid).run init es = some (s, tr)) (hg : (machine key sid).Along G init es) :
    ∃ fs, (Duplex.machine key sid).run .init fs = some (s.duplex, duplexTrace tr) ∧
      (Duplex.machine key sid).Along H .init fs :=
  duplexView.run_along hGH hr hg

theorem duplex_runTrace {G : Proxied → List ProxiedObs → ProxiedEvent → Prop}
    {H : Duplex → List DuplexObs → DuplexEvent → Prop}
    (hGH : ∀ s tr e de, G s tr e → s.duplexEvent e = some de → H s.duplex (duplexTrace tr) de)
    (hr : (machine key sid).run init es = some (s, tr))
    (hg : (machine key sid).AlongTrace G init [] es) :
    ∃ fs, (Duplex.machine key sid).run .init fs = some (s.duplex, duplexTrace tr) ∧
      (Duplex.machine key sid).AlongTrace H .init [] fs :=
  duplexView.run_alongTrace (fun s tr e de _ _ => hGH s tr e de) hr hg

end Proxied
end TransportProxy.Slipstream
