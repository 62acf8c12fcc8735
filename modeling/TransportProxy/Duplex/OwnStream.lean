import TransportProxy.Duplex.Ends

/-! # The stream that a connection has opened

Which stream the bytes of a connection get to is decided by the events of all connections. `Open`
and `Orderly` are about a stream that they get to. `StaysOpen` and `InOrder` ask the same of
whichever streams the connection has opened so far, and nothing of the other connections: that what
these bring goes elsewhere is no condition, but follows.
-/
namespace TransportProxy.Slipstream
open Foundations
set_option autoImplicit false

namespace Server
variable {s s' : Server} {e : ServerEvent} {tr out : List ServerObs} {key : CnxPtr} {j : ℕ}

/-- The connection has opened stream `j` and no other one, or it has opened none and nobody has
opened stream `j`. -/
def Owns (key : CnxPtr) (j : ℕ) (s : Server) (tr : List ServerObs) : Prop :=
  acceptedOf key tr = [j] ∨ acceptedOf key tr = [] ∧ s.streams.length ≤ j

instance Owns.decidable (key : CnxPtr) (j : ℕ) (s : Server) (tr : List ServerObs) :
    Decidable (s.Owns key j tr) := inferInstanceAs (Decidable (_ ∨ _))

theorem Step.owns (h : Step s e s' out) (hl : Linked s) (ho : s'.Owns key j (tr ++ out)) :
    s.Owns key j tr := by
  have hlen : s.streams.length ≤ s'.streams.length := (h.fresh hl le_rfl).1
  unfold Owns at ho ⊢
  rw [acceptedOf_append] at ho
  obtain ⟨ha, -⟩ | ⟨cb, -, -, -, -, ha, -⟩ := h.accepts key
  · rw [ha, List.append_nil] at ho
    exact ho.imp id fun ⟨hn, hle⟩ => ⟨hn, hlen.trans hle⟩
  · rw [ha] at ho
    obtain ho | ⟨ho, -⟩ := ho
    · obtain ⟨hn, hj⟩ := List.append_inj' (ho.trans (List.nil_append [j]).symm) rfl
      exact .inr ⟨hn, (List.singleton_inj.mp hj).le⟩
    · exact absurd (List.append_eq_nil_iff.mp ho).2 (List.cons_ne_nil _ _)

/-- What comes on the connection, and nothing else, is about the stream. -/
theorem Step.belongs_of_owns (h : Step s e s' out) (hp : Placed s tr)
    (hp' : Placed s' (tr ++ out)) (ho : s'.Owns key j (tr ++ out)) : s.Belongs key j e := by
  cases e with
  | stream cb =>
    intro i hi
    obtain ⟨st, hst, rfl⟩ := h.own_place hi
    have hm : st.index ∈ acceptedOf cb.cnx (tr ++ out) :=
      List.mem_of_getLast? (hp.last_step h hst)
    constructor
    · rintro rfl
      obtain ho | ⟨-, hle⟩ := ho
      · exact hp'.unique hm (by rw [ho]; exact List.mem_singleton_self _)
      · exact absurd (hp'.lt hm) hle.not_gt
    · rintro rfl
      obtain ho | ⟨ho, -⟩ := ho
      · rwa [ho, List.mem_singleton] at hm
      · rw [ho] at hm
        cases hm
  | app | accept | loop | resume => trivial

/-- What is known of the streams that the connection has opened, and of those that nobody has. -/
theorem Owns.elim {P : ℕ → Prop} (ho : s.Owns key j tr) (hown : ∀ i ∈ acceptedOf key tr, P i)
    (hfree : s.streams.length ≤ j → P j) : P j := by
  obtain ho | ⟨-, hle⟩ := ho
  · exact hown j (by rw [ho]; exact List.mem_singleton_self j)
  · exact hfree hle

/-! ## A stream that nobody has opened -/

theorem retZeroFor_free (hj : s.streams.length ≤ j) : s.RetZeroFor j e := by
  cases e with
  | resume ret =>
    rintro ⟨-, -, hne⟩
    rw [stream_free hj] at hne
    exact absurd rfl hne
  | app | accept | stream | loop => trivial

theorem room_free (hj : s.streams.length ≤ j) :
    (s.stream j).recvQ.buf.length < recvCapacity := by
  rw [stream_free hj]
  exact Nat.succ_pos _

theorem roomFor_free {keep : Bytes → Bool} (hj : s.streams.length ≤ j) : s.Room keep j e := by
  cases e with
  | stream cb => exact fun _ _ _ _ => room_free hj
  | app | accept | loop | resume => trivial

theorem Step.realRead_free (h : Step s e s' out) (hj : s.streams.length ≤ j) : e.RealRead j := by
  cases h with
  | @app i op b b' bout hb =>
    obtain ⟨hi, -⟩ := List.getElem?_eq_some_iff.mp hb
    cases op with
    | pollRead n => exact fun hij => absurd (hij ▸ hi) hj.not_gt
    | _ => trivial
  | _ => trivial

theorem Linked.endsStream_free (hl : Linked s) (hj : s.streams.length ≤ j) :
    ¬ s.EndsStream j e := by
  cases e with
  | stream cb =>
    rintro (⟨hown, hev⟩ | ⟨-, hi⟩)
    · obtain ⟨st, hst, rfl⟩ | ⟨-, ho⟩ := own_cases hown
      · exact absurd (hl.lt hst) hj.not_gt
      · obtain ⟨state, ho⟩ := Option.ne_none_iff_exists'.mp ho
        rw [(own_of_opened ho).2.1] at hev
        cases hev
    · obtain ⟨st, hst, rfl⟩ := Option.map_eq_some_iff.mp hi
      exact absurd (hl.lt hst) hj.not_gt
  | app | accept | loop | resume => exact id

end Server

namespace Duplex
variable {key : CnxPtr} {sid : UInt64} {j : ℕ} {s m s' : Duplex} {e : DuplexEvent}
  {es fs : List DuplexEvent} {tr out tr' : List DuplexObs}

/-- Stream `j` of the server is the connection's own, or may still become it. -/
def Owns (key : CnxPtr) (j : ℕ) (s : Duplex) (tr : List DuplexObs) : Prop :=
  s.server.Owns key j (serverTrace tr)

instance Owns.decidable (key : CnxPtr) (j : ℕ) (s : Duplex) (tr : List DuplexObs) :
    Decidable (s.Owns key j tr) := inferInstanceAs (Decidable (s.server.Owns key j _))

/-- Calls for the connection return zero, and what comes on it reaches a stream of its own and finds
room there. -/
def StaysOpen (key : CnxPtr) (sid : UInt64) (s : Duplex) (tr : List DuplexObs) :
    DuplexEvent → Prop
  | .client e => e.RetZero
  | .server e => ∀ j ∈ streams key tr, s.server.RetZeroFor j e
  | .deliverUp n => 0 < n → s.server.ownStream (s.upCallback key sid n) ≠ none ∧
      ∀ j ∈ streams key tr, (s.server.stream j).recvQ.buf.length < recvCapacity
  | .deliverDown n => 0 < n → s.client.bridge.recvQ.buf.length < recvCapacity

instance StaysOpen.decidable (key : CnxPtr) (sid : UInt64) (s : Duplex) (tr : List DuplexObs) :
    ∀ e, Decidable (s.StaysOpen key sid tr e)
  | .client e => inferInstanceAs (Decidable e.RetZero)
  | .server _ => inferInstanceAs (Decidable (∀ j ∈ streams key tr, _))
  | .deliverUp _ => inferInstanceAs (Decidable (_ → _ ∧ ∀ j ∈ streams key tr, _))
  | .deliverDown _ => inferInstanceAs (Decidable (_ → _ < _))

/-- The connection goes on, or ends, in good order: it stays open, the readers have room in their
buffers, what is pushed finds room in the queue, and an end comes when the other side has handed
over the FIN and all else that it handed over is delivered. -/
def InOrder (key : CnxPtr) (sid : UInt64) (s : Duplex) (tr : List DuplexObs) : DuplexEvent → Prop
  | .client e => e.RetZero ∧ e.RealRead ∧ s.client.Room (fun _ => true) e ∧
      (e.EndsStream → s.down = [] ∧ AddToStream.Fins sid (Server.addsOn key (serverTrace tr)))
  | .server e => ∀ j ∈ streams key tr, s.server.RetZeroFor j e ∧ e.RealRead j ∧
      s.server.Room (fun _ => true) j e ∧
      (s.server.EndsStream j e → s.up = [] ∧ AddToStream.Fins sid (Client.adds (clientTrace tr)))
  | .deliverUp n => 0 < n → s.server.ownStream (s.upCallback key sid n) ≠ none ∧
      ∀ j ∈ streams key tr, (s.server.stream j).recvQ.buf.length < recvCapacity
  | .deliverDown n => 0 < n → s.client.bridge.recvQ.buf.length < recvCapacity

instance InOrder.decidable (key : CnxPtr) (sid : UInt64) (s : Duplex) (tr : List DuplexObs) :
    ∀ e, Decidable (s.InOrder key sid tr e)
  | .client _ => inferInstanceAs (Decidable (_ ∧ _ ∧ _ ∧ (_ → _)))
  | .server _ => inferInstanceAs (Decidable (∀ j ∈ streams key tr, _ ∧ _ ∧ _ ∧ (_ → _)))
  | .deliverUp _ => inferInstanceAs (Decidable (_ → _ ∧ ∀ j ∈ streams key tr, _))
  | .deliverDown _ => inferInstanceAs (Decidable (_ → _ < _))

theorem Step.owns (h : Step key sid s e s' out) (hl : Server.Linked s.server)
    (ho : s'.Owns key j (tr ++ out)) : s.Owns key j tr := by
  unfold Owns at ho ⊢
  cases h with
  | client ce cout he hs hout hserver =>
    rwa [hout, serverTrace_append, serverTrace_map_client, List.append_nil, hserver] at ho
  | server se sout he hs hout =>
    rw [hout, serverTrace_append, serverTrace_map_server] at ho
    exact (Server.step_cases hs).owns hl ho

theorem linked_run (hr : (machine key sid).run init es = some (s, tr)) :
    Server.Linked s.server := by
  obtain ⟨gs, hgs⟩ := serverView.run hr
  exact Server.linked_run hgs

theorem placed_run (hr : (machine key sid).run init es = some (s, tr)) :
    Server.Placed s.server (serverTrace tr) := by
  obtain ⟨gs, hgs⟩ := serverView.run hr
  exact Server.placed_run hgs

theorem owns_before (hr : (machine key sid).run init es = some (m, tr))
    (hr' : (machine key sid).run m fs = some (s, tr')) (ho : s.Owns key j (tr ++ tr')) :
    m.Owns key j tr := by
  refine (Machine.run_induction (G := fun _ _ => True) (fun (t : Duplex) u =>
    (∃ gs, (machine key sid).run init gs = some (t, u)) ∧ (t.Owns key j u → m.Owns key j tr)) ?_
    hr' (Machine.Along.true _ _) ⟨⟨es, hr⟩, id⟩).2 ho
  rintro t u e t' out ⟨⟨gs, hgs⟩, hi⟩ - hs
  exact ⟨⟨gs ++ [e], Machine.run_step _ hgs hs⟩,
    fun ho => hi ((step_cases hs).owns (linked_run hgs) ho)⟩

/-- A guard along a run, as one on the stream that turns out to be the connection's. -/
theorem owned_along {G H : Duplex → List DuplexObs → DuplexEvent → Prop}
    (hGH : ∀ {s tr e s' out}, (machine key sid).step s e = some (s', out) →
      Server.Linked s.server → s.Owns key j tr →
      (∀ se, s.serverEvent key sid e = some se → s.server.Belongs key j se) → G s tr e → H s tr e)
    (hr : (machine key sid).run init es = some (s, tr))
    (hg : (machine key sid).AlongTrace G init [] es) (ho : s.Owns key j tr) :
    (machine key sid).AlongTrace H init [] es := by
  rw [Machine.alongTrace_iff hr] at hg ⊢
  intro es₁ e es₂ m tr₁ he h₁
  have hguard := hg es₁ e es₂ m tr₁ he h₁
  subst he
  obtain ⟨m', out, tr₂, hs, h₂, rfl⟩ := Machine.run_split hr h₁
  have hr' := Machine.run_step _ h₁ hs
  have ho' : m'.Owns key j (tr₁ ++ out) := owns_before hr' h₂ (by rwa [List.append_assoc])
  have hst := step_cases hs
  refine hGH hs (linked_run h₁) (hst.owns (linked_run h₁) ho') (fun se hse => ?_) hguard
  cases hst with
  | client ce cout he =>
    cases e with
    | client | deliverDown => cases hse
    | server | deliverUp => cases he
  | server se' sout he hs' hout =>
    rw [he, Option.some.injEq] at hse
    subst hse hout
    have hp' := placed_run hr'
    rw [serverTrace_append, serverTrace_map_server] at hp'
    rw [Owns, serverTrace_append, serverTrace_map_server] at ho'
    exact (Server.step_cases hs').belongs_of_owns (placed_run h₁) hp' ho'

theorem StaysOpen.on (ho : s.Owns key j tr)
    (hb : ∀ se, s.serverEvent key sid e = some se → s.server.Belongs key j se)
    (h : s.StaysOpen key sid tr e) : s.Open key sid j e := by
  cases e with
  | client e => exact h
  | server e => exact ⟨ho.elim h Server.retZeroFor_free, hb e rfl⟩
  | deliverUp n => exact ⟨hb _ rfl, fun hn => ⟨(h hn).1, ho.elim (h hn).2 Server.room_free⟩⟩
  | deliverDown n => exact h

theorem InOrder.on {r : Duplex × List DuplexObs} (hs : (machine key sid).step s e = some r)
    (hl : Server.Linked s.server) (ho : s.Owns key j tr)
    (hb : ∀ se, s.serverEvent key sid e = some se → s.server.Belongs key j se)
    (h : s.InOrder key sid tr e) : s.Orderly key sid j tr e := by
  cases e with
  | client e => exact h
  | server e =>
    obtain ⟨t, hst, -⟩ := Option.map_eq_some_iff.mp (Option.ite_none_right_eq_some.mp hs).2
    obtain ⟨hz, hrd, hroom, hend⟩ := ho.elim h fun hj =>
      ⟨Server.retZeroFor_free hj, (Server.step_cases hst).realRead_free hj,
        Server.roomFor_free hj, fun hc => absurd hc (hl.endsStream_free hj)⟩
    exact ⟨⟨hz, hb e rfl⟩, hrd, hroom, hend⟩
  | deliverUp n => exact ⟨hb _ rfl, fun hn => ⟨(h hn).1, ho.elim (h hn).2 Server.room_free⟩⟩
  | deliverDown n => exact h

theorem inOrder_run (hr : (machine key sid).run init es = some (s, tr))
    (hg : (machine key sid).AlongTrace (InOrder key sid) init [] es) (ho : s.Owns key j tr) :
    (machine key sid).AlongTrace (Orderly key sid j) init [] es :=
  owned_along (fun hs hl ho hb h => h.on hs hl ho hb) hr hg ho

end Duplex
end TransportProxy.Slipstream
