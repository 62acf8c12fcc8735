import TransportProxy.Server.Accept

/-! # A stream that stays open

`Steady j` is the guard of runs in which the peer keeps stream `j` open: the events of its
connection are stream_data events, they find room, and the calls of `picoquic_add_to_stream` for it
return zero. The packet loop then keeps its ends of the bridge, no end marker is offered, and every
entry that is taken from the send queue is handed over.
-/
namespace TransportProxy.Slipstream
open Foundations
set_option autoImplicit false

namespace Server

def Steady (j : ℕ) (s : Server) : ServerEvent → Prop
  | .stream cb => (∀ st ∈ s.streamOf cb.cnx, st.index = j → cb.event = .streamData) ∧
      s.Room (fun _ => true) j (.stream cb)
  | .resume ret => s.Hands j → ret = 0
  | _ => True

instance Steady.decidable (j : ℕ) (s : Server) : ∀ e, Decidable (s.Steady j e)
  | .stream cb => inferInstanceAs (Decidable ((∀ st ∈ s.streamOf cb.cnx, _) ∧ _))
  | .resume ret => inferInstanceAs (Decidable (s.Hands j → ret = 0))
  | .app _ _ | .accept | .loop _ _ _ => .isTrue trivial

theorem Steady.room {j : ℕ} {s : Server} {e : ServerEvent} (h : s.Steady j e) :
    s.Room (fun _ => true) j e := by
  cases e with
  | stream cb => exact h.2
  | app | accept | loop | resume => trivial

theorem Steady.retZero {j : ℕ} {s : Server} {e : ServerEvent} (h : s.Steady j e) :
    s.RetZeroFor j e := by
  cases e with
  | resume ret => exact h
  | app | accept | loop | stream => trivial

variable {j : ℕ}

theorem Step.live {s s' : Server} {e : ServerEvent} {out : List ServerObs} (h : Step s e s' out)
    (hl : Linked s) (hg : s.Steady j e) (hi : s.Live j) : s'.Live j := by
  cases h with
  | openEmpty hp ho | openChunk hp ho => exact (live_of_opened ho (by rfl) (by simp) j).mpr hi
  | @unlink cb conns hp hc hn =>
    rw [Live, connected_of_unlinked (s := s) (t := { s with connections := conns }) hc hn]
    exact hi
  | @unlinkStream cb conns st hp hc hst =>
    have hij : st.index ≠ j := by
      intro hij
      have he := hg.1 st hst hij
      simp [unlinked, he, PicoquicCallBackEvent.closes] at hc
    rw [Live, hl.connected_of_unlinkStream
      (t := { connections := conns, streams := (loopAt s.streams st.index .dropRecvTx).1
              acceptQ := s.acceptQ, pc := .dropSendRx st.index }) hc hst j]
    exact hi.imp (fun hc => ⟨hc, Ne.symm hij⟩) (by simp)
  | _ => exact (live_of_streams (by rfl) (by simp) j).mpr hi

theorem Step.clean {s s' : Server} {e : ServerEvent} {out : List ServerObs} (h : Step s e s' out)
    (hg : s.Steady j e) : [] ∉ pushes j out := by
  rw [pushes, h.callbacks]
  cases e with
  | stream cb =>
    intro hm
    obtain ⟨cb', hcb, hp⟩ := List.mem_filterMap.mp hm
    simp only [about, Option.mem_toList, Option.ite_none_right_eq_some, Option.some.injEq] at hcb
    obtain ⟨hown, rfl⟩ := hcb
    have he : cb.event = .streamData := by
      obtain ⟨st, hst, hij⟩ | ⟨-, ho⟩ := own_cases hown
      · exact hg.1 st hst hij
      · obtain ⟨state, ho⟩ := Option.ne_none_iff_exists'.mp ho
        exact (own_of_opened ho).2.1
    simp only [StreamCallback.serverPush, he] at hp
    exact StreamCallback.chunk_ne_nil hp rfl
  | app | accept | loop | resume => simp [about]

structure SteadyInv (s : Server) (j : ℕ) (tr : List ServerObs) : Prop where
  live : s.Live j
  clean : [] ∉ pushes j tr

theorem steadyInv_run {es : List ServerEvent} {s : Server} {tr : List ServerObs}
    (hr : machine.run init es = some (s, tr)) (hg : machine.Along (Steady j) init es) :
    SteadyInv s j tr := by
  refine (Machine.run_trace (fun (s : Server) tr => Linked s ∧ SteadyInv s j tr) ?_ hr hg
    ⟨.init, .inr (by simp [init]), by simp [pushes]⟩).2
  rintro s tr e s' out ⟨hl, hi⟩ hk hs
  have hst := step_cases hs
  refine ⟨hst.linked hl, hst.live hl hk hi.live, ?_⟩
  rw [pushes_append, List.mem_append]
  exact not_or.mpr ⟨hi.clean, hst.clean hk⟩

theorem SteadyInv.ends {s : Server} {tr : List ServerObs} (h : SteadyInv s j tr)
    (he : LoopEnds s j) : (s.stream j).recvQ.sender = true ∧
      (s.stream j).sendQ.receiver = true ∧ (s.stream j).wakeQ.sender = true :=
  ⟨he.recv.mpr h.live, he.send.mpr (.inl h.live), he.wake.mpr (.inl h.live)⟩

theorem received_clean {es : List ServerEvent} {s : Server} {tr : List ServerObs}
    (hr : machine.run init es = some (s, tr)) (hg : machine.Along (Steady j) init es) :
    [] ∉ received (bridgeTrace j tr) := by
  have hfront := (fed_run hr (hg.mono fun _ _ h => h.room)).fed.front
  rw [List.filter_true, List.filter_true] at hfront
  exact fun h => (steadyInv_run hr hg).clean (hfront.subset h)

theorem reads_clean {es : List ServerEvent} {s : Server} {tr : List ServerObs}
    (hr : machine.run init es = some (s, tr))
    (hg : machine.Along (fun s e => s.Steady j e ∧ e.RealRead j) init es) :
    [] ∉ reads (bridgeTrace j tr) := by
  have hgs := hg.mono fun _ _ h => h.1
  have hends := (steadyInv_run hr hgs).ends (loopEnds_run hr j)
  exact (markedLedger_run hr (hg.mono fun _ _ h => h.2)).nil_not_mem_reads hends.1
    (received_clean hr hgs)

end Server
end TransportProxy.Slipstream
