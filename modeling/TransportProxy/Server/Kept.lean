import TransportProxy.Server.Routing
import TransportProxy.Server.Steady

/-! # A connection that keeps its stream open

`SteadyOn key` is the guard of runs in which a connection keeps the stream that it opens, whichever
this is. What other connections do is left open: their calls may fail, and they may be reset, closed
or replaced. The connection has one stream then, `indexOf key`, and this one is `Steady`.
-/
namespace TransportProxy.Slipstream
open Foundations
set_option autoImplicit false

namespace Server

/-- While the connection has a stream, data is all that comes on it, and finds room; and the calls
for the stream return zero. -/
def SteadyOn (key : CnxPtr) (s : Server) : ServerEvent → Prop
  | .stream cb => cb.cnx = key → (s.streamOf key ≠ none → cb.event = .streamData) ∧
      ∀ i ∈ s.ownStream cb, s.Room (fun _ => true) i (.stream cb)
  | .resume ret => ∀ st ∈ s.streamOf key, s.Hands st.index → ret = 0
  | _ => True

instance SteadyOn.decidable (key : CnxPtr) (s : Server) : ∀ e, Decidable (s.SteadyOn key e)
  | .stream cb => inferInstanceAs (Decidable (_ → _ ∧ ∀ i ∈ s.ownStream cb, _))
  | .resume _ => inferInstanceAs (Decidable (∀ st ∈ s.streamOf key, _))
  | .app _ _ | .accept | .loop _ _ _ => .isTrue trivial

/-- The stream of the connection, or the one that it gets if it opens the next. -/
def indexOf (key : CnxPtr) (s : Server) : ℕ :=
  ((s.streamOf key).map ServerStream.index).getD s.streams.length

/-- `j` may be the stream of the connection: it is, or it is not there yet. -/
def Fits (key : CnxPtr) (j : ℕ) (s : Server) : Prop :=
  (∀ st, s.streamOf key = some st → st.index = j) ∧
    (s.streamOf key = none → s.streams.length ≤ j)

variable {s s' : Server} {e : ServerEvent} {tr out : List ServerObs} {key : CnxPtr} {j : ℕ}

theorem fits_indexOf (key : CnxPtr) (s : Server) : Fits key (s.indexOf key) s := by
  constructor
  · intro st hst
    simp [indexOf, hst]
  · intro hn
    simp [indexOf, hn]

/-- No other connection has stream `j`. -/
theorem Fits.only (hf : Fits key j s) (hl : Linked s) {k : CnxPtr} {st : ServerStream}
    (hst : s.streamOf k = some st) (hj : st.index = j) : k = key := by
  cases hk : s.streamOf key with
  | some st' => exact hl.inj hst hk (hj.trans (hf.1 st' hk).symm)
  | none =>
    have hlt := hl.lt hst
    have hle := hf.2 hk
    omega

/-- The connection keeps the stream that it has. -/
theorem Step.streamOf_kept (h : Step s e s' out) (hg : s.SteadyOn key e) :
    s'.streamOf key = s.streamOf key ∨ s.streamOf key = none ∧ ∃ st,
      s'.streamOf key = some st ∧ st.index = s.streams.length := by
  obtain ⟨-, -, hl, -⟩ | ⟨cb, rfl, rfl, -, hentry⟩ := h.entry key
  · exact .inl (by rw [streamOf, hl]; rfl)
  · cases hentry with
    | unlink hu ha =>
      rw [streamOf_of_unlinked hu, if_pos rfl]
      by_cases hn : s.streamOf cb.cnx = none
      · exact .inl hn.symm
      · have he := (hg rfl).1 hn
        simp [unlinked, he, PicoquicCallBackEvent.closes] at hu
    | opened ho ha hc =>
      exact .inr ⟨streamOf_of_opened ho, _, by rw [streamOf_insert hc, if_pos rfl], rfl⟩
    | kept ho hu hc ha => exact .inl (by rw [streamOf, hc]; rfl)

theorem Step.fits (h : Step s e s' out) (hl : Linked s) (hg : s.SteadyOn key e)
    (hf : Fits key j s') : Fits key j s := by
  have hlen : s.streams.length ≤ s'.streams.length := (h.fresh hl le_rfl).1
  obtain heq | ⟨hn, st, hst, hi⟩ := h.streamOf_kept hg
  · exact ⟨fun st hst => hf.1 st (heq ▸ hst), fun hn => hlen.trans (hf.2 (heq ▸ hn))⟩
  · refine ⟨fun st' hst' => ?_, fun _ => (hi.symm.trans (hf.1 st hst)).le⟩
    rw [hn] at hst'
    cases hst'

/-- What comes on the connection is about its stream. -/
theorem Step.belongs (h : Step s e s' out) (hl : Linked s) (hg : s.SteadyOn key e)
    (hf' : Fits key j s') : s.Belongs key j e := by
  have hf := h.fits hl hg hf'
  cases e with
  | stream cb =>
    intro i hi
    obtain ⟨st, hst | hst, rfl⟩ := h.own_place hi
    · exact ⟨hf.only hl hst, fun hk => hf.1 st (hk ▸ hst)⟩
    · exact ⟨hf'.only (h.linked hl) hst, fun hk => hf'.1 st (hk ▸ hst)⟩
  | app | accept | loop | resume => trivial

theorem Step.steady (h : Step s e s' out) (hl : Linked s) (hk : Keyed s) (hg : s.SteadyOn key e)
    (hf' : Fits key j s') : s.Steady j e := by
  have hf := h.fits hl hg hf'
  cases e with
  | stream cb =>
    refine ⟨fun st hst hj => ?_, fun hown => ?_⟩
    · obtain hc := hf.only hl hst hj
      exact (hg hc).1 (by rw [← hc, hst]; exact nofun)
    · exact (hg ((h.belongs hl hg hf' j hown).mp rfl)).2 j hown hown
  | resume ret =>
    intro hh
    obtain ⟨hhead, -, -⟩ := id hh
    cases ht : s.pc.todo with
    | nil => simp [ht] at hhead
    | cons now todo =>
      simp only [ht, List.head?_cons, Option.map_some, Option.some.injEq] at hhead
      have hst := hk.todo now (by rw [ht]; exact List.mem_cons_self)
      have hkey := hf.only hl hst hhead
      exact hg now.2 (hkey ▸ hst) (hhead.symm ▸ hh)
  | app | accept | loop => trivial

end Server
end TransportProxy.Slipstream
