import TransportProxy.Client.Forward
import TransportProxy.Server.Forward
import TransportProxy.Tunnel.Conservation

/-! # A tunnel that goes on by itself

A tunnel that is open and `Ready` stays so under the steps that it can make without anybody's doing,
and under what the server does for other connections. What one end can do by itself, the tunnel can
do.
-/
namespace TransportProxy.Slipstream
open Foundations
set_option autoImplicit false

/-! ## The connection in the server's map -/

namespace Server
variable {s s' : Server} {e : ServerEvent} {out : List ServerObs} {key : CnxPtr} {sid : UInt64}

/-- Data on this stream of the connection finds its way: the connection is in the map, and has no
other stream there. -/
def Reached (key : CnxPtr) (sid : UInt64) (s : Server) : Prop :=
  ∃ state ∈ s.connections.lookup key, ∀ st ∈ state.stream, st.streamId = sid

instance Reached.decidable (key : CnxPtr) (sid : UInt64) (s : Server) :
    Decidable (Reached key sid s) :=
  inferInstanceAs (Decidable (∃ state ∈ s.connections.lookup key, ∀ st ∈ state.stream, _))

theorem Reached.own {cb : StreamCallback} (h : Reached cb.cnx cb.streamId s)
    (he : cb.event = .streamData) : s.ownStream cb ≠ none := by
  obtain ⟨state, hl, hid⟩ := h
  rw [Option.mem_def] at hl
  cases hst : state.stream with
  | none => simp [ownStream, hl, hst, he]
  | some st => simp [ownStream, hl, hst, hid st hst]

/-- Data of whichever connection leaves it so. -/
theorem Step.reached (h : Step s e s' out) (hid : e.GivesId key sid)
    (hd : ∀ cb, e = .stream cb → cb.event = .streamData) (hi : Reached key sid s) :
    Reached key sid s' := by
  obtain ⟨-, -, hl, -⟩ | ⟨cb, rfl, rfl, -, hentry⟩ := h.entry key
  · obtain ⟨state, hl', hst⟩ := hi
    exact ⟨state, hl.trans hl', hst⟩
  · have he := hd cb rfl
    cases hentry with
    | unlink hu => simp [unlinked, he, PicoquicCallBackEvent.closes] at hu
    | opened ho ha hc =>
      refine ⟨_, (congrArg (AList.lookup _) hc).trans (AList.lookup_insert _), fun st hst => ?_⟩
      obtain rfl := Option.some.inj hst
      exact hid he rfl
    | kept ho hu hc ha =>
      obtain ⟨state, hl, hst⟩ := hi
      exact ⟨state, hc ▸ hl, hst⟩

end Server

/-- A step that a tunnel can make without anybody's doing. -/
def TunnelEvent.Inner : TunnelEvent → Prop
  | .poll _ => True
  | .duplex (.client e) => e.Inner
  | .duplex (.server e) => e.Inner
  | .duplex (.deliverUp _) | .duplex (.deliverDown _) => True

theorem TunnelEvent.Inner.ofTask {de : DuplexEvent} (h : (TunnelEvent.duplex de).Inner) :
    de.ofTask = false := by
  cases de with
  | server e =>
    cases e with
    | app | stream => cases h
    | accept | loop | resume => rfl
  | client | deliverUp | deliverDown => rfl

namespace Tunnel
open Duplex
variable {key : CnxPtr} {sid : UInt64} {s s' : Tunnel} {e : TunnelEvent} {tr out : List DuplexObs}

/-- The application holds the stream, the client's connection is ready and its packet loop runs, and
the server knows the connection. Whether it has opened the stream is left open. -/
structure Ready (key : CnxPtr) (sid : UInt64) (s : Tunnel) : Prop where
  client : s.duplex.client.Working
  own : s.duplex.server.Reached key sid

/-- Nothing that ends the stream: the client goes on by itself, and what the server does with other
connections is to take in their data. -/
def Harmless : TunnelEvent → Prop
  | .duplex (.client e) => e.Inner
  | .duplex (.server e) => ∀ cb, e = .stream cb → cb.event = .streamData
  | .poll _ | .duplex (.deliverUp _) | .duplex (.deliverDown _) => True

theorem harmless_of_inner (h : e.Inner) : Harmless e := by
  cases e with
  | poll j => trivial
  | duplex de =>
    cases de with
    | client e => exact h
    | server e =>
      rintro cb rfl
      cases h
    | deliverUp | deliverDown => trivial

/-- The events of a tunnel that goes on by itself. -/
def Going (key : CnxPtr) (sid : UInt64) (s : Tunnel) (e : TunnelEvent) : Prop :=
  Open key sid s e ∧ e.Inner

theorem step_ready (h : (machine key sid).step s e = some (s', out)) (he : Harmless e)
    {ctr : List ClientObs} (hi : Client.Granted s.duplex.client ctr) (hr : Ready key sid s) :
    Ready key sid s' ∧ written out = [] := by
  cases Duplex.step_cases (step_cases h).1 with
  | client ce cout hce hs hout hserver =>
    have hf : ce.Forward := by
      cases e with
      | poll j => cases hce
      | duplex de =>
        cases de with
        | client e =>
          obtain rfl := Option.some.inj hce
          exact he.1
        | deliverDown n =>
          obtain rfl := Option.some.inj hce
          exact rfl
        | server | deliverUp => cases hce
    have hst := Client.step_cases hs
    refine ⟨⟨(hst.working hi hf hr.client).1, hserver ▸ hr.own⟩, ?_⟩
    rw [hout, written, clientTrace_map_client, hst.enqueued_nil hf]
  | server se sout hse hs hout hclient hid =>
    refine ⟨⟨hclient ▸ hr.client, (Server.step_cases hs).reached hid ?_ hr.own⟩, ?_⟩
    · rintro cb rfl
      cases e with
      | poll j => cases hse
      | duplex de =>
        cases de with
        | server e => exact he cb (Option.some.inj hse)
        | deliverUp n =>
          obtain rfl := ServerEvent.stream.inj (Option.some.inj hse)
          rfl
        | client | deliverDown => cases hse
    · rw [hout, written, clientTrace_map_server]
      rfl

/-- A state of an open tunnel that can go on. -/
structure At (key : CnxPtr) (sid : UInt64) (s : Tunnel) (tr : List DuplexObs) : Prop where
  leads : (machine key sid).Leads (Open key sid) init tr s
  ready : Ready key sid s

theorem At.granted (h : At key sid s tr) : Client.Granted s.duplex.client (clientTrace tr) := by
  obtain ⟨fs, hfs, hfg⟩ := duplex_leads h.leads (Server.fits_indexOf key s.duplex.server)
  obtain ⟨cs, hcs, hcz⟩ := Duplex.client_run (H := fun _ e => e.RetZero)
    (fun _ _ _ _ hs h he => (h.client hs he).1) hfs hfg
  exact Client.granted_run hcs hcz .init

theorem At.steady (h : At key sid s tr) :
    EchoServer.machine.Leads (EchoServer.Steady (s.index key)) .init (serverTrace tr) s.server :=
  server_leads_on h.leads (Server.fits_indexOf key s.duplex.server)

theorem At.step (h : At key sid s tr) (hs : (machine key sid).step s e = some (s', out))
    (ho : Open key sid s e) (he : Harmless e) :
    At key sid s' (tr ++ out) ∧ written out = [] := by
  obtain ⟨hready, hw⟩ := step_ready hs he h.granted h.ready
  exact ⟨⟨h.leads.trans (.single hs ho), hready⟩, hw⟩

/-- An inner step of the server, as one of the tunnel. -/
def lift : EchoEvent → TunnelEvent
  | .poll j => .poll j
  | .server e => .duplex (.server e)

end Tunnel
end TransportProxy.Slipstream
