import TransportProxy.Foundations.Machine

/-! # Forward simulation

A relation between the runs of one machine and the states of another one that every step of the
first keeps by a run of the second which shows the same. What the first one shows in a run is then
what the second one shows in a run of its own.
-/
namespace TransportProxy.Foundations
set_option autoImplicit false

namespace Machine
variable {σ ε ο τ ζ ω : Type} {M : Machine σ ε ο} {N : Machine τ ζ ω}
  {G : σ → List ο → ε → Prop} {s s' t : σ} {e : ε} {es : List ε} {tr out : List ο}

theorem AlongTrace.mono {H : σ → List ο → ε → Prop} (hGH : ∀ s tr e, G s tr e → H s tr e)
    (h : M.AlongTrace G s tr es) : M.AlongTrace H s tr es := by
  induction es generalizing s tr with
  | nil => trivial
  | cons e es ih =>
    obtain ⟨hhead, htail⟩ := h
    refine ⟨hGH s tr e hhead, ?_⟩
    cases hs : M.step s e with
    | none => trivial
    | some r =>
      rw [hs] at htail
      exact ih htail

theorem AlongTrace.concat {before : List ο} (h : M.AlongTrace G s before es)
    (hr : M.run s es = some (t, tr)) (hg : G t (before ++ tr) e) :
    M.AlongTrace G s before (es ++ [e]) := by
  induction es generalizing s before tr with
  | nil =>
    obtain ⟨rfl, rfl⟩ := Prod.mk.inj (Option.some.inj hr)
    rw [List.append_nil] at hg
    refine ⟨hg, ?_⟩
    cases M.step s e <;> trivial
  | cons d es ih =>
    obtain ⟨m, out, rest, hs, hr', rfl⟩ := (M.run_cons_iff ..).mp hr
    obtain ⟨hhead, htail⟩ := h
    rw [hs] at htail
    refine ⟨hhead, ?_⟩
    rw [hs]
    exact ih htail hr' (by rwa [List.append_assoc])

/-- A guarded run leads from `s` to `t` with this trace. -/
def Reaches (M : Machine σ ε ο) (G : σ → List ο → ε → Prop) (s : σ) (tr : List ο) (t : σ) : Prop :=
  ∃ es, M.run s es = some (t, tr) ∧ M.AlongTrace G s [] es

theorem Reaches.refl (s : σ) : M.Reaches G s [] s := ⟨[], rfl, trivial⟩

theorem Reaches.step (h : M.Reaches G s tr t) (hs : M.step t e = some (s', out)) (hg : G t tr e) :
    M.Reaches G s (tr ++ out) s' := by
  obtain ⟨es, hr, hes⟩ := h
  exact ⟨es ++ [e], M.run_step hr hs, hes.concat hr hg⟩

/-- The simulation rule. -/
theorem run_simulates {obs : ο → Option ω} (R : σ → List ο → τ → Prop) {u : τ} (h0 : R s [] u)
    (hstep : ∀ m tr e m' out v, M.Reaches G s tr m → R m tr v → G m tr e →
      M.step m e = some (m', out) →
      ∃ fs v', N.run v fs = some (v', out.filterMap obs) ∧ R m' (tr ++ out) v')
    (hr : M.run s es = some (t, tr)) (hg : M.AlongTrace G s [] es) :
    ∃ fs v, N.run u fs = some (v, tr.filterMap obs) ∧ R t tr v := by
  have hall := M.run_along_trace
    (fun m tr => M.Reaches G s tr m ∧ ∃ fs v, N.run u fs = some (v, tr.filterMap obs) ∧ R m tr v)
    ?_ hr hg ⟨.refl s, [], u, rfl, h0⟩
  · exact hall.2
  · rintro m tr e m' out ⟨hm, fs, v, hfs, hv⟩ hgm hs
    obtain ⟨gs, v', hgs, hv'⟩ := hstep m tr e m' out v hm hv hgm hs
    refine ⟨hm.step hs hgm, fs ++ gs, v', ?_, hv'⟩
    rw [List.filterMap_append]
    exact N.run_append hfs hgs

end Machine
end TransportProxy.Foundations
