import TransportProxy.Foundations.Leads

/-! # One machine seen inside another

A view of `N` in `M` takes each event of `M` to one of `N` or to none, with the state and the
observations that belong to `N`. A run of `M` is then one of `N`, under any guard that the events
have there.
-/
namespace TransportProxy.Foundations
set_option autoImplicit false

namespace Machine

structure View {σ ε ο τ ζ ω : Type} (M : Machine σ ε ο) (N : Machine τ ζ ω) where
  state : σ → τ
  obs : ο → Option ω
  event : σ → ε → Option ζ
  sound : ∀ s e s' out, M.step s e = some (s', out) →
    (event s e = none ∧ state s' = state s ∧ out.filterMap obs = []) ∨
      ∃ f, event s e = some f ∧ N.step (state s) f = some (state s', out.filterMap obs)

namespace View
variable {σ ε ο τ ζ ω : Type} {M : Machine σ ε ο} {N : Machine τ ζ ω}
  {s t : σ} {tr : List ο} {es : List ε} {G : σ → ε → Prop} {H : τ → ζ → Prop}

theorem leads (V : View M N)
    (hGH : ∀ s e f r, M.step s e = some r → G s e → V.event s e = some f → H (V.state s) f)
    (h : M.Leads G s tr t) : N.Leads H (V.state s) (tr.filterMap V.obs) (V.state t) := by
  have hi := h.induction (b := [])
    (fun u tr => N.Leads H (V.state s) (tr.filterMap V.obs) (V.state u)) ?_ (.refl _)
  · exact hi
  · intro u tr e u' out hl hg hs
    obtain ⟨-, hu, ho⟩ | ⟨f, hf, hs'⟩ := V.sound u e u' out hs
    · rw [List.filterMap_append, ho, List.append_nil, hu]
      exact hl
    · rw [List.filterMap_append]
      exact hl.trans (.single hs' (hGH u e f _ hs hg hf))

/-- A guarded run, under the guard that its events have in the view. -/
theorem run_along (V : View M N)
    (hGH : ∀ s e f r, M.step s e = some r → G s e → V.event s e = some f → H (V.state s) f)
    (hr : M.run s es = some (t, tr)) (hg : M.Along G s es) :
    ∃ fs, N.run (V.state s) fs = some (V.state t, tr.filterMap V.obs) ∧
      N.Along H (V.state s) fs :=
  V.leads hGH ⟨es, hr, hg⟩

theorem run (V : View M N) (hr : M.run s es = some (t, tr)) :
    ∃ fs, N.run (V.state s) fs = some (V.state t, tr.filterMap V.obs) := by
  obtain ⟨fs, hfs, -⟩ := V.run_along (H := fun _ _ => True) (fun _ _ _ _ _ _ _ => trivial) hr
    (Along.true _ _)
  exact ⟨fs, hfs⟩

/-- And under a guard that looks at the trace. -/
theorem run_alongTrace (V : View M N) {G : σ → List ο → ε → Prop} {H : τ → List ω → ζ → Prop}
    (hGH : ∀ s tr e f r, M.step s e = some r → G s tr e → V.event s e = some f →
      H (V.state s) (tr.filterMap V.obs) f) {before : List ο}
    (hr : M.run s es = some (t, tr)) (hg : M.AlongTrace G s before es) :
    ∃ fs, N.run (V.state s) fs = some (V.state t, tr.filterMap V.obs) ∧
      N.AlongTrace H (V.state s) (before.filterMap V.obs) fs := by
  induction es generalizing s before tr with
  | nil =>
    obtain ⟨rfl, rfl⟩ := Prod.mk.inj (Option.some.inj hr)
    exact ⟨[], rfl, trivial⟩
  | cons e es ih =>
    obtain ⟨s', out, rest, hs, hr', rfl⟩ := (M.run_cons_iff ..).mp hr
    obtain ⟨hhead, htail⟩ := hg
    rw [hs] at htail
    obtain ⟨fs, hfs, hfg⟩ := ih hr' htail
    rw [List.filterMap_append] at hfg ⊢
    obtain ⟨-, hu, ho⟩ | ⟨f, hf, hs'⟩ := V.sound s e s' out hs
    · rw [ho, List.append_nil] at hfg
      rw [ho, List.nil_append, ← hu]
      exact ⟨fs, hfs, hfg⟩
    · exact ⟨f :: fs, (N.run_cons_iff ..).mpr ⟨_, _, _, hs', hfs, rfl⟩,
        hGH s before e f _ hs hhead hf, by rwa [hs']⟩

end View

end Machine
end TransportProxy.Foundations
