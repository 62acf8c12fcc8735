import TransportProxy.Foundations.Machine

/-! # The run that keeps some of the events

Two-run properties compare a run with the run of the events that a filter keeps. What is kept may
depend on the state and on the trace so far, and a kept event may be renamed on the way.

`kept_run` is the rule: a relation between the two states and the two traces, in which a dropped
event moves only the first machine and a kept one moves both, holds at the end of both runs.
-/
namespace TransportProxy.Foundations
set_option autoImplicit false

namespace Machine
variable {σ ε ο τ ζ ω : Type} (M : Machine σ ε ο) (N : Machine τ ζ ω)

/-- The kept events of a run from `s`, before which `tr` was shown. -/
def kept (keep : σ → List ο → ε → Option ζ) : σ → List ο → List ε → List ζ
  | _, _, [] => []
  | s, tr, e :: es =>
    match M.step s e with
    | none => []
    | some r => (keep s tr e).toList ++ kept keep r.1 (tr ++ r.2) es

variable {M N}

theorem kept_cons {keep : σ → List ο → ε → Option ζ} {s s' : σ} {e : ε} {out : List ο}
    (hs : M.step s e = some (s', out)) (tr : List ο) (es : List ε) :
    M.kept keep s tr (e :: es) = (keep s tr e).toList ++ M.kept keep s' (tr ++ out) es := by
  rw [kept, hs]

theorem kept_run {keep : σ → List ο → ε → Option ζ} (R : σ → List ο → τ → List ω → Prop)
    (hdrop : ∀ s tr t tr' e s' out, R s tr t tr' → M.step s e = some (s', out) →
      keep s tr e = none → R s' (tr ++ out) t tr')
    (hkeep : ∀ s tr t tr' e s' out d, R s tr t tr' → M.step s e = some (s', out) →
      keep s tr e = some d →
      ∃ t' out', N.step t d = some (t', out') ∧ R s' (tr ++ out) t' (tr' ++ out'))
    {s s' : σ} {es : List ε} {tr rest : List ο} {t : τ} {tr' : List ω}
    (hr : M.run s es = some (s', rest)) (h : R s tr t tr') :
    ∃ t' rest', N.run t (M.kept keep s tr es) = some (t', rest') ∧
      R s' (tr ++ rest) t' (tr' ++ rest') := by
  induction es generalizing s tr rest t tr' with
  | nil =>
    simp only [run_nil, Option.some.injEq, Prod.mk.injEq] at hr
    obtain ⟨rfl, rfl⟩ := hr
    refine ⟨t, [], rfl, ?_⟩
    rwa [List.append_nil, List.append_nil]
  | cons e es ih =>
    obtain ⟨m, out, rest, hs, hr', rfl⟩ := (M.run_cons_iff ..).mp hr
    rw [kept_cons hs, ← List.append_assoc]
    cases hk : keep s tr e with
    | none => exact ih hr' (hdrop s tr t tr' e m out h hs hk)
    | some d =>
      obtain ⟨u, out', hd, hu⟩ := hkeep s tr t tr' e m out d h hs hk
      obtain ⟨t', rest', ht, hR⟩ := ih hr' hu
      refine ⟨t', out' ++ rest', (N.run_cons_iff ..).mpr ⟨u, out', rest', hd, ht, rfl⟩, ?_⟩
      rwa [← List.append_assoc]

end Machine
end TransportProxy.Foundations
