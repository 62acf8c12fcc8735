import TransportProxy.Foundations.Machine

/-! # States that a machine can go on to

`Leads G s tr t`: some events under the guard `G` take the machine from `s` to `t` with the trace
`tr`. Such runs compose, and `exists_leads_to` continues a run until a state of some kind is
reached, for a measure that the parts of the continuation lower.
-/
namespace TransportProxy.Foundations
set_option autoImplicit false

namespace Machine
variable {σ ε ο : Type} {M : Machine σ ε ο} {G H : σ → ε → Prop} {s t u : σ} {tr tr' : List ο}

def Leads (M : Machine σ ε ο) (G : σ → ε → Prop) (s : σ) (tr : List ο) (t : σ) : Prop :=
  ∃ es, M.run s es = some (t, tr) ∧ M.Along G s es

theorem Leads.refl (s : σ) : M.Leads G s [] s := ⟨[], rfl, trivial⟩

theorem Leads.single {e : ε} (h : M.step s e = some (t, tr)) (hg : G s e) : M.Leads G s tr t :=
  ⟨[e], (M.run_single_iff ..).mpr h, hg, by rw [h]; trivial⟩

theorem Leads.trans (h : M.Leads G s tr t) (h' : M.Leads G t tr' u) :
    M.Leads G s (tr ++ tr') u := by
  obtain ⟨es, hr, hg⟩ := h
  obtain ⟨fs, hr', hg'⟩ := h'
  exact ⟨es ++ fs, M.run_append hr hr', hg.concat hr hg'⟩

theorem Leads.mono (hGH : ∀ s e, G s e → H s e) (h : M.Leads G s tr t) : M.Leads H s tr t := by
  obtain ⟨es, hr, hg⟩ := h
  exact ⟨es, hr, hg.mono hGH⟩

/-- The induction rule. -/
theorem Leads.induction (I : σ → List ο → Prop)
    (hstep : ∀ s tr e s' out, I s tr → G s e → M.step s e = some (s', out) → I s' (tr ++ out))
    {b : List ο} (h : M.Leads G s tr t) (hi : I s b) : I t (b ++ tr) := by
  obtain ⟨es, hr, hg⟩ := h
  exact run_induction I hstep hr hg hi

theorem Leads.invariant (I : σ → Prop)
    (hstep : ∀ s e s' out, I s → G s e → M.step s e = some (s', out) → I s')
    (h : M.Leads G s tr t) (hi : I s) : I t :=
  h.induction (b := []) (fun s _ => I s) (fun s _ e s' out => hstep s e s' out) hi

/-- While `P` does not hold, the run can be continued within `I` to lower the measure: so it can be
continued to where `P` holds. -/
theorem exists_leads_to (I : σ → List ο → Prop) (P : σ → Prop) (m : σ → List ο → ℕ)
    (hstep : ∀ s tr, I s tr → ¬ P s →
      ∃ t out, M.Leads G s out t ∧ I t (tr ++ out) ∧ m t (tr ++ out) < m s tr)
    {b : List ο} (hi : I s b) :
    ∃ t tr, M.Leads G s tr t ∧ I t (b ++ tr) ∧ P t := by
  induction hn : m s b using Nat.strong_induction_on generalizing s b with
  | _ n ih =>
    by_cases hp : P s
    · exact ⟨s, [], .refl s, by rwa [List.append_nil], hp⟩
    · obtain ⟨t, out, hl, hi', hlt⟩ := hstep s b hi hp
      obtain ⟨u, tr, hl', hi'', hp'⟩ := ih _ (hn ▸ hlt) hi' rfl
      exact ⟨u, out ++ tr, hl.trans hl', by rwa [← List.append_assoc], hp'⟩

theorem exists_leads_to_state (I P : σ → Prop) (m : σ → ℕ)
    (hstep : ∀ s, I s → ¬ P s → ∃ t out, M.Leads G s out t ∧ I t ∧ m t < m s) (hi : I s) :
    ∃ t tr, M.Leads G s tr t ∧ I t ∧ P t :=
  exists_leads_to (fun s _ => I s) P (fun s _ => m s) (fun s _ => hstep s) (b := []) hi

end Machine
end TransportProxy.Foundations
