import Mathlib.Algebra.GroupWithZero.Nat
import Mathlib.Data.List.Basic
import Mathlib.Data.List.Infix

/-! # Executable machines with an observable trace

A `Machine` takes one event at a time and is partial: `none` means the event cannot happen in that
state. Each step lists what can be observed of it, and `run` concatenates these into the trace of a
whole run, so a property of a run is a property of its last state and its trace.

* `run_induction`: a relation between state and trace that every step keeps holds after every run.
* `Along G`: the pre-state and the event of every step of a run satisfy `G`. The induction rule
  takes such a guard, for laws that hold only while the environment respects a condition.
  `AlongTrace` is for conditions that depend on the trace as well.
* `Projection`: every step of one machine is a run of another, seen through a map of states and a
  filter of observations. Whole runs then project as well, and invariants come back along it.
-/
namespace TransportProxy.Foundations
set_option autoImplicit false

/-- What a filter makes of a trace is found one observation at a time. -/
theorem filterMap_cons_toList {ο ω : Type} (f : ο → Option ω) (o : ο) (tr : List ο) :
    (o :: tr).filterMap f = (f o).toList ++ tr.filterMap f := by
  rw [List.filterMap_cons]
  cases f o <;> rfl

/-- A filter finds nothing among observations of another kind. -/
theorem filterMap_map_none {α ο ω : Type} {f : ο → Option ω} {g : α → ο}
    (h : ∀ a, f (g a) = none) (l : List α) : (l.map g).filterMap f = [] := by
  rw [List.filterMap_map]
  exact List.filterMap_eq_nil_iff.mpr fun a _ => h a

/-- An element of an appended list lies in the first part or in the second. -/
theorem append_eq_split {α : Type} {xs ys pre suf : List α} {a : α}
    (h : xs ++ ys = pre ++ a :: suf) :
    (∃ mid, xs = pre ++ a :: mid ∧ suf = mid ++ ys) ∨
      ∃ mid, pre = xs ++ mid ∧ ys = mid ++ a :: suf := by
  obtain ⟨mid, h₁, h₂⟩ | ⟨mid, h₁, h₂⟩ := List.append_eq_append_iff.mp h
  · exact .inr ⟨mid, h₁, h₂⟩
  · obtain ⟨rfl, h₂⟩ | ⟨mid, rfl, h₂⟩ := List.cons_eq_append_iff.mp h₂
    · exact .inr ⟨[], by simpa using h₁.symm, h₂.symm⟩
    · exact .inl ⟨mid, h₁, (List.cons.inj h₂).2⟩

/-- A sum over a list of which one entry changes. -/
theorem sum_set_map {α : Type} (f : α → ℕ) {l : List α} {i : ℕ} {a : α} (h : l[i]? = some a)
    (b : α) : ((l.set i b).map f).sum + f a = (l.map f).sum + f b := by
  induction l generalizing i with
  | nil => cases h
  | cons x l ih =>
    cases i with
    | zero =>
      obtain rfl : x = a := Option.some.inj h
      simp only [List.set_cons_zero, List.map_cons, List.sum_cons]
      omega
    | succ i =>
      have hi := ih (i := i) h
      simp only [List.set_cons_succ, List.map_cons, List.sum_cons]
      omega

/-- A partial transition function with observations. -/
structure Machine (σ ε ο : Type) where
  step : σ → ε → Option (σ × List ο)

namespace Machine
variable {σ ε ο τ ζ ω : Type} (M : Machine σ ε ο)

def run : σ → List ε → Option (σ × List ο)
  | s, [] => some (s, [])
  | s, e :: es =>
    match M.step s e with
    | none => none
    | some r => (run r.1 es).map fun q => (q.1, r.2 ++ q.2)

@[simp] theorem run_nil (s : σ) : M.run s [] = some (s, []) := rfl

theorem run_cons_iff (s t : σ) (e : ε) (es : List ε) (tr : List ο) :
    M.run s (e :: es) = some (t, tr) ↔ ∃ s' out rest,
      M.step s e = some (s', out) ∧ M.run s' es = some (t, rest) ∧ tr = out ++ rest := by
  rw [run]
  cases hs : M.step s e with
  | none => simp
  | some r =>
    obtain ⟨s', out⟩ := r
    constructor
    · intro h
      obtain ⟨⟨t', rest⟩, hr, he⟩ := Option.map_eq_some_iff.mp h
      simp only [Prod.mk.injEq] at he
      obtain ⟨rfl, rfl⟩ := he
      exact ⟨s', out, rest, rfl, hr, rfl⟩
    · rintro ⟨s₁, out₁, rest, h₁, hr, rfl⟩
      simp only [Option.some.injEq, Prod.mk.injEq] at h₁
      obtain ⟨rfl, rfl⟩ := h₁
      simp [hr]

theorem run_append_iff (s t : σ) (es fs : List ε) (tr : List ο) :
    M.run s (es ++ fs) = some (t, tr) ↔ ∃ m tr₁ tr₂,
      M.run s es = some (m, tr₁) ∧ M.run m fs = some (t, tr₂) ∧ tr = tr₁ ++ tr₂ := by
  induction es generalizing s tr with
  | nil =>
    constructor
    · intro h
      exact ⟨s, [], tr, rfl, h, rfl⟩
    · rintro ⟨m, tr₁, tr₂, h₁, h₂, rfl⟩
      simp only [run_nil, Option.some.injEq, Prod.mk.injEq] at h₁
      obtain ⟨rfl, rfl⟩ := h₁
      exact h₂
  | cons e es ih =>
    rw [List.cons_append, run_cons_iff]
    constructor
    · rintro ⟨s', out, rest, hs, hr, rfl⟩
      obtain ⟨m, tr₁, tr₂, h₁, h₂, rfl⟩ := (ih s' rest).mp hr
      exact ⟨m, out ++ tr₁, tr₂, (M.run_cons_iff s m e es _).mpr ⟨s', out, tr₁, hs, h₁, rfl⟩, h₂,
        (List.append_assoc ..).symm⟩
    · rintro ⟨m, tr₁, tr₂, h₁, h₂, rfl⟩
      obtain ⟨s', out, rest, hs, hr, rfl⟩ := (M.run_cons_iff s m e es tr₁).mp h₁
      exact ⟨s', out, rest ++ tr₂, hs, (ih s' _).mpr ⟨m, rest, tr₂, hr, h₂, rfl⟩,
        List.append_assoc ..⟩

theorem run_single_iff (s t : σ) (e : ε) (tr : List ο) :
    M.run s [e] = some (t, tr) ↔ M.step s e = some (t, tr) := by
  rw [run_cons_iff]
  constructor
  · rintro ⟨s', out, rest, hs, hr, rfl⟩
    simp only [run_nil, Option.some.injEq, Prod.mk.injEq] at hr
    obtain ⟨rfl, rfl⟩ := hr
    rw [List.append_nil, hs]
  · intro h
    exact ⟨t, tr, [], h, rfl, (List.append_nil tr).symm⟩

theorem run_append {s m t : σ} {es fs : List ε} {tr₁ tr₂ : List ο}
    (h₁ : M.run s es = some (m, tr₁)) (h₂ : M.run m fs = some (t, tr₂)) :
    M.run s (es ++ fs) = some (t, tr₁ ++ tr₂) :=
  (M.run_append_iff ..).mpr ⟨m, tr₁, tr₂, h₁, h₂, rfl⟩

theorem run_step {s m t : σ} {es : List ε} {e : ε} {tr out : List ο}
    (hr : M.run s es = some (m, tr)) (hs : M.step m e = some (t, out)) :
    M.run s (es ++ [e]) = some (t, tr ++ out) :=
  M.run_append hr ((M.run_single_iff ..).mpr hs)

/-! ## Guarded runs -/

/-- Every event of `es` meets `G` in the state in which it happens. -/
def Along (G : σ → ε → Prop) : σ → List ε → Prop
  | _, [] => True
  | s, e :: es => G s e ∧
    match M.step s e with
    | none => True
    | some r => Along G r.1 es

instance Along.decidable (G : σ → ε → Prop) [∀ s e, Decidable (G s e)] :
    ∀ s es, Decidable (M.Along G s es)
  | _, [] => inferInstanceAs (Decidable True)
  | s, e :: es =>
    have : Decidable (match M.step s e with
        | none => True
        | some r => M.Along G r.1 es) :=
      match M.step s e with
      | none => inferInstanceAs (Decidable True)
      | some r => Along.decidable G r.1 es
    inferInstanceAs (Decidable (G s e ∧ _))

variable {M}

theorem Along.head {G : σ → ε → Prop} {s : σ} {e : ε} {es : List ε}
    (h : M.Along G s (e :: es)) : G s e := h.1

theorem Along.tail {G : σ → ε → Prop} {s s' : σ} {e : ε} {es : List ε} {out : List ο}
    (h : M.Along G s (e :: es)) (hs : M.step s e = some (s', out)) : M.Along G s' es := by
  have h' := h.2
  rw [hs] at h'
  exact h'

theorem Along.mono {G H : σ → ε → Prop} (hGH : ∀ s e, G s e → H s e) {s : σ} {es : List ε}
    (h : M.Along G s es) : M.Along H s es := by
  induction es generalizing s with
  | nil => trivial
  | cons e es ih =>
    refine ⟨hGH s e h.1, ?_⟩
    have h' := h.2
    cases hs : M.step s e with
    | none => trivial
    | some r =>
      rw [hs] at h'
      exact ih h'

theorem Along.and {G H : σ → ε → Prop} {s : σ} {es : List ε} (hG : M.Along G s es)
    (hH : M.Along H s es) : M.Along (fun s e => G s e ∧ H s e) s es := by
  induction es generalizing s with
  | nil => trivial
  | cons e es ih =>
    refine ⟨⟨hG.1, hH.1⟩, ?_⟩
    have hG' := hG.2
    have hH' := hH.2
    cases hs : M.step s e with
    | none => trivial
    | some r =>
      rw [hs] at hG' hH'
      exact ih hG' hH'

theorem Along.true (s : σ) (es : List ε) : M.Along (fun _ _ => True) s es := by
  induction es generalizing s with
  | nil => trivial
  | cons e es ih =>
    refine ⟨trivial, ?_⟩
    cases M.step s e with
    | none => trivial
    | some r => exact ih r.1

theorem Along.of_forall {G : ε → Prop} {es : List ε} (h : ∀ e ∈ es, G e) {s : σ} :
    M.Along (fun _ e => G e) s es := by
  induction es generalizing s with
  | nil => trivial
  | cons e es ih =>
    refine ⟨h e List.mem_cons_self, ?_⟩
    cases M.step s e with
    | none => trivial
    | some r => exact ih fun d hd => h d (List.mem_cons_of_mem _ hd)

theorem Along.append {G : σ → ε → Prop} {s m : σ} {es fs : List ε} {tr : List ο}
    (hr : M.run s es = some (m, tr)) (h : M.Along G s (es ++ fs)) :
    M.Along G s es ∧ M.Along G m fs := by
  induction es generalizing s tr with
  | nil =>
    simp only [run_nil, Option.some.injEq, Prod.mk.injEq] at hr
    obtain ⟨rfl, rfl⟩ := hr
    exact ⟨trivial, h⟩
  | cons e es ih =>
    obtain ⟨s', out, rest, hs, hr', rfl⟩ := (M.run_cons_iff ..).mp hr
    have ht : M.Along G s' (es ++ fs) := Along.tail h hs
    obtain ⟨h₁, h₂⟩ := ih hr' ht
    refine ⟨⟨h.head, ?_⟩, h₂⟩
    rw [hs]
    exact h₁

theorem Along.concat {G : σ → ε → Prop} {s m : σ} {es fs : List ε} {tr : List ο}
    (hr : M.run s es = some (m, tr)) (h₁ : M.Along G s es) (h₂ : M.Along G m fs) :
    M.Along G s (es ++ fs) := by
  induction es generalizing s tr with
  | nil =>
    simp only [run_nil, Option.some.injEq, Prod.mk.injEq] at hr
    obtain ⟨rfl, rfl⟩ := hr
    exact h₂
  | cons e es ih =>
    obtain ⟨s', out, rest, hs, hr', rfl⟩ := (M.run_cons_iff ..).mp hr
    refine ⟨h₁.head, ?_⟩
    rw [hs]
    exact ih hr' (h₁.tail hs)

/-! ## Induction over a run -/

/-- The induction rule: `I` relates the state to the whole trace so far. -/
theorem run_induction {G : σ → ε → Prop} (I : σ → List ο → Prop)
    (hstep : ∀ s tr e s' out, I s tr → G s e → M.step s e = some (s', out) → I s' (tr ++ out))
    {s t : σ} {es : List ε} {before tr : List ο} (hr : M.run s es = some (t, tr))
    (hg : M.Along G s es) (hi : I s before) : I t (before ++ tr) := by
  induction es generalizing s before tr with
  | nil =>
    simp only [run_nil, Option.some.injEq, Prod.mk.injEq] at hr
    obtain ⟨rfl, rfl⟩ := hr
    rwa [List.append_nil]
  | cons e es ih =>
    obtain ⟨s', out, rest, hs, hr', rfl⟩ := (M.run_cons_iff ..).mp hr
    rw [← List.append_assoc]
    exact ih hr' (hg.tail hs) (hstep s before e s' out hi hg.head hs)

theorem run_trace {G : σ → ε → Prop} (I : σ → List ο → Prop)
    (hstep : ∀ s tr e s' out, I s tr → G s e → M.step s e = some (s', out) → I s' (tr ++ out))
    {s t : σ} {es : List ε} {tr : List ο} (hr : M.run s es = some (t, tr))
    (hg : M.Along G s es) (hi : I s []) : I t tr := run_induction I hstep hr hg hi

theorem run_invariant {G : σ → ε → Prop} (I : σ → Prop)
    (hstep : ∀ s e s' out, I s → G s e → M.step s e = some (s', out) → I s')
    {s t : σ} {es : List ε} {tr : List ο} (hr : M.run s es = some (t, tr))
    (hg : M.Along G s es) (hi : I s) : I t :=
  run_trace (fun s _ => I s) (fun s _ e s' out => hstep s e s' out) hr hg hi

/-- The rule for a step that may look at the whole run before it. -/
theorem run_prefix {G : σ → ε → Prop} {s t : σ} (I : σ → List ο → Prop)
    (hstep : ∀ es m tr e m' out, M.run s es = some (m, tr) → M.Along G s es → I m tr → G m e →
      M.step m e = some (m', out) → I m' (tr ++ out))
    {es : List ε} {tr : List ο} (hr : M.run s es = some (t, tr)) (hg : M.Along G s es)
    (hi : I s []) : I t tr := by
  refine (run_trace (fun m tr => (∃ es, M.run s es = some (m, tr) ∧ M.Along G s es) ∧ I m tr) ?_
    hr hg ⟨⟨[], rfl, trivial⟩, hi⟩).2
  rintro m tr e m' out ⟨⟨es, hm, ha⟩, hi⟩ hk hs
  exact ⟨⟨es ++ [e], M.run_step hm hs, ha.concat hm ⟨hk, by rw [hs]; trivial⟩⟩,
    hstep es m tr e m' out hm ha hi hk hs⟩

/-- A guard that an invariant of the run turns into another one. -/
theorem Along.strengthen {G H : σ → ε → Prop} (I : σ → Prop)
    (hstep : ∀ s e s' out, I s → G s e → M.step s e = some (s', out) → I s')
    (hH : ∀ s e, I s → G s e → H s e) {s : σ} {es : List ε} (hg : M.Along G s es) (hi : I s) :
    M.Along H s es := by
  induction es generalizing s with
  | nil => trivial
  | cons e es ih =>
    refine ⟨hH s e hi hg.head, ?_⟩
    cases hs : M.step s e with
    | none => trivial
    | some r =>
      have ht : M.Along G r.1 es := hg.tail hs
      exact ih ht (hstep s e r.1 r.2 hi hg.head hs)

/-- Guards that agree on the steps a run makes. -/
theorem Along.congr {G H : σ → ε → Prop} (I : σ → Prop)
    (hstep : ∀ s e s' out, I s → M.step s e = some (s', out) → I s')
    (hGH : ∀ s e s' out, I s → M.step s e = some (s', out) → (G s e ↔ H s e)) {s t : σ}
    {es : List ε} {tr : List ο} (hr : M.run s es = some (t, tr)) (hi : I s) :
    M.Along G s es ↔ M.Along H s es := by
  induction es generalizing s tr with
  | nil => exact Iff.rfl
  | cons e es ih =>
    obtain ⟨s', out, rest, hs, hr', rfl⟩ := (M.run_cons_iff ..).mp hr
    rw [Along, Along, hs]
    exact and_congr (hGH s e s' out hi hs) (ih hr' (hstep s e s' out hi hs))

/-- The same event over and over, as long as each step leads from `P k` to `P (k + 1)`. -/
theorem run_replicate {n : ℕ} {s : σ} {e : ε} (P : ℕ → σ → List ο → Prop) (h0 : P 0 s [])
    (hstep : ∀ k m tr, k < n → P k m tr →
      ∃ m' out, M.step m e = some (m', out) ∧ P (k + 1) m' (tr ++ out)) :
    ∃ t tr, M.run s (List.replicate n e) = some (t, tr) ∧ P n t tr := by
  induction n with
  | zero => exact ⟨s, [], rfl, h0⟩
  | succ n ih =>
    obtain ⟨m, tr, hr, hm⟩ := ih fun k m tr hk => hstep k m tr (Nat.lt_succ_of_lt hk)
    obtain ⟨t, out, hs, ht⟩ := hstep n m tr (Nat.lt_succ_self n) hm
    rw [List.replicate_succ']
    exact ⟨t, tr ++ out, M.run_step hr hs, ht⟩

/-- A machine whose steps lower a measure comes to a stop. -/
theorem exists_stop (I : σ → Prop) (m : σ → ℕ)
    (hstep : ∀ s e s' out, I s → M.step s e = some (s', out) → I s' ∧ m s' < m s) {s : σ}
    (hi : I s) : ∃ es t tr, M.run s es = some (t, tr) ∧ ∀ e, M.step t e = none := by
  induction hn : m s using Nat.strong_induction_on generalizing s with
  | _ n ih =>
    by_cases hstop : ∀ e, M.step s e = none
    · exact ⟨[], s, [], rfl, hstop⟩
    · obtain ⟨e, he⟩ := not_forall.mp hstop
      obtain ⟨⟨s', out⟩, hs⟩ := Option.ne_none_iff_exists'.mp he
      obtain ⟨hi', hlt⟩ := hstep s e s' out hi hs
      obtain ⟨es, t, tr, hr, ht⟩ := ih (m s') (hn ▸ hlt) hi' rfl
      exact ⟨e :: es, t, out ++ tr, (M.run_cons_iff ..).mpr ⟨s', out, tr, hs, hr, rfl⟩, ht⟩

/-- `P` lasts from step to step until `D` is seen or `L` holds for good. -/
theorem run_until {I P L : σ → Prop} {D : List ο → Prop} (happ : ∀ t u, D t ∨ D u → D (t ++ u))
    (hI : ∀ s e s' out, I s → M.step s e = some (s', out) → I s')
    (hL : ∀ s e s' out, L s → M.step s e = some (s', out) → L s')
    (hP : ∀ s e s' out, I s → P s → M.step s e = some (s', out) → D out ∨ L s' ∨ P s')
    {s t : σ} {es : List ε} {tr : List ο} (hr : M.run s es = some (t, tr)) (hi : I s)
    (hp : P s) : D tr ∨ L t ∨ P t := by
  induction es generalizing s tr with
  | nil =>
    simp only [run_nil, Option.some.injEq, Prod.mk.injEq] at hr
    obtain ⟨rfl, rfl⟩ := hr
    exact .inr (.inr hp)
  | cons e es ih =>
    obtain ⟨s', out, rest, hs, hr', rfl⟩ := (M.run_cons_iff ..).mp hr
    obtain hd | hl | hp' := hP s e s' out hi hp hs
    · exact .inl (happ _ _ (.inl hd))
    · refine .inr (.inl ?_)
      exact run_invariant L (fun s e s' out h _ hs => hL s e s' out h hs) hr' (Along.true _ _) hl
    · exact (ih hr' (hI s e s' out hi hs) hp').imp (fun h => happ _ _ (.inr h)) id

/-! ## Guards that look at the trace -/

/-- Every event of `es` meets `G` in the state and after the trace before it. -/
def AlongTrace (M : Machine σ ε ο) (G : σ → List ο → ε → Prop) : σ → List ο → List ε → Prop
  | _, _, [] => True
  | s, tr, e :: es => G s tr e ∧
    match M.step s e with
    | none => True
    | some r => AlongTrace M G r.1 (tr ++ r.2) es

instance AlongTrace.decidable (G : σ → List ο → ε → Prop) [∀ s tr e, Decidable (G s tr e)] :
    ∀ s tr es, Decidable (M.AlongTrace G s tr es)
  | _, _, [] => inferInstanceAs (Decidable True)
  | s, tr, e :: es =>
    have : Decidable (match M.step s e with
        | none => True
        | some r => M.AlongTrace G r.1 (tr ++ r.2) es) :=
      match M.step s e with
      | none => inferInstanceAs (Decidable True)
      | some r => AlongTrace.decidable G r.1 (tr ++ r.2) es
    inferInstanceAs (Decidable (G s tr e ∧ _))

theorem Along.alongTrace {G : σ → ε → Prop} {s : σ} {es : List ε} (h : M.Along G s es)
    (tr : List ο) : M.AlongTrace (fun s _ e => G s e) s tr es := by
  induction es generalizing s tr with
  | nil => trivial
  | cons e es ih =>
    refine ⟨h.1, ?_⟩
    have h' := h.2
    cases hs : M.step s e with
    | none => trivial
    | some r =>
      rw [hs] at h'
      exact ih h' (tr ++ r.2)

/-- What such a guard says whatever the trace. -/
theorem AlongTrace.along {G : σ → List ο → ε → Prop} {H : σ → ε → Prop}
    (hGH : ∀ s tr e, G s tr e → H s e) {s : σ} {tr : List ο} {es : List ε}
    (h : M.AlongTrace G s tr es) : M.Along H s es := by
  induction es generalizing s tr with
  | nil => trivial
  | cons e es ih =>
    refine ⟨hGH s tr e h.1, ?_⟩
    have h' := h.2
    cases hs : M.step s e with
    | none => trivial
    | some r =>
      rw [hs] at h'
      exact ih h'

/-- The induction rule for a relation that looks at the events as well. -/
theorem run_along_events {G : σ → List ο → ε → Prop} (I : σ → List ε → List ο → Prop)
    (hstep : ∀ s es tr e s' out, I s es tr → G s tr e → M.step s e = some (s', out) →
      I s' (es ++ [e]) (tr ++ out))
    {s t : σ} (before : List ε) {es : List ε} {seen tr : List ο}
    (hr : M.run s es = some (t, tr)) (hg : M.AlongTrace G s seen es) (hi : I s before seen) :
    I t (before ++ es) (seen ++ tr) := by
  induction es generalizing s before seen tr with
  | nil =>
    simp only [run_nil, Option.some.injEq, Prod.mk.injEq] at hr
    obtain ⟨rfl, rfl⟩ := hr
    rwa [List.append_nil, List.append_nil]
  | cons e es ih =>
    obtain ⟨s', out, rest, hs, hr', rfl⟩ := (M.run_cons_iff ..).mp hr
    obtain ⟨hhead, htail⟩ := hg
    rw [hs] at htail
    have hnext := ih (before ++ [e]) hr' htail (hstep s before seen e s' out hi hhead hs)
    rwa [List.append_assoc, List.append_assoc] at hnext

theorem run_along_trace {G : σ → List ο → ε → Prop} (I : σ → List ο → Prop)
    (hstep : ∀ s tr e s' out, I s tr → G s tr e → M.step s e = some (s', out) → I s' (tr ++ out))
    {s t : σ} {es : List ε} {before tr : List ο} (hr : M.run s es = some (t, tr))
    (hg : M.AlongTrace G s before es) (hi : I s before) : I t (before ++ tr) :=
  run_along_events (fun s _ tr => I s tr) (fun s _ tr e s' out => hstep s tr e s' out) [] hr hg hi

theorem run_events {G : σ → ε → Prop} (I : σ → List ε → List ο → Prop)
    (hstep : ∀ s es tr e s' out, I s es tr → G s e → M.step s e = some (s', out) →
      I s' (es ++ [e]) (tr ++ out))
    {s t : σ} {es : List ε} {tr : List ο} (hr : M.run s es = some (t, tr)) (hg : M.Along G s es)
    (hi : I s [] []) : I t es tr :=
  run_along_events I hstep [] hr (hg.alongTrace []) hi

/-- An observation that leads to `P`, which lasts and rules it out, is made at most once. -/
theorem run_once [DecidableEq ο] {G : σ → List ο → ε → Prop} {I P : σ → Prop} {o : ο}
    (hI : ∀ s e s' out, I s → M.step s e = some (s', out) → I s')
    (hP : ∀ s tr e s' out, I s → P s → o ∈ tr → G s tr e → M.step s e = some (s', out) →
      o ∉ out ∧ P s')
    (ho : ∀ s e s' out, I s → M.step s e = some (s', out) → o ∈ out → out.count o ≤ 1 ∧ P s')
    {s t : σ} {es : List ε} {tr : List ο} (hr : M.run s es = some (t, tr))
    (hg : M.AlongTrace G s [] es) (hi : I s) : tr.count o ≤ 1 := by
  refine (run_along_trace (fun s tr => I s ∧ tr.count o ≤ 1 ∧ (o ∈ tr → P s)) ?_ hr hg
    ⟨hi, Nat.zero_le _, fun h => absurd h List.not_mem_nil⟩).2.1
  rintro s tr e s' out ⟨hi, hc, hp⟩ hk hs
  refine ⟨hI s e s' out hi hs, ?_⟩
  by_cases hm : o ∈ tr
  · obtain ⟨hn, hp'⟩ := hP s tr e s' out hi (hp hm) hm hk hs
    have h0 := List.count_eq_zero_of_not_mem hn
    rw [List.count_append, h0]
    exact ⟨hc, fun _ => hp'⟩
  · have h0 := List.count_eq_zero_of_not_mem hm
    by_cases hn : o ∈ out
    · obtain ⟨hc', hp'⟩ := ho s e s' out hi hs hn
      rw [List.count_append, h0, Nat.zero_add]
      exact ⟨hc', fun _ => hp'⟩
    · have h1 := List.count_eq_zero_of_not_mem hn
      rw [List.count_append, h0, h1]
      exact ⟨by omega, fun h => absurd (List.mem_append.mp h) (by simp [hm, hn])⟩

/-! ## Looking up a step of a run -/

theorem run_split {s m t : σ} {es₁ es₂ : List ε} {e : ε} {tr₁ tr : List ο}
    (hr : M.run s (es₁ ++ e :: es₂) = some (t, tr)) (h₁ : M.run s es₁ = some (m, tr₁)) :
    ∃ m' out tr₂, M.step m e = some (m', out) ∧ M.run m' es₂ = some (t, tr₂) ∧
      tr = tr₁ ++ (out ++ tr₂) := by
  obtain ⟨n, u, v, hn, hv, rfl⟩ := (M.run_append_iff ..).mp hr
  rw [h₁, Option.some.injEq, Prod.mk.injEq] at hn
  obtain ⟨rfl, rfl⟩ := hn
  obtain ⟨m', out, tr₂, hs, h₂, rfl⟩ := (M.run_cons_iff ..).mp hv
  exact ⟨m', out, tr₂, hs, h₂, rfl⟩

/-- A guard along a run holds at each of its events. -/
theorem alongTrace_iff {G : σ → List ο → ε → Prop} {s t : σ} {es : List ε} {before tr : List ο}
    (hr : M.run s es = some (t, tr)) :
    M.AlongTrace G s before es ↔ ∀ es₁ e es₂ m tr₁, es = es₁ ++ e :: es₂ →
      M.run s es₁ = some (m, tr₁) → G m (before ++ tr₁) e := by
  induction es generalizing s before tr with
  | nil =>
    refine ⟨fun _ es₁ e es₂ m tr₁ h => ?_, fun _ => trivial⟩
    cases es₁ <;> cases h
  | cons d es ih =>
    obtain ⟨s', out, rest, hs, hr', rfl⟩ := (M.run_cons_iff ..).mp hr
    rw [AlongTrace, hs]
    show G s before d ∧ M.AlongTrace G s' (before ++ out) es ↔ _
    rw [ih hr']
    constructor
    · rintro ⟨hhead, htail⟩ es₁ e es₂ m tr₁ h h₁
      cases es₁ with
      | nil =>
        obtain ⟨rfl, rfl⟩ := List.cons.inj h
        simp only [run_nil, Option.some.injEq, Prod.mk.injEq] at h₁
        obtain ⟨rfl, rfl⟩ := h₁
        rwa [List.append_nil]
      | cons d' es₁ =>
        obtain ⟨rfl, hes⟩ := List.cons.inj h
        obtain ⟨n, o, u, hd, hu, rfl⟩ := (M.run_cons_iff ..).mp h₁
        rw [hs, Option.some.injEq, Prod.mk.injEq] at hd
        obtain ⟨rfl, rfl⟩ := hd
        rw [← List.append_assoc]
        exact htail es₁ e es₂ m u hes hu
    · intro h
      refine ⟨?_, fun es₁ e es₂ m u he hu => ?_⟩
      · have hd := h [] d es s [] rfl rfl
        rwa [List.append_nil] at hd
      · rw [List.append_assoc]
        exact h (d :: es₁) e es₂ m (out ++ u) (by rw [he]; rfl)
          ((M.run_cons_iff ..).mpr ⟨s', out, u, hs, hu, rfl⟩)

/-- What a trace shows at some place was shown by one of the steps. -/
theorem step_of_split {s t : σ} {es : List ε} {o : ο} {tr₁ tr₂ : List ο}
    (hr : M.run s es = some (t, tr₁ ++ o :: tr₂)) : ∃ es₁ e es₂ m u m' out₁ out₂,
      es = es₁ ++ e :: es₂ ∧ M.run s es₁ = some (m, u) ∧
        M.step m e = some (m', out₁ ++ o :: out₂) ∧ tr₁ = u ++ out₁ := by
  induction es generalizing s tr₁ with
  | nil => simp at hr
  | cons e es ih =>
    obtain ⟨s', out, rest, hs, hr', htr⟩ := (M.run_cons_iff ..).mp hr
    obtain ⟨out₂, rfl, -⟩ | ⟨u₁, rfl, rfl⟩ := append_eq_split htr.symm
    · exact ⟨[], e, es, s, [], s', tr₁, out₂, rfl, rfl, hs, rfl⟩
    · obtain ⟨es₁, e', es₂, m, u, m', out₁, out₂, rfl, h₁, h₂, rfl⟩ := ih hr'
      exact ⟨e :: es₁, e', es₂, m, out ++ u, m', out₁, out₂, rfl,
        (M.run_cons_iff ..).mpr ⟨s', out, u, hs, h₁, rfl⟩, h₂, (List.append_assoc ..).symm⟩

theorem step_of_mem {s t : σ} {es : List ε} {tr : List ο} {o : ο}
    (hr : M.run s es = some (t, tr)) (ho : o ∈ tr) : ∃ es₁ e es₂ m tr₁ m' out,
      es = es₁ ++ e :: es₂ ∧ M.run s es₁ = some (m, tr₁) ∧ M.step m e = some (m', out) ∧
        o ∈ out := by
  obtain ⟨tr₁, tr₂, rfl⟩ := List.append_of_mem ho
  obtain ⟨es₁, e, es₂, m, u, m', out₁, out₂, hes, h₁, h₂, -⟩ := step_of_split hr
  exact ⟨es₁, e, es₂, m, u, m', _, hes, h₁, h₂, List.mem_append_right _ List.mem_cons_self⟩

/-! ## The last of something -/

/-- The last value that `f` finds at a step of a run. -/
def last {α : Type} (M : Machine σ ε ο) (f : σ → ε → Option α) : σ → List ε → Option α
  | _, [] => none
  | s, e :: es => ((M.step s e).bind fun r => M.last f r.1 es).or (f s e)

/-- If every step shows what `f` finds before it, the trace ends with the last of it. -/
theorem getLast_run {α : Type} {f : σ → ε → Option α} {g : List ο → List α} (hnil : g [] = [])
    (happ : ∀ t u, g (t ++ u) = g t ++ g u)
    (hstep : ∀ s e s' out, M.step s e = some (s', out) → g out = (f s e).toList)
    {s t : σ} {es : List ε} {tr : List ο} (hr : M.run s es = some (t, tr)) :
    (g tr).getLast? = M.last f s es := by
  induction es generalizing s tr with
  | nil =>
    simp only [run_nil, Option.some.injEq, Prod.mk.injEq] at hr
    obtain ⟨rfl, rfl⟩ := hr
    rw [hnil]
    rfl
  | cons e es ih =>
    obtain ⟨s', out, rest, hs, hr', rfl⟩ := (M.run_cons_iff ..).mp hr
    rw [happ, List.getLast?_append, ih hr', hstep s e s' out hs, last, hs]
    cases f s e <;> rfl

/-! ## Projection -/

/-- Each step of `M` is a run (possibly empty) of `N`. -/
structure Projection (M : Machine σ ε ο) (N : Machine τ ζ ω) where
  state : σ → τ
  obs : ο → Option ω
  sound : ∀ s e s' out, M.step s e = some (s', out) →
    ∃ es, N.run (state s) es = some (state s', out.filterMap obs)

/-- A guarded run projects to a guarded run, if each step does. -/
theorem Projection.run_along {N : Machine τ ζ ω} (P : Projection M N) {G : σ → ε → Prop}
    {H : τ → ζ → Prop}
    (h : ∀ s e s' out, G s e → M.step s e = some (s', out) → ∃ es,
      N.run (P.state s) es = some (P.state s', out.filterMap P.obs) ∧ N.Along H (P.state s) es)
    {s t : σ} {es : List ε} {tr : List ο} (hr : M.run s es = some (t, tr))
    (hg : M.Along G s es) :
    ∃ fs, N.run (P.state s) fs = some (P.state t, tr.filterMap P.obs) ∧
      N.Along H (P.state s) fs := by
  induction es generalizing s tr with
  | nil =>
    simp only [run_nil, Option.some.injEq, Prod.mk.injEq] at hr
    obtain ⟨rfl, rfl⟩ := hr
    exact ⟨[], rfl, trivial⟩
  | cons e es ih =>
    obtain ⟨s', out, rest, hs, hr', rfl⟩ := (M.run_cons_iff ..).mp hr
    obtain ⟨fs₁, h₁, ha₁⟩ := h s e s' out hg.head hs
    obtain ⟨fs₂, h₂, ha₂⟩ := ih hr' (hg.tail hs)
    refine ⟨fs₁ ++ fs₂, ?_, ha₁.concat h₁ ha₂⟩
    rw [List.filterMap_append]
    exact N.run_append h₁ h₂

theorem Projection.run {N : Machine τ ζ ω} (P : Projection M N) {s t : σ} {es : List ε}
    {tr : List ο} (hr : M.run s es = some (t, tr)) :
    ∃ fs, N.run (P.state s) fs = some (P.state t, tr.filterMap P.obs) := by
  induction es generalizing s tr with
  | nil =>
    simp only [run_nil, Option.some.injEq, Prod.mk.injEq] at hr
    obtain ⟨rfl, rfl⟩ := hr
    exact ⟨[], rfl⟩
  | cons e es ih =>
    obtain ⟨s', out, rest, hs, hr', rfl⟩ := (M.run_cons_iff ..).mp hr
    obtain ⟨fs₁, h₁⟩ := P.sound s e s' out hs
    obtain ⟨fs₂, h₂⟩ := ih hr'
    refine ⟨fs₁ ++ fs₂, (N.run_append_iff ..).mpr ⟨_, _, _, h₁, h₂, ?_⟩⟩
    rw [List.filterMap_append]

end Machine
end TransportProxy.Foundations
