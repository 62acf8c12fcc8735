import Mathlib.Data.List.Basic
import Mathlib.Data.List.Flatten

/-! # Chunks with end markers

A stream of symbols with ends in it is sent as a list of chunks, the empty chunk standing for an
end. `marks` spells such a list out, symbol by symbol, with `none` for an end, so that two ways to
cut one stream into chunks can be compared.
-/
namespace TransportProxy.Foundations
set_option autoImplicit false

variable {α : Type}

/-- One chunk: its symbols, or an end. -/
def marked : List α → List (Option α)
  | [] => [none]
  | x :: v => (x :: v).map some

def marks (vs : List (List α)) : List (Option α) := vs.flatMap marked

@[simp] theorem marks_nil : marks ([] : List (List α)) = [] := rfl

@[simp] theorem marks_cons (v : List α) (vs : List (List α)) :
    marks (v :: vs) = marked v ++ marks vs := List.flatMap_cons ..

@[simp] theorem marks_append (vs ws : List (List α)) : marks (vs ++ ws) = marks vs ++ marks ws :=
  List.flatMap_append ..

theorem marked_of_ne {v : List α} (h : v ≠ []) : marked v = v.map some := by
  cases v with
  | nil => exact absurd rfl h
  | cons x v => rfl

theorem none_mem_marked {v : List α} : none ∈ marked v ↔ v = [] := by
  cases v <;> simp [marked]

theorem none_mem_marks {vs : List (List α)} : none ∈ marks vs ↔ [] ∈ vs := by
  simp only [marks, List.mem_flatMap, none_mem_marked]
  constructor
  · rintro ⟨v, hv, rfl⟩
    exact hv
  · exact fun h => ⟨[], h, rfl⟩

theorem marks_eq_nil {vs : List (List α)} : marks vs = [] ↔ vs = [] := by
  constructor
  · intro h
    cases vs with
    | nil => rfl
    | cons v vs =>
      rw [marks_cons, List.append_eq_nil_iff] at h
      cases v <;> simp [marked] at h
  · rintro rfl
    rfl

theorem length_marks_le {vs ws : List (List α)} (h : vs.Sublist ws) :
    (marks vs).length ≤ (marks ws).length := (h.flatMap marked).length_le

/-- Chunks come from the elements that `p` selects or from the others. -/
theorem length_marks_filter {β : Type} (f : β → Option (List α)) (p : β → Bool) (l : List β) :
    (marks ((l.filter p).filterMap f)).length +
      (marks ((l.filter fun b => !p b).filterMap f)).length =
        (marks (l.filterMap f)).length := by
  induction l with
  | nil => rfl
  | cons b l ih =>
    cases hp : p b <;> cases hf : f b <;> simp [hp, hf] <;> omega

/-- The symbols of the chunks before the first empty one. -/
def beforeEnd (vs : List (List α)) : List α := (vs.takeWhile fun v => !v.isEmpty).flatten

@[simp] theorem beforeEnd_nil : beforeEnd ([] : List (List α)) = [] := rfl

theorem beforeEnd_end (vs : List (List α)) : beforeEnd ([] :: vs) = [] := rfl

theorem beforeEnd_cons {v : List α} (h : v ≠ []) (vs : List (List α)) :
    beforeEnd (v :: vs) = v ++ beforeEnd vs := by
  simp [beforeEnd, h]

/-- The symbols of a stream before its first end. -/
def symbolsBeforeEnd : List (Option α) → List α
  | some x :: l => x :: symbolsBeforeEnd l
  | none :: _ | [] => []

@[simp] theorem symbolsBeforeEnd_map_some (v : List α) (l : List (Option α)) :
    symbolsBeforeEnd (v.map some ++ l) = v ++ symbolsBeforeEnd l := by
  induction v with
  | nil => rfl
  | cons x v ih =>
    rw [List.map_cons, List.cons_append, symbolsBeforeEnd, ih, List.cons_append]

theorem symbolsBeforeEnd_append {l : List (Option α)} (h : none ∈ l) (m : List (Option α)) :
    symbolsBeforeEnd (l ++ m) = symbolsBeforeEnd l := by
  induction l with
  | nil => cases h
  | cons o l ih =>
    cases o with
    | none => rfl
    | some x =>
      have hm : none ∈ l := by simpa using h
      rw [List.cons_append, symbolsBeforeEnd, symbolsBeforeEnd, ih hm]

/-- However the stream is cut, it has the same symbols before its first end. -/
theorem symbolsBeforeEnd_marks (vs : List (List α)) :
    symbolsBeforeEnd (marks vs) = beforeEnd vs := by
  induction vs with
  | nil => rfl
  | cons v vs ih =>
    cases v with
    | nil => rfl
    | cons x v =>
      rw [marks_cons, marked_of_ne (List.cons_ne_nil x v), symbolsBeforeEnd_map_some, ih]
      simp [beforeEnd]

theorem beforeEnd_append_end {vs : List (List α)} (h : [] ∉ vs) (ws : List (List α)) :
    beforeEnd (vs ++ [] :: ws) = vs.flatten := by
  induction vs with
  | nil => rfl
  | cons v vs ih =>
    have hv : v ≠ [] := fun h' => h (by simp [h'])
    have hvs : [] ∉ vs := fun h' => h (List.mem_cons_of_mem _ h')
    have hi := ih hvs
    simp only [beforeEnd] at hi ⊢
    simp [hv, hi]

theorem symbolsBeforeEnd_append_ends (l : List (Option α)) (k : ℕ) :
    symbolsBeforeEnd (l ++ List.replicate k none) = symbolsBeforeEnd l := by
  induction l with
  | nil => cases k <;> rfl
  | cons o l ih =>
    cases o with
    | none => rfl
    | some x => rw [List.cons_append, symbolsBeforeEnd, symbolsBeforeEnd, ih]

theorem marks_of_nil_not_mem {vs : List (List α)} (h : [] ∉ vs) :
    marks vs = vs.flatten.map some := by
  induction vs with
  | nil => rfl
  | cons v vs ih =>
    have hv : v ≠ [] := fun h' => h (by simp [h'])
    have hvs : [] ∉ vs := fun h' => h (List.mem_cons_of_mem _ h')
    rw [marks_cons, marked_of_ne hv, ih hvs, List.flatten_cons, List.map_append]

theorem beforeEnd_of_nil_not_mem {vs : List (List α)} (h : [] ∉ vs) :
    beforeEnd vs = vs.flatten := by
  have hs := symbolsBeforeEnd_marks vs
  rw [marks_of_nil_not_mem h, ← List.append_nil (vs.flatten.map some),
    symbolsBeforeEnd_map_some] at hs
  rw [← hs, symbolsBeforeEnd, List.append_nil]

/-- Reads that spell a front of a stream, up to further ends, return what lies before its first end,
all of it once one of them is empty. -/
theorem beforeEnd_prefix {l m : List (Option α)} {rs : List (List α)} {k : ℕ}
    (h : l ++ List.replicate k none = marks rs ++ m) :
    beforeEnd rs <+: symbolsBeforeEnd l ∧ ([] ∈ rs → beforeEnd rs = symbolsBeforeEnd l) := by
  have hs := congrArg symbolsBeforeEnd h
  rw [symbolsBeforeEnd_append_ends] at hs
  by_cases hr : [] ∈ rs
  · rw [symbolsBeforeEnd_append (none_mem_marks.mpr hr), symbolsBeforeEnd_marks] at hs
    exact ⟨hs ▸ List.prefix_rfl, fun _ => hs.symm⟩
  · rw [marks_of_nil_not_mem hr, symbolsBeforeEnd_map_some] at hs
    rw [beforeEnd_of_nil_not_mem hr, hs]
    exact ⟨List.prefix_append _ _, fun h => absurd h hr⟩

/-! ## One end, and nothing after it -/

/-- Chunks that are not empty, and an end behind them if `ended` says so. -/
def EndMarked (vs : List (List α)) (ended : Bool) : Prop :=
  ∃ front, [] ∉ front ∧ vs = front ++ if ended then [[]] else []

theorem EndMarked.nil : EndMarked ([] : List (List α)) false := ⟨[], List.not_mem_nil, rfl⟩

theorem EndMarked.snoc {vs : List (List α)} (h : EndMarked vs false) (v : List α) :
    EndMarked (vs ++ [v]) v.isEmpty := by
  obtain ⟨front, hn, rfl⟩ := h
  cases v with
  | nil => exact ⟨front, hn, by simp⟩
  | cons x v => exact ⟨front ++ [x :: v], by simp [hn], by simp⟩

theorem EndMarked.mem_iff {vs : List (List α)} {ended : Bool} (h : EndMarked vs ended) :
    [] ∈ vs ↔ ended = true := by
  obtain ⟨front, hn, rfl⟩ := h
  cases ended <;> simp [hn]

theorem EndMarked.beforeEnd {vs : List (List α)} {ended : Bool} (h : EndMarked vs ended) :
    beforeEnd vs = vs.flatten := by
  obtain ⟨front, hn, rfl⟩ := h
  cases ended with
  | false => simp [beforeEnd_of_nil_not_mem hn]
  | true => simp [beforeEnd_append_end hn]

/-- A front that has the end in it is the whole. -/
theorem EndMarked.eq_of_prefix {vs ws : List (List α)} {ended : Bool} (h : EndMarked vs ended)
    (hp : ws <+: vs) (hm : [] ∈ ws) : ws = vs := by
  obtain ⟨rest, hr⟩ := hp
  obtain ⟨front, hn, rfl⟩ := h
  have hended : ended = true := by
    cases ended with
    | false =>
      refine absurd ?_ hn
      simp only [Bool.false_eq_true, if_false, List.append_nil] at hr
      rw [← hr]
      exact List.mem_append_left _ hm
    | true => rfl
  subst hended
  obtain ⟨mid, rfl, hmid⟩ | ⟨mid, rfl, hmid⟩ := List.append_eq_append_iff.mp hr
  · exact absurd (List.mem_append_left _ hm) hn
  · cases mid with
    | nil => exact absurd (by simpa using hm) hn
    | cons x mid =>
      obtain ⟨rfl, hnil⟩ := List.cons.inj hmid
      simp [(List.append_eq_nil_iff.mp hnil.symm).1]

theorem beforeEnd_append_of_mem {vs : List (List α)} (h : [] ∈ vs) (ws : List (List α)) :
    beforeEnd (vs ++ ws) = beforeEnd vs := by
  rw [← symbolsBeforeEnd_marks, marks_append, symbolsBeforeEnd_append (none_mem_marks.mpr h),
    symbolsBeforeEnd_marks]

theorem beforeEnd_append_ends {vs ws : List (List α)} (h : [] ∉ vs) (hw : ∀ w ∈ ws, w = []) :
    beforeEnd (vs ++ ws) = vs.flatten := by
  cases ws with
  | nil => rw [List.append_nil, beforeEnd_of_nil_not_mem h]
  | cons w ws => rw [hw w List.mem_cons_self, beforeEnd_append_end h]

/-- What `got` holds before its first end is what is in a front of `sent` that has an end in it. -/
def Finished (sent got : List (List α)) : Prop :=
  ∃ front, front <+: sent ∧ [] ∈ front ∧ beforeEnd got = front.flatten

theorem Finished.sent {vs ws : List (List α)} (h : Finished vs ws) {us : List (List α)}
    (hp : vs <+: us) : Finished us ws := by
  obtain ⟨front, hf, hm, he⟩ := h
  exact ⟨front, hf.trans hp, hm, he⟩

/-- If there is nothing after the end of what was sent, it is all of it. -/
theorem Finished.all {vs ws : List (List α)} {ended : Bool} (h : Finished vs ws)
    (he : EndMarked vs ended) : ended = true ∧ beforeEnd ws = vs.flatten := by
  obtain ⟨front, hf, hm, hb⟩ := h
  obtain rfl := he.eq_of_prefix hf hm
  exact ⟨he.mem_iff.mp hm, hb⟩

/-! ## Nothing after the end -/

/-- After an empty chunk there are only empty chunks. -/
def EndsLast (vs : List (List α)) : Prop := vs.Pairwise fun v w => v = [] → w = []

theorem endsLast_iff (vs : List (List α)) :
    EndsLast vs ↔ (marks vs).Pairwise fun x y => x = none → y = none := by
  rw [marks, List.pairwise_flatMap, EndsLast]
  constructor
  · intro h
    refine ⟨fun v _ => ?_, h.imp fun {v w} hvw x hx y hy hn => ?_⟩
    · cases v with
      | nil => simp [marked]
      | cons x v => exact List.pairwise_of_forall_mem_list fun a ha b _ hn => by simp_all [marked]
    · subst hn
      have hw : w = [] := hvw (none_mem_marked.mp hx)
      subst hw
      simpa [marked] using hy
  · rintro ⟨-, h⟩
    refine h.imp fun {v w} hvw hv => ?_
    cases w with
    | nil => rfl
    | cons y w =>
      have hy : (some y : Option α) = none :=
        hvw none (none_mem_marked.mpr hv) (some y) (by simp [marked]) rfl
      cases hy

theorem EndsLast.snoc {vs : List (List α)} {v : List α} (h : EndsLast vs) (hv : [] ∉ vs ∨ v = []) :
    EndsLast (vs ++ [v]) := by
  refine List.pairwise_append.mpr ⟨h, List.pairwise_singleton _ _, fun x hx y hy hn => ?_⟩
  rw [List.mem_singleton] at hy
  subst hn
  rw [hy]
  exact hv.resolve_left fun hm => hm hx

/-- What is read of a stream that ends last, up to further ends, ends last too. -/
theorem EndsLast.reads {vs rs : List (List α)} (h : EndsLast vs) {k : ℕ} {l m : List (Option α)}
    (he : marks vs ++ List.replicate k none = l ++ marks rs ++ m) : EndsLast rs := by
  have hp : (marks vs ++ List.replicate k none).Pairwise fun x y => x = none → y = none := by
    refine List.pairwise_append.mpr ⟨(endsLast_iff vs).mp h, ?_, fun x _ y hy _ => ?_⟩
    · exact List.pairwise_replicate.mpr (.inr id)
    · exact (List.mem_replicate.mp hy).2
  rw [he] at hp
  rw [endsLast_iff]
  exact (List.pairwise_append.mp (List.pairwise_append.mp hp).1).2.1

end TransportProxy.Foundations
