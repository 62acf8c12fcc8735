import Mathlib.Data.List.Basic
import Mathlib.Data.List.Infix

/-! # Handing a queue over with retries

Entries are handed to a callee one call at a time, and a call may fail without effect.
`Serves xs cs` says that the calls `cs` hand over the queue `xs` in order: each call is for the
first entry that no call has handed over yet. A failed call is then repeated before any later entry
is tried, and no entry is skipped, repeated or overtaken.

`Served` adds what is left of the queue, and its two lemmas are the two things that can happen: an
entry joins the queue, a call is made for the first entry left.
-/
namespace TransportProxy.Foundations
set_option autoImplicit false

variable {α : Type}

def Serves : List α → List (α × Bool) → Prop
  | _, [] => True
  | [], _ :: _ => False
  | x :: xs, (y, ok) :: cs => y = x ∧ Serves (if ok then xs else x :: xs) cs

instance Serves.decidable [DecidableEq α] : ∀ (xs : List α) (cs : List (α × Bool)),
    Decidable (Serves xs cs)
  | [], [] => .isTrue trivial
  | _ :: _, [] => .isTrue trivial
  | [], _ :: _ => .isFalse id
  | x :: xs, (y, ok) :: cs =>
    have : Decidable (Serves (if ok then xs else x :: xs) cs) :=
      Serves.decidable (if ok then xs else x :: xs) cs
    inferInstanceAs (Decidable (y = x ∧ _))

/-- The entries of the successful calls. -/
def handedOver (cs : List (α × Bool)) : List α := (cs.filter Prod.snd).map Prod.fst

@[simp] theorem handedOver_nil : handedOver ([] : List (α × Bool)) = [] := rfl

@[simp] theorem handedOver_cons (c : α × Bool) (cs : List (α × Bool)) :
    handedOver (c :: cs) = (if c.2 then [c.1] else []) ++ handedOver cs := by
  obtain ⟨x, ok⟩ := c
  cases ok <;> rfl

@[simp] theorem handedOver_append (cs ds : List (α × Bool)) :
    handedOver (cs ++ ds) = handedOver cs ++ handedOver ds := by
  rw [handedOver, List.filter_append, List.map_append]
  rfl

namespace Serves

@[simp] theorem nil (xs : List α) : Serves xs [] := by cases xs <;> trivial

theorem append_queue {xs : List α} {cs : List (α × Bool)} (h : Serves xs cs) (ys : List α) :
    Serves (xs ++ ys) cs := by
  induction cs generalizing xs with
  | nil => exact .nil _
  | cons c cs ih =>
    obtain ⟨y, ok⟩ := c
    cases xs with
    | nil => exact h.elim
    | cons x xs =>
      refine ⟨h.1, ?_⟩
      have hi := ih h.2
      cases ok <;> exact hi

theorem snoc {done rest : List α} {cs : List (α × Bool)} {x : α}
    (h : Serves (done ++ x :: rest) cs) (hd : handedOver cs = done) (ok : Bool) :
    Serves (done ++ x :: rest) (cs ++ [(x, ok)]) := by
  induction cs generalizing done with
  | nil =>
    subst hd
    exact ⟨rfl, .nil _⟩
  | cons c cs ih =>
    obtain ⟨y, b⟩ := c
    cases b with
    | false =>
      cases done with
      | nil => exact ⟨h.1, ih h.2 hd⟩
      | cons d done => exact ⟨h.1, ih h.2 hd⟩
    | true =>
      cases done with
      | nil => cases hd
      | cons d done =>
        have hd' : handedOver cs = done := (List.cons.inj hd).2
        exact ⟨h.1, ih h.2 hd'⟩

/-- What was handed over is the front of the queue. -/
theorem handedOver_prefix {xs : List α} {cs : List (α × Bool)} (h : Serves xs cs) :
    handedOver cs <+: xs := by
  induction cs generalizing xs with
  | nil => exact List.nil_prefix
  | cons c cs ih =>
    obtain ⟨y, ok⟩ := c
    cases xs with
    | nil => exact h.elim
    | cons x xs =>
      obtain ⟨rfl, h⟩ := h
      have hi := ih h
      cases ok with
      | false => exact hi
      | true => exact List.cons_prefix_cons.mpr ⟨rfl, hi⟩

end Serves

/-- The calls `cs` hand over `xs` in order, and `rest` is what is left of it. -/
structure Served (xs : List α) (cs : List (α × Bool)) (rest : List α) : Prop where
  split : xs = handedOver cs ++ rest
  serves : Serves xs cs

namespace Served

theorem nil : Served ([] : List α) [] [] := ⟨rfl, .nil _⟩

theorem enqueue {xs rest : List α} {cs : List (α × Bool)} (h : Served xs cs rest)
    (ys : List α) : Served (xs ++ ys) cs (rest ++ ys) where
  split := by rw [h.split, List.append_assoc]
  serves := h.serves.append_queue ys

theorem call {xs rest : List α} {cs : List (α × Bool)} {x : α} (h : Served xs cs (x :: rest))
    (ok : Bool) : Served xs (cs ++ [(x, ok)]) (if ok then rest else x :: rest) where
  split := by
    rw [h.split, handedOver_append]
    cases ok <;> simp
  serves := by
    have hs := h.serves
    rw [h.split] at hs ⊢
    exact hs.snoc rfl ok

end Served
end TransportProxy.Foundations
