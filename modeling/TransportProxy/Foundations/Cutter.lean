import Mathlib.Data.List.Basic

/-! # Cutting packets off a buffer that grows

A cutter takes the first packet off a buffer once the buffer has all of it, and nothing that arrives
later changes where the packet ends. `feed` hands the packets of a buffer to a callee, which may
refuse one and thereby end the call.

The calls made do not depend on the pieces in which the bytes arrive (`feedPieces_same`).
-/
namespace TransportProxy.Foundations
set_option autoImplicit false

variable {α σ ε : Type}

structure Cutter (α : Type) where
  /-- The first packet and what follows it; `none` while the packet is not complete. -/
  cut : List α → Option (List α × List α)
  append_eq : ∀ {xs p rest}, cut xs = some (p, rest) → p ++ rest = xs
  ne_nil : ∀ {xs p rest}, cut xs = some (p, rest) → p ≠ []
  stable : ∀ {xs p rest} ys, cut xs = some (p, rest) → cut (xs ++ ys) = some (p, rest ++ ys)

/-- What a call has done. -/
structure FeedCall (α σ ε : Type) where
  /-- the packets handed over, a refused one included -/
  packets : List (List α)
  callee : σ
  rest : List α
  res : Except ε Unit

namespace FeedCall

/-- The call handed `p` over first. -/
def after (p : List α) (r : FeedCall α σ ε) : FeedCall α σ ε := { r with packets := p :: r.packets }

/-- A second call, made if the first one has succeeded. -/
def andThen (r : FeedCall α σ ε) (f : σ → List α → FeedCall α σ ε) : FeedCall α σ ε :=
  match r.res with
  | .ok () =>
    let s := f r.callee r.rest
    { s with packets := r.packets ++ s.packets }
  | .error _ => r

/-- More bytes have arrived behind those left in the buffer. -/
def late (r : FeedCall α σ ε) (ys : List α) : FeedCall α σ ε := { r with rest := r.rest ++ ys }

/-- The same packets were handed over with the same outcome. After a failure the buffers differ by
what has arrived in them. -/
structure Same (r s : FeedCall α σ ε) : Prop where
  packets : r.packets = s.packets
  callee : r.callee = s.callee
  res : r.res = s.res
  rest : s.res = .ok () → r.rest = s.rest

theorem Same.refl (r : FeedCall α σ ε) : r.Same r := ⟨rfl, rfl, rfl, fun _ => rfl⟩

@[simp] theorem after_res (p : List α) (r : FeedCall α σ ε) : (r.after p).res = r.res := rfl

@[simp] theorem after_rest (p : List α) (r : FeedCall α σ ε) : (r.after p).rest = r.rest := rfl

@[simp] theorem after_callee (p : List α) (r : FeedCall α σ ε) :
    (r.after p).callee = r.callee := rfl

@[simp] theorem after_packets (p : List α) (r : FeedCall α σ ε) :
    (r.after p).packets = p :: r.packets := rfl

theorem andThen_of_ok {r : FeedCall α σ ε} (h : r.res = .ok ())
    (f : σ → List α → FeedCall α σ ε) : r.andThen f =
      { f r.callee r.rest with packets := r.packets ++ (f r.callee r.rest).packets } := by
  rw [andThen, h]

theorem andThen_of_error {r : FeedCall α σ ε} {e : ε} (h : r.res = .error e)
    (f : σ → List α → FeedCall α σ ε) : r.andThen f = r := by
  rw [andThen, h]

end FeedCall

/-- Each piece is put behind what is left in the buffer, with a call after it. A failed call is the
last one. -/
def feedPieces (feed : σ → List α → FeedCall α σ ε) : σ → List α → List (List α) → FeedCall α σ ε
  | k, buf, [] => ⟨[], k, buf, .ok ()⟩
  | k, buf, piece :: pieces =>
    (feed k (buf ++ piece)).andThen fun k rest => feedPieces feed k rest pieces

/-- The callee after some packets. -/
def calleeAfter (input : σ → List α → σ × Except ε Unit) (k : σ) (packets : List (List α)) : σ :=
  packets.foldl (fun k p => (input k p).1) k

namespace Cutter

theorem length_lt (c : Cutter α) {xs p rest : List α} (h : c.cut xs = some (p, rest)) :
    rest.length < xs.length := by
  have hpos := List.length_pos_of_ne_nil (c.ne_nil h)
  rw [← c.append_eq h, List.length_append]
  omega

/-- Hands over the complete packets of the buffer, up to the first one refused. -/
def feed (c : Cutter α) (input : σ → List α → σ × Except ε Unit) (k : σ) (buf : List α) :
    FeedCall α σ ε :=
  match _hc : c.cut buf with
  | none => ⟨[], k, buf, .ok ()⟩
  | some (p, rest) =>
    match input k p with
    | (k', .ok ()) => (feed c input k' rest).after p
    | (k', .error e) => ⟨[p], k', rest, .error e⟩
termination_by buf.length
decreasing_by exact c.length_lt _hc

variable (c : Cutter α) {input : σ → List α → σ × Except ε Unit}

theorem feed_of_none {buf : List α} (h : c.cut buf = none) (k : σ) :
    c.feed input k buf = ⟨[], k, buf, .ok ()⟩ := by
  rw [feed]
  split
  · rfl
  · rename_i hc
    rw [h] at hc
    exact nomatch hc

theorem feed_of_some {buf p rest : List α} (h : c.cut buf = some (p, rest)) (k : σ) :
    c.feed input k buf = match input k p with
      | (k', .ok ()) => (c.feed input k' rest).after p
      | (k', .error e) => ⟨[p], k', rest, .error e⟩ := by
  rw [feed]
  split
  · rename_i hc
    rw [h] at hc
    exact nomatch hc
  · rename_i hc
    rw [h] at hc
    obtain ⟨rfl, rfl⟩ := Prod.mk.inj (Option.some.inj hc)
    rfl

/-! ## One call -/

theorem feed_conserved (k : σ) (buf : List α) :
    (c.feed input k buf).packets.flatten ++ (c.feed input k buf).rest = buf := by
  fun_induction c.feed input k buf with
  | case1 k buf hc => rfl
  | case2 k buf p rest hc k' hi ih =>
    rw [FeedCall.after_packets, FeedCall.after_rest, List.flatten_cons, List.append_assoc, ih,
      c.append_eq hc]
  | case3 k buf p rest hc k' e hi =>
    rw [List.flatten_singleton, c.append_eq hc]

theorem feed_rest {k : σ} {buf : List α} (h : (c.feed input k buf).res = .ok ()) :
    c.cut (c.feed input k buf).rest = none := by
  fun_induction c.feed input k buf with
  | case1 k buf hc => exact hc
  | case2 k buf p rest hc k' hi ih => exact ih h
  | case3 k buf p rest hc k' e hi => exact nomatch h

theorem feed_packet {k : σ} {buf p : List α} (h : p ∈ (c.feed input k buf).packets) :
    ∃ rest, c.cut (p ++ rest) = some (p, rest) := by
  fun_induction c.feed input k buf with
  | case1 k buf hc => exact nomatch h
  | case2 k buf q rest hc k' hi ih =>
    rw [FeedCall.after_packets, List.mem_cons] at h
    cases h with
    | inl heq =>
      subst heq
      exact ⟨rest, by rw [c.append_eq hc, hc]⟩
    | inr hmem => exact ih hmem
  | case3 k buf q rest hc k' e hi =>
    obtain rfl := List.mem_singleton.mp h
    exact ⟨rest, by rw [c.append_eq hc, hc]⟩

theorem feed_callee (k : σ) (buf : List α) :
    (c.feed input k buf).callee = calleeAfter input k (c.feed input k buf).packets := by
  fun_induction c.feed input k buf with
  | case1 k buf hc => rfl
  | case2 k buf p rest hc k' hi ih =>
    rw [FeedCall.after_callee, ih, FeedCall.after_packets, calleeAfter, calleeAfter,
      List.foldl_cons, hi]
  | case3 k buf p rest hc k' e hi =>
    rw [calleeAfter, List.foldl_cons, hi]
    rfl

theorem feed_ok (h : ∀ k p, (input k p).2 = .ok ()) (k : σ) (buf : List α) :
    (c.feed input k buf).res = .ok () := by
  fun_induction c.feed input k buf with
  | case1 k buf hc => rfl
  | case2 k buf p rest hc k' hi ih => exact ih
  | case3 k buf p rest hc k' e hi =>
    have hp := h k p
    rw [hi] at hp
    exact nomatch hp

/-- A refused packet is the last one, and the buffer holds what follows it. -/
theorem feed_refused {k : σ} {buf p : List α} {ps qs : List (List α)} {e : ε}
    (h : (c.feed input k buf).packets = ps ++ p :: qs)
    (hp : (input (calleeAfter input k ps) p).2 = .error e) :
    qs = [] ∧ (c.feed input k buf).res = .error e ∧
      buf = ps.flatten ++ p ++ (c.feed input k buf).rest := by
  suffices hq : qs = [] ∧ (c.feed input k buf).res = .error e by
    have hall : (c.feed input k buf).packets.flatten ++ (c.feed input k buf).rest = buf :=
      c.feed_conserved k buf
    rw [h, hq.1, List.flatten_append, List.flatten_singleton] at hall
    exact ⟨hq.1, hq.2, hall.symm⟩
  fun_induction c.feed input k buf generalizing ps with
  | case1 k buf hc => simp at h
  | case2 k buf q rest hc k' hi ih =>
    rw [FeedCall.after_packets] at h
    cases ps with
    | nil =>
      obtain ⟨rfl, -⟩ := List.cons.inj h
      rw [calleeAfter, List.foldl_nil, hi] at hp
      exact nomatch hp
    | cons x xs =>
      obtain ⟨rfl, htail⟩ := List.cons.inj h
      rw [calleeAfter, List.foldl_cons, hi] at hp
      exact ih htail hp
  | case3 k buf q rest hc k' e' hi =>
    cases ps with
    | nil =>
      obtain ⟨rfl, htail⟩ := List.cons.inj h
      rw [calleeAfter, List.foldl_nil, hi] at hp
      exact ⟨htail.symm, hp⟩
    | cons x xs => simp at h

/-! ## Pieces -/

/-- More bytes behind the buffer go on where the call ends. -/
theorem feed_append (k : σ) (xs ys : List α) :
    c.feed input k (xs ++ ys) = match (c.feed input k xs).res with
      | .ok () => (c.feed input k xs).andThen fun k rest => c.feed input k (rest ++ ys)
      | .error _ => (c.feed input k xs).late ys := by
  fun_induction c.feed input k xs with
  | case1 k buf hc => rfl
  | case2 k buf p rest hc k' hi ih =>
    rw [c.feed_of_some (c.stable ys hc), hi]
    simp only [ih, FeedCall.after_res]
    cases hres : (c.feed input k' rest).res with
    | ok u =>
      rw [FeedCall.andThen_of_ok hres, FeedCall.andThen_of_ok (by exact hres)]
      rfl
    | error e => rfl
  | case3 k buf p rest hc k' e hi =>
    rw [c.feed_of_some (c.stable ys hc), hi]
    rfl

theorem feedPieces_same_of_none (k : σ) {buf : List α} (hbuf : c.cut buf = none)
    (pieces : List (List α)) :
    (feedPieces (c.feed input) k buf pieces).Same (c.feed input k (buf ++ pieces.flatten)) := by
  induction pieces generalizing k buf with
  | nil =>
    rw [List.flatten_nil, List.append_nil, c.feed_of_none hbuf]
    exact .refl _
  | cons piece pieces ih =>
    rw [feedPieces, List.flatten_cons, ← List.append_assoc, c.feed_append k (buf ++ piece)]
    cases hres : (c.feed input k (buf ++ piece)).res with
    | ok u =>
      have hsame := ih (c.feed input k (buf ++ piece)).callee (c.feed_rest hres)
      simp only [FeedCall.andThen_of_ok hres]
      exact ⟨by rw [hsame.packets], hsame.callee, hsame.res, hsame.rest⟩
    | error e =>
      rw [FeedCall.andThen_of_error hres]
      refine ⟨rfl, rfl, rfl, fun h => ?_⟩
      exact nomatch hres.symm.trans h

theorem cut_nil : c.cut [] = none := by
  cases hc : c.cut [] with
  | none => rfl
  | some r =>
    have hlt := c.length_lt hc
    exact absurd hlt (Nat.not_lt_zero _)

/-- Fed piece by piece or all at once, the same packets are handed over. -/
theorem feedPieces_same (k : σ) (pieces : List (List α)) :
    (feedPieces (c.feed input) k [] pieces).Same (c.feed input k pieces.flatten) :=
  c.feedPieces_same_of_none k c.cut_nil pieces

end Cutter
end TransportProxy.Foundations
