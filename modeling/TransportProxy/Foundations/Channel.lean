import Mathlib.Data.List.Basic

/-! # Bounded channels

A FIFO queue of at most `cap` items between a sending and a receiving side, each of which can be
dropped, together with the waker of a receiving task that found nothing to take. The one structure
serves the synchronous and the asynchronous channel of the code: they differ only in which of the
operations below they offer (`tryRecv` or `pollRecv`).

The waker is what makes a lost wake-up visible: `pollRecv` on an empty channel with a live sender
registers it, and the next successful `trySend`, or the drop of the sender, fires and clears it.
-/
namespace TransportProxy.Foundations
set_option autoImplicit false

inductive Poll (α : Type) where
  | ready (a : α)
  | pending
  deriving DecidableEq, Repr

inductive TrySendError where
  | full
  | disconnected
  deriving DecidableEq, Repr

inductive TryRecvError where
  | empty
  | disconnected
  deriving DecidableEq, Repr

/-- A channel with room for `cap` items; the bound is part of the type. -/
structure Channel (α : Type) (cap : ℕ) where
  buf : List α
  bounded : buf.length ≤ cap
  sender : Bool
  receiver : Bool
  waker : Bool

namespace Channel
variable {α : Type} {cap : ℕ}

/-- A fresh channel: empty, both sides alive, nobody waiting. -/
def new (α : Type) (cap : ℕ) : Channel α cap := ⟨[], Nat.zero_le _, true, true, false⟩

/-- One more item at the back; a waiting receiver is woken. -/
def push (c : Channel α cap) (a : α) (h : c.buf.length < cap) : Channel α cap :=
  { c with buf := c.buf ++ [a], bounded := by rw [List.length_append]; exact h, waker := false }

/-- The item at the front is gone. -/
def pop (c : Channel α cap) : Channel α cap :=
  { c with
    buf := c.buf.tail
    bounded := by
      have h := c.bounded
      rw [List.length_tail]
      omega }

/-- The receiving task is parked until something happens. -/
def wait (c : Channel α cap) : Channel α cap := { c with waker := true }

/-- A dropped receiver is reported before a full queue. -/
def trySend (c : Channel α cap) (a : α) : Except TrySendError Unit × Channel α cap :=
  if c.receiver = false then (.error .disconnected, c)
  else if h : c.buf.length < cap then (.ok (), c.push a h)
  else (.error .full, c)

/-- Disconnected is reported only once the queue is empty. -/
def tryRecv (c : Channel α cap) : Except TryRecvError α × Channel α cap :=
  match c.buf.head? with
  | some a => (.ok a, c.pop)
  | none => if c.sender then (.error .empty, c) else (.error .disconnected, c)

/-- The queued items come before the end of the channel; `none` is that end. A runtime may also
answer `Pending` to a task that has used up its budget, and poll it again at once. Such polls take
nothing from the queue; they are left out, so `pending` stands for an empty queue. -/
def pollRecv (c : Channel α cap) : Poll (Option α) × Channel α cap :=
  match c.buf.head? with
  | some a => (.ready (some a), c.pop)
  | none => if c.sender then (.pending, c.wait) else (.ready none, c)

def isClosed (c : Channel α cap) : Bool := !c.receiver

/-- The last sender is dropped: a waiting receiver is woken and will find the end. -/
def dropSender (c : Channel α cap) : Channel α cap := { c with sender := false, waker := false }

def dropReceiver (c : Channel α cap) : Channel α cap := { c with receiver := false }

section Fields
variable (c : Channel α cap) (a : α)

@[simp] theorem new_buf : (new α cap).buf = [] := rfl
@[simp] theorem new_sender : (new α cap).sender = true := rfl
@[simp] theorem new_receiver : (new α cap).receiver = true := rfl
@[simp] theorem new_waker : (new α cap).waker = false := rfl
@[simp] theorem push_buf (h : c.buf.length < cap) : (c.push a h).buf = c.buf ++ [a] := rfl
@[simp] theorem push_sender (h : c.buf.length < cap) : (c.push a h).sender = c.sender := rfl
@[simp] theorem push_receiver (h : c.buf.length < cap) : (c.push a h).receiver = c.receiver := rfl
@[simp] theorem push_waker (h : c.buf.length < cap) : (c.push a h).waker = false := rfl
@[simp] theorem pop_buf : c.pop.buf = c.buf.tail := rfl
@[simp] theorem pop_sender : c.pop.sender = c.sender := rfl
@[simp] theorem pop_receiver : c.pop.receiver = c.receiver := rfl
@[simp] theorem pop_waker : c.pop.waker = c.waker := rfl
@[simp] theorem wait_buf : c.wait.buf = c.buf := rfl
@[simp] theorem wait_sender : c.wait.sender = c.sender := rfl
@[simp] theorem wait_receiver : c.wait.receiver = c.receiver := rfl
@[simp] theorem wait_waker : c.wait.waker = true := rfl
@[simp] theorem dropSender_buf : c.dropSender.buf = c.buf := rfl
@[simp] theorem dropSender_sender : c.dropSender.sender = false := rfl
@[simp] theorem dropSender_receiver : c.dropSender.receiver = c.receiver := rfl
@[simp] theorem dropSender_waker : c.dropSender.waker = false := rfl
@[simp] theorem dropReceiver_buf : c.dropReceiver.buf = c.buf := rfl
@[simp] theorem dropReceiver_sender : c.dropReceiver.sender = c.sender := rfl
@[simp] theorem dropReceiver_receiver : c.dropReceiver.receiver = false := rfl
@[simp] theorem dropReceiver_waker : c.dropReceiver.waker = c.waker := rfl

end Fields

theorem trySend_cases (c : Channel α cap) (a : α) :
    (c.receiver = false ∧ c.trySend a = (.error .disconnected, c)) ∨
    (c.receiver = true ∧ ∃ h : c.buf.length < cap, c.trySend a = (.ok (), c.push a h)) ∨
    (c.receiver = true ∧ c.buf.length = cap ∧ c.trySend a = (.error .full, c)) := by
  unfold trySend
  by_cases hr : c.receiver = false
  · exact .inl ⟨hr, if_pos hr⟩
  · have hr' : c.receiver = true := by simpa using hr
    rw [if_neg hr]
    by_cases hb : c.buf.length < cap
    · exact .inr (.inl ⟨hr', hb, dif_pos hb⟩)
    · have hfull : c.buf.length = cap := Nat.le_antisymm c.bounded (Nat.le_of_not_lt hb)
      exact .inr (.inr ⟨hr', hfull, dif_neg hb⟩)

theorem tryRecv_cases (c : Channel α cap) :
    (∃ a rest, c.buf = a :: rest ∧ c.tryRecv = (.ok a, c.pop)) ∨
    (c.buf = [] ∧ c.sender = true ∧ c.tryRecv = (.error .empty, c)) ∨
    (c.buf = [] ∧ c.sender = false ∧ c.tryRecv = (.error .disconnected, c)) := by
  unfold tryRecv
  cases hb : c.buf with
  | cons a rest => exact .inl ⟨a, rest, rfl, rfl⟩
  | nil =>
    cases hs : c.sender with
    | true => exact .inr (.inl ⟨rfl, rfl, rfl⟩)
    | false => exact .inr (.inr ⟨rfl, rfl, rfl⟩)

theorem pollRecv_cases (c : Channel α cap) :
    (∃ a rest, c.buf = a :: rest ∧ c.pollRecv = (.ready (some a), c.pop)) ∨
    (c.buf = [] ∧ c.sender = true ∧ c.pollRecv = (.pending, c.wait)) ∨
    (c.buf = [] ∧ c.sender = false ∧ c.pollRecv = (.ready none, c)) := by
  unfold pollRecv
  cases hb : c.buf with
  | cons a rest => exact .inl ⟨a, rest, rfl, rfl⟩
  | nil =>
    cases hs : c.sender with
    | true => exact .inr (.inl ⟨rfl, rfl, rfl⟩)
    | false => exact .inr (.inr ⟨rfl, rfl, rfl⟩)

theorem trySend_of_room {c : Channel α cap} (a : α) (hr : c.receiver = true)
    (hb : c.buf.length < cap) : c.trySend a = (.ok (), c.push a hb) := by
  obtain ⟨h, -⟩ | ⟨-, _, h⟩ | ⟨-, h, -⟩ := c.trySend_cases a
  · rw [hr] at h
    cases h
  · exact h
  · omega

end Channel
end TransportProxy.Foundations
