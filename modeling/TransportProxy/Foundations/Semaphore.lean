import TransportProxy.Foundations.Channel

/-! # Counting semaphores

A semaphore of `n` permits. Each permit is free or held, whatever is acquired and released; the
balance is part of the structure. `acquire` is one poll of a waiting acquire: it stays pending as
long as no permit is free, and fails once the semaphore is closed.
-/
namespace TransportProxy.Foundations
set_option autoImplicit false

structure Semaphore (n : ℕ) where
  permits : ℕ
  held : ℕ
  closed : Bool
  balance : permits + held = n
  deriving DecidableEq, Repr

namespace Semaphore
variable {n : ℕ}

def new (n : ℕ) : Semaphore n := ⟨n, 0, false, rfl⟩

/-- `none` is the error of a closed semaphore. -/
def acquire (sem : Semaphore n) : Poll (Option (Semaphore n)) :=
  if sem.closed = true then .ready none
  else if h : 0 < sem.permits then
    .ready (some
      { sem with
        permits := sem.permits - 1
        held := sem.held + 1
        balance := by
          have hb := sem.balance
          omega })
  else .pending

/-- A held permit is dropped. -/
def release (sem : Semaphore n) : Semaphore n :=
  if h : 0 < sem.held then
    { sem with
      permits := sem.permits + 1
      held := sem.held - 1
      balance := by
        have hb := sem.balance
        omega }
  else sem

def close (sem : Semaphore n) : Semaphore n := { sem with closed := true }

@[simp] theorem new_held : (new n).held = 0 := rfl
@[simp] theorem close_held (sem : Semaphore n) : sem.close.held = sem.held := rfl

@[simp] theorem release_held (sem : Semaphore n) : sem.release.held = sem.held - 1 := by
  unfold release
  by_cases h : 0 < sem.held
  · rw [dif_pos h]
  · rw [dif_neg h]
    omega

@[simp] theorem release_closed (sem : Semaphore n) : sem.release.closed = sem.closed := by
  unfold release
  split <;> rfl

theorem acquire_closed {sem sem' : Semaphore n} (h : sem.acquire = .ready (some sem')) :
    sem'.closed = sem.closed := by
  unfold acquire at h
  split at h
  · cases h
  · split at h
    · rw [← Option.some.inj (Poll.ready.inj h)]
    · cases h

theorem acquire_cases (sem : Semaphore n) :
    (sem.closed = true ∧ sem.acquire = .ready none) ∨
    (∃ sem' : Semaphore n, sem'.held = sem.held + 1 ∧ sem.acquire = .ready (some sem')) ∨
    (sem.closed = false ∧ sem.held = n ∧ sem.acquire = .pending) := by
  have hb := sem.balance
  unfold acquire
  by_cases hc : sem.closed = true
  · exact .inl ⟨hc, if_pos hc⟩
  · rw [if_neg hc]
    have hc' : sem.closed = false := by simpa using hc
    by_cases h : 0 < sem.permits
    · rw [dif_pos h]
      exact .inr (.inl ⟨_, rfl, rfl⟩)
    · rw [dif_neg h]
      have hheld : sem.held = n := by omega
      exact .inr (.inr ⟨hc', hheld, rfl⟩)

/-- An acquire waits exactly while all permits of an open semaphore are held. -/
theorem acquire_pending_iff (sem : Semaphore n) :
    sem.acquire = .pending ↔ sem.closed = false ∧ sem.held = n := by
  have hb := sem.balance
  constructor
  · intro h
    obtain ⟨-, h'⟩ | ⟨sem', -, h'⟩ | ⟨hc, hn, -⟩ := sem.acquire_cases
    · rw [h'] at h
      cases h
    · rw [h'] at h
      cases h
    · exact ⟨hc, hn⟩
  · rintro ⟨hc, hn⟩
    have hp : ¬ 0 < sem.permits := by omega
    rw [acquire, if_neg (by rw [hc]; exact Bool.false_ne_true), dif_neg hp]

end Semaphore
end TransportProxy.Foundations
