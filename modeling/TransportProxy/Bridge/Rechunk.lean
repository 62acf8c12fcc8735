import TransportProxy.Bridge.Receive

/-! # Chunks of any size into buffers of any size

`poll_read` hands out the rest of the chunk it has begun, or takes the next chunk out of the queue.
`pollReadChecked` is the same function with its slices spelled out, each of which panics when it is
out of range.

How many reads it takes, and which of them is ready, is said of reads for which the budget of the
task suffices (`Channel.pollRecv`); a read that tokio turns away before it looks at the queue
returns no bytes and no end.
-/
namespace TransportProxy.Slipstream
open Foundations
set_option autoImplicit false

namespace SlipstreamRecvHalf

/-- `buf.put_slice(&xs[lo..hi])` into `remaining` free bytes; `none` is a panic. -/
def putSlice (remaining : ℕ) (xs : Bytes) (lo hi : ℕ) : Option Bytes :=
  if lo ≤ hi ∧ hi ≤ xs.length ∧ hi - lo ≤ remaining then some ((xs.drop lo).take (hi - lo))
  else none

/-- `poll_read` with its panics. -/
def pollReadChecked (half : SlipstreamRecvHalf) (recvRx : Channel Bytes recvCapacity)
    (remaining : ℕ) : Option (Poll Bytes × SlipstreamRecvHalf × Channel Bytes recvCapacity) :=
  if half.pendingOff < half.pending.length then
    let n := min (half.pending.length - half.pendingOff) remaining
    (putSlice remaining half.pending half.pendingOff (half.pendingOff + n)).map fun data =>
      (.ready data,
        if half.pending.length ≤ half.pendingOff + n then ⟨[], 0⟩
        else ⟨half.pending, half.pendingOff + n⟩, recvRx)
  else
    match recvRx.pollRecv with
    | (.ready (some v), q) =>
      if v.isEmpty then some (.ready [], half, q)
      else
        let n := min v.length remaining
        (putSlice remaining v 0 n).map fun data =>
          (.ready data, if v.length ≤ n then ⟨[], 0⟩ else ⟨v, n⟩, q)
    | (.ready none, q) => some (.ready [], half, q)
    | (.pending, q) => some (.pending, half, q)

theorem putSlice_of_le {remaining n lo : ℕ} {xs : Bytes} (hn : lo + n ≤ xs.length)
    (hr : n ≤ remaining) : putSlice remaining xs lo (lo + n) = some ((xs.drop lo).take n) := by
  have hsub : lo + n - lo = n := Nat.add_sub_cancel_left lo n
  rw [putSlice, hsub, if_pos ⟨Nat.le_add_right lo n, hn, hr⟩]

/-- No slice is out of range. -/
theorem pollReadChecked_eq (half : SlipstreamRecvHalf) (q : Channel Bytes recvCapacity)
    (remaining : ℕ) :
    half.pollReadChecked q remaining = some (half.pollRead q remaining) := by
  unfold pollReadChecked pollRead
  by_cases hp : half.pendingOff < half.pending.length
  · have hslice := @putSlice_of_le remaining
      (min (half.pending.length - half.pendingOff) remaining) half.pendingOff half.pending
      (by omega) (Nat.min_le_right ..)
    rw [if_pos hp, if_pos hp]
    simp only [hslice, Option.map_some]
    rfl
  · rw [if_neg hp, if_neg hp]
    obtain ⟨v, rest, -, hq⟩ | ⟨-, -, hq⟩ | ⟨-, -, hq⟩ := q.pollRecv_cases
    · simp only [hq]
      cases hv : v.isEmpty with
      | true => rfl
      | false =>
        have hslice := @putSlice_of_le remaining (min v.length remaining) 0 v
          (by omega) (Nat.min_le_right ..)
        rw [Nat.zero_add] at hslice
        simp only [hslice, Bool.false_eq_true, if_false, Option.map_some, take, Nat.sub_zero,
          Nat.zero_add]
    · rw [hq]
    · rw [hq]

/-! ## The offset -/

/-- Nothing is kept, or a chunk of which there is a rest. -/
def Tidy (half : SlipstreamRecvHalf) : Prop :=
  (half.pending = [] ∧ half.pendingOff = 0) ∨ half.pendingOff < half.pending.length

/-- The states that calls of `poll_read` lead to, whatever they find in the queue. -/
inductive Reachable : SlipstreamRecvHalf → Prop where
  | new : Reachable .new
  | pollRead {half} (h : Reachable half) (q : Channel Bytes recvCapacity) (remaining : ℕ) :
      Reachable (half.pollRead q remaining).2.1

theorem take_tidy (half : SlipstreamRecvHalf) (remaining : ℕ) : (half.take remaining).2.Tidy := by
  simp only [take]
  split
  · exact .inl ⟨rfl, rfl⟩
  · rename_i hlt
    exact .inr (Nat.lt_of_not_le hlt)

theorem Tidy.pollRead {half : SlipstreamRecvHalf} (h : half.Tidy) (q : Channel Bytes recvCapacity)
    (remaining : ℕ) : (half.pollRead q remaining).2.1.Tidy := by
  unfold SlipstreamRecvHalf.pollRead
  by_cases hp : half.pendingOff < half.pending.length
  · rw [if_pos hp]
    exact half.take_tidy remaining
  · rw [if_neg hp]
    obtain ⟨v, rest, -, hq⟩ | ⟨-, -, hq⟩ | ⟨-, -, hq⟩ := q.pollRecv_cases
    · simp only [hq]
      split
      · exact h
      · exact take_tidy _ remaining
    · rw [hq]
      exact h
    · rw [hq]
      exact h

theorem Reachable.tidy {half : SlipstreamRecvHalf} (h : Reachable half) : half.Tidy := by
  induction h with
  | new => exact .inl ⟨rfl, rfl⟩
  | pollRead h q remaining ih => exact ih.pollRead q remaining

/-! ## One read -/

/-- What is to be read before the next end. -/
def upToEnd (half : SlipstreamRecvHalf) (q : Channel Bytes recvCapacity) : Bytes :=
  half.unread ++ beforeEnd q.buf

/-- There is an end in the queue or behind it. -/
def Ends (q : Channel Bytes recvCapacity) : Prop := [] ∈ q.buf ∨ q.sender = false

theorem take_length_le (half : SlipstreamRecvHalf) (remaining : ℕ) :
    (half.take remaining).1.length ≤ remaining := by
  simp only [take, List.length_take]
  omega

theorem pollRead_length_le {half half' : SlipstreamRecvHalf} {q q' : Channel Bytes recvCapacity}
    {remaining : ℕ} {data : Bytes} (h : half.pollRead q remaining = (.ready data, half', q')) :
    data.length ≤ remaining := by
  unfold pollRead at h
  by_cases hp : half.pendingOff < half.pending.length
  · simp only [if_pos hp, Prod.mk.injEq, Poll.ready.injEq] at h
    rw [← h.1]
    exact half.take_length_le remaining
  · rw [if_neg hp] at h
    obtain ⟨v, rest, -, hq⟩ | ⟨-, -, hq⟩ | ⟨-, -, hq⟩ := q.pollRecv_cases
    · simp only [hq] at h
      split at h
      · simp only [Prod.mk.injEq, Poll.ready.injEq] at h
        rw [← h.1]
        exact Nat.zero_le _
      · simp only [Prod.mk.injEq, Poll.ready.injEq] at h
        rw [← h.1]
        exact take_length_le _ remaining
    · simp [hq] at h
    · simp only [hq, Prod.mk.injEq, Poll.ready.injEq] at h
      rw [← h.1]
      exact Nat.zero_le _

/-- What a read does: it hands out bytes, it finds an end, or there is nothing yet. -/
inductive Reads (half : SlipstreamRecvHalf) (q : Channel Bytes recvCapacity) (remaining : ℕ) :
    Poll Bytes → SlipstreamRecvHalf → Channel Bytes recvCapacity → Prop where
  | data {data half' q'} (hne : data ≠ []) (hle : data.length ≤ remaining)
      (hup : half.upToEnd q = data ++ half'.upToEnd q') (hends : Ends q' ↔ Ends q) :
      Reads half q remaining (.ready data) half' q'
  | ended {half' q'} (hup : half.upToEnd q = []) (hends : Ends q) :
      Reads half q remaining (.ready []) half' q'
  | pending (hup : half.upToEnd q = []) (hends : ¬ Ends q) :
      Reads half q remaining .pending half q.wait

theorem ends_pollRead {half half' : SlipstreamRecvHalf} {q q' : Channel Bytes recvCapacity}
    {remaining : ℕ} {data : Bytes} (h : half.pollRead q remaining = (.ready data, half', q'))
    (hd : data ≠ []) : Ends q' ↔ Ends q := by
  have hsender := (half.pollRead_ends q remaining).2
  have hsuffix := half.pollRead_suffix q remaining
  rw [h] at hsender hsuffix
  constructor
  · rintro (hm | hs)
    · exact .inl (hsuffix.subset hm)
    · exact .inr (by rw [← hsender, hs])
  · rintro (hm | hs)
    · refine .inl ((pollRead_marker h hm).resolve_right fun he => hd ?_)
      exact Poll.ready.inj he
    · exact .inr (by rw [hsender, hs])

theorem pollRead_reads (half : SlipstreamRecvHalf) (q : Channel Bytes recvCapacity)
    {remaining : ℕ} (hn : 0 < remaining) :
    Reads half q remaining (half.pollRead q remaining).1 (half.pollRead q remaining).2.1
      (half.pollRead q remaining).2.2 := by
  rcases hr : half.pollRead q remaining with ⟨data | -, half', q'⟩
  · by_cases hd : data = []
    · subst hd
      obtain hm | ⟨-, hu, hb, -, -, hs⟩ := pollRead_marks hr hn
      · have hsym := congrArg symbolsBeforeEnd hm
        rw [symbolsBeforeEnd_map_some, symbolsBeforeEnd_marks] at hsym
        refine .ended hsym (.inl (none_mem_marks.mp ?_))
        have hmem : none ∈ half.unread.map some ++ marks q.buf := by
          rw [hm]
          exact List.mem_append_left _ (none_mem_marked.mpr rfl)
        simpa using hmem
      · exact .ended (by rw [upToEnd, hu, hb]; rfl) (.inr hs)
    · refine .data hd (pollRead_length_le hr) ?_ (ends_pollRead hr hd)
      obtain hm | ⟨hnil, -⟩ := pollRead_marks hr hn
      · have hsym := congrArg symbolsBeforeEnd hm
        rw [symbolsBeforeEnd_map_some, symbolsBeforeEnd_marks, marked_of_ne hd,
          symbolsBeforeEnd_map_some, symbolsBeforeEnd_map_some, symbolsBeforeEnd_marks] at hsym
        exact hsym
      · exact absurd hnil hd
  · obtain ⟨hu, hb, hs, rfl, rfl⟩ := pollRead_pending hr
    refine .pending (by rw [upToEnd, hu, hb]; rfl) ?_
    simp [Ends, hb, hs]

/-! ## Reads, one after the other -/

/-- Calls of `poll_read` with buffers of these sizes, while nothing new arrives and the budget
suffices. -/
def pollReads (half : SlipstreamRecvHalf) (q : Channel Bytes recvCapacity) :
    List ℕ → List (Poll Bytes) × SlipstreamRecvHalf × Channel Bytes recvCapacity
  | [] => ([], half, q)
  | n :: ns =>
    let r := half.pollRead q n
    let s := pollReads r.2.1 r.2.2 ns
    (r.1 :: s.1, s.2)

def readyBytes : Poll Bytes → Option Bytes
  | .ready data => some data
  | .pending => none

/-- What the calls that were ready returned. -/
def returned (rs : List (Poll Bytes)) : List Bytes := rs.filterMap readyBytes

@[simp] theorem returned_nil : returned [] = [] := rfl

@[simp] theorem returned_ready (data : Bytes) (rs : List (Poll Bytes)) :
    returned (.ready data :: rs) = data :: returned rs := rfl

@[simp] theorem returned_pending (rs : List (Poll Bytes)) :
    returned (.pending :: rs) = returned rs := rfl

theorem Reachable.pollReads {half : SlipstreamRecvHalf} (h : Reachable half)
    (q : Channel Bytes recvCapacity) (ns : List ℕ) : Reachable (half.pollReads q ns).2.1 := by
  induction ns generalizing half q with
  | nil => exact h
  | cons n ns ih => exact ih (h.pollRead q n) _

/-- As long as no read has returned nothing, what they returned is the front of what was to be
read. Each of them returned something, unless all of it was returned. -/
theorem pollReads_open {half : SlipstreamRecvHalf} {q : Channel Bytes recvCapacity} {ns : List ℕ}
    (hn : ∀ n ∈ ns, 0 < n) (hr : [] ∉ returned (half.pollReads q ns).1) :
    (returned (half.pollReads q ns).1).flatten ++
        (half.pollReads q ns).2.1.upToEnd (half.pollReads q ns).2.2 = half.upToEnd q ∧
      (Ends (half.pollReads q ns).2.2 ↔ Ends q) := by
  induction ns generalizing half q with
  | nil => exact ⟨rfl, Iff.rfl⟩
  | cons n ns ih =>
    have hread := half.pollRead_reads q (hn n List.mem_cons_self)
    have hns : ∀ m ∈ ns, 0 < m := fun m hm => hn m (List.mem_cons_of_mem _ hm)
    simp only [SlipstreamRecvHalf.pollReads] at hr ⊢
    generalize half.pollRead q n = r at hread hr ⊢
    obtain ⟨r, half', q'⟩ := r
    cases hread with
    | data hne hle hup hends =>
      rw [returned_ready, List.mem_cons, not_or] at hr
      obtain ⟨hflat, hiff⟩ := ih hns hr.2
      refine ⟨?_, hiff.trans hends⟩
      rw [returned_ready, List.flatten_cons, List.append_assoc, hflat, hup]
    | ended hup hends => simp at hr
    | pending hup hends =>
      rw [returned_pending] at hr
      exact ih hns hr

/-- Enough reads, or reads one of which returned nothing, have returned all that was to be read. -/
theorem pollReads_all {half : SlipstreamRecvHalf} {q : Channel Bytes recvCapacity} {ns : List ℕ}
    (hn : ∀ n ∈ ns, 0 < n) (h : (half.upToEnd q).length ≤ ns.length ∨
      [] ∈ returned (half.pollReads q ns).1) :
    beforeEnd (returned (half.pollReads q ns).1) = half.upToEnd q := by
  induction ns generalizing half q with
  | nil =>
    have hnil : half.upToEnd q = [] := by simpa [pollReads] using h
    rw [hnil]
    rfl
  | cons n ns ih =>
    have hread := half.pollRead_reads q (hn n List.mem_cons_self)
    have hns : ∀ m ∈ ns, 0 < m := fun m hm => hn m (List.mem_cons_of_mem _ hm)
    simp only [pollReads] at h ⊢
    generalize half.pollRead q n = r at hread h ⊢
    obtain ⟨r, half', q'⟩ := r
    cases hread with
    | @data data _ _ hne hle hup hends =>
      rw [returned_ready, beforeEnd_cons hne, hup, ih hns]
      have hpos : 0 < data.length := List.length_pos_of_ne_nil hne
      rw [hup, List.length_append, List.length_cons, returned_ready, List.mem_cons] at h
      obtain h | h | h := h
      · exact .inl (by omega)
      · exact absurd h.symm hne
      · exact .inr h
    | ended hup hends => rw [returned_ready, beforeEnd_end, hup]
    | pending hup hends =>
      have hwait : half'.upToEnd q.wait = [] := hup
      have hshort : (half'.upToEnd q.wait).length ≤ ns.length := by
        rw [hwait]
        exact Nat.zero_le _
      rw [returned_pending]
      exact ih hns (.inl hshort)

/-- From `half` and `q`, reads with buffers of the sizes `ns` had the results `rs` and have led to
`half'` and `q'`, none of them turned away for want of budget. The offset is in the chunk, and no
slice of the next call is out of range. What was returned is what was to be read, up to the next
end and no further. Until all of it is returned each call returns something, and then one returns
nothing if and only if there is an end. -/
structure Rechunks (half : SlipstreamRecvHalf) (q : Channel Bytes recvCapacity) (ns : List ℕ)
    (rs : List (Poll Bytes)) (half' : SlipstreamRecvHalf) (q' : Channel Bytes recvCapacity) :
    Prop where
  tidy : half'.Tidy
  inRange : ∀ n, half'.pollReadChecked q' n = some (half'.pollRead q' n)
  front : beforeEnd (returned rs) <+: half.upToEnd q
  all : (half.upToEnd q).length ≤ ns.length ∨ [] ∈ returned rs →
    beforeEnd (returned rs) = half.upToEnd q
  size : [] ∉ returned rs → (returned rs).flatten ≠ half.upToEnd q → ∀ n, 0 < n →
    ∃ data, (half'.pollRead q' n).1 = .ready data ∧ 1 ≤ data.length ∧ data.length ≤ n
  zero : [] ∉ returned rs → ∀ n, 0 < n →
    ((half'.pollRead q' n).1 = .ready [] ↔ (returned rs).flatten = half.upToEnd q ∧ Ends q)

/-- `poll_read` cuts the stream anew and changes nothing else about it. -/
theorem pollRead_rechunks {half : SlipstreamRecvHalf} (h : Reachable half)
    (q : Channel Bytes recvCapacity) {ns : List ℕ} (hn : ∀ n ∈ ns, 0 < n) :
    Rechunks half q ns (half.pollReads q ns).1 (half.pollReads q ns).2.1
      (half.pollReads q ns).2.2 := by
  have hopen := @pollReads_open half q ns hn
  have hall := @pollReads_all half q ns hn
  have htidy := (h.pollReads q ns).tidy
  generalize half.pollReads q ns = r at hopen hall htidy ⊢
  obtain ⟨rs, half', q'⟩ := r
  -- nothing is left exactly when all was returned
  have hleft : [] ∉ returned rs →
      ((returned rs).flatten = half.upToEnd q ↔ half'.upToEnd q' = []) := by
    intro hr
    rw [← (hopen hr).1]
    exact List.self_eq_append_right
  refine ⟨htidy, half'.pollReadChecked_eq q', ?_, hall, ?_, ?_⟩
  · by_cases hr : [] ∈ returned rs
    · rw [hall (.inr hr)]
    · rw [beforeEnd_of_nil_not_mem hr]
      exact ⟨_, (hopen hr).1⟩
  · intro hr hne n hn0
    have hread := half'.pollRead_reads q' hn0
    rw [ne_eq, hleft hr] at hne
    generalize half'.pollRead q' n = r at hread ⊢
    obtain ⟨r, half'', q''⟩ := r
    cases hread with
    | data hd hle hup hends => exact ⟨_, rfl, List.length_pos_of_ne_nil hd, hle⟩
    | ended hup hends => exact absurd hup hne
    | pending hup hends => exact absurd hup hne
  · intro hr n hn0
    have hread := half'.pollRead_reads q' hn0
    rw [hleft hr, ← (hopen hr).2]
    generalize half'.pollRead q' n = r at hread ⊢
    obtain ⟨r, half'', q''⟩ := r
    cases hread with
    | data hd hle hup hends =>
      refine iff_of_false (fun he => hd (Poll.ready.inj he)) fun he => ?_
      rw [hup, List.append_eq_nil_iff] at he
      exact hd he.1.1
    | ended hup hends => exact iff_of_true rfl ⟨hup, hends⟩
    | pending hup hends => exact iff_of_false nofun fun he => hends he.2

/-- A chunk of three bytes of which two are read; another chunk, and an end, are in the queue. -/
def oneLeft : SlipstreamRecvHalf :=
  (new.pollRead ⟨[[1, 2, 3]], by decide, true, true, false⟩ 2).2.1

def chunkAndEnd : Channel Bytes recvCapacity := ⟨[[4, 5], [], [6]], by decide, true, true, false⟩

theorem pollRead_rechunks_oneLeft : oneLeft.upToEnd chunkAndEnd = [3, 4, 5] ∧
    ∃ rs half' q', oneLeft.pollReads chunkAndEnd [7, 1, 7, 2] = (rs, half', q') ∧
      rs = [.ready [3], .ready [4], .ready [5], .ready []] ∧
      Rechunks oneLeft chunkAndEnd [7, 1, 7, 2] rs half' q' := by
  have hreach : Reachable oneLeft := .pollRead .new _ _
  exact ⟨by decide, _, _, _, rfl, by decide, pollRead_rechunks hreach chunkAndEnd (by decide)⟩

end SlipstreamRecvHalf

namespace Bridge

theorem step_recvHalf {b b' : Bridge} {op : BridgeOp} {out : List BridgeObs}
    (h : b.recvHalf.Reachable) (hs : machine.step b op = some (b', out)) :
    b'.recvHalf.Reachable := by
  cases receive_cases hs with
  | @read remaining data half q ho hr | @readPending remaining half q ho hr =>
    have hread := h.pollRead b.recvQ remaining
    rwa [hr] at hread
  | @push v =>
    obtain ⟨-, _, hv⟩ | ⟨-, hv⟩ := b.recvTrySend_cases v <;> rw [hv] <;> exact h
  | untouched hu => rwa [hu.half]

/-- Whatever happens to a bridge, the reads that follow find its half in such a state. -/
theorem recvHalf_reachable {ops : List BridgeOp} {b : Bridge} {tr : List BridgeObs}
    (hr : machine.run new ops = some (b, tr)) : b.recvHalf.Reachable :=
  Machine.run_invariant (fun b => b.recvHalf.Reachable) (fun _ _ _ _ hi _ hs => step_recvHalf hi hs)
    hr (Machine.Along.true _ _) .new

end Bridge
end TransportProxy.Slipstream
