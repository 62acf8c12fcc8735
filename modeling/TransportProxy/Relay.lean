import TransportProxy.Bridge.Halves

/-! # The copy loops

`relay` and the echo loop of `handle_connection` (`lib.rs`) read into one buffer of 8192 bytes,
write what was read with `write_all`, and flush. A reader is the list of its reads and how it ends.
A writer is any automaton that answers each write with a count up to the length offered, or fails.
Both loops are one loop that counts in its own way, and what they do is kept as a trace, so that a
moment of a run is a front of its trace.
-/
namespace TransportProxy.Relay
open Slipstream
set_option autoImplicit false

abbrev bufLen : ℕ := 8192

/-- `let mut buf = [0u8; 8192]` -/
structure Buf where
  bytes : Bytes
  size : bytes.length = bufLen

/-- What a read with `1 <= n <= 8192` returns. -/
structure Chunk where
  data : Bytes
  nonempty : data ≠ []
  fits : data.length ≤ bufLen

namespace Buf

def zero : Buf := ⟨List.replicate bufLen 0, List.length_replicate⟩

/-- A read overwrites the front of the buffer and leaves the rest as it was. -/
def fill (buf : Buf) (chunk : Chunk) : Buf where
  bytes := chunk.data ++ buf.bytes.drop chunk.data.length
  size := by
    have hfits := chunk.fits
    have hsize := buf.size
    simp only [List.length_append, List.length_drop]
    omega

/-- `&buf[..n]` after a read of `n` bytes is what was read. -/
@[simp] theorem fill_take (buf : Buf) (chunk : Chunk) :
    (buf.fill chunk).bytes.take chunk.data.length = chunk.data := List.take_left

end Buf

/-- A reader: its reads, and then end of file or an error. -/
structure Reader (ε : Type) where
  reads : List Chunk
  ends : Except ε Unit

structure Writer (ω ε : Type) where
  write : ω → (offered : Bytes) → Except ε (Fin (offered.length + 1)) × ω
  flush : ω → Except ε Unit × ω

inductive CopyError (ε : Type) where
  | io (e : ε)
  /-- `ErrorKind::WriteZero`, raised by `write_all` -/
  | writeZero
  deriving DecidableEq, Repr

inductive CopyObs (ε : Type) where
  | read (data : Bytes)
  | eof
  | wrote (data : Bytes)
  | flushed
  | failed (e : CopyError ε)
  deriving DecidableEq, Repr

variable {ω ε τ : Type}

theorem length_drop_lt {buf : Bytes} {n : ℕ} (hb : buf ≠ []) (hn : n ≠ 0) :
    (buf.drop n).length < buf.length := by
  have hpos := List.length_pos_of_ne_nil hb
  rw [List.length_drop]
  omega

/-- `AsyncWriteExt::write_all`: what it did, its result, and the writer after it. -/
def writeAll (W : Writer ω ε) (w : ω) (buf : Bytes) :
    List (CopyObs ε) × Except (CopyError ε) Unit × ω :=
  if _hb : buf = [] then ([], .ok (), w)
  else
    match W.write w buf with
    | (.error e, w) => ([.failed (.io e)], .error (.io e), w)
    | (.ok n, w) =>
      if _hn : n.val = 0 then ([.failed .writeZero], .error .writeZero, w)
      else
        let r := writeAll W w (buf.drop n)
        (.wrote (buf.take n) :: r.1, r.2)
termination_by buf.length
decreasing_by exact length_drop_lt _hb _hn

/-- The loop: its trace and its result. `count` is how `total` grows. -/
def copyLoop (count : τ → ℕ → τ) (W : Writer ω ε) (ends : Except ε Unit) :
    List Chunk → Buf → τ → ω → List (CopyObs ε) × Except (CopyError ε) τ
  | [], _, total, _ =>
    match ends with
    | .ok () => ([.eof], .ok total)
    | .error e => ([.failed (.io e)], .error (.io e))
  | chunk :: reads, buf, total, w =>
    let buf := buf.fill chunk
    let n := chunk.data.length
    match writeAll W w (buf.bytes.take n) with
    | (tr, .error e, _) => (.read chunk.data :: tr, .error e)
    | (tr, .ok (), w) =>
      match W.flush w with
      | (.error e, _) => (.read chunk.data :: (tr ++ [.failed (.io e)]), .error (.io e))
      | (.ok (), w) =>
        let r := copyLoop count W ends reads buf (count total n) w
        (.read chunk.data :: (tr ++ .flushed :: r.1), r.2)

/-- `relay`: `total += n as u64`. -/
def relay (R : Reader ε) (W : Writer ω ε) (w : ω) :
    List (CopyObs ε) × Except (CopyError ε) UInt64 :=
  copyLoop (fun total n => total + UInt64.ofNat n) W R.ends R.reads .zero 0 w

/-- The loop of `handle_connection` without an upstream, which counts nothing. -/
def echoLoop (R : Reader ε) (W : Writer ω ε) (w : ω) :
    List (CopyObs ε) × Except (CopyError ε) Unit :=
  copyLoop (fun _ _ => ()) W R.ends R.reads .zero () w

/-! ## Reading a trace -/

section Trace

@[simp] def CopyObs.read? : CopyObs ε → Option Bytes
  | .read data => some data
  | _ => none

@[simp] def CopyObs.wrote? : CopyObs ε → Option Bytes
  | .wrote data => some data
  | _ => none

def taken (tr : List (CopyObs ε)) : Bytes := (tr.filterMap CopyObs.read?).flatten

def accepted (tr : List (CopyObs ε)) : Bytes := (tr.filterMap CopyObs.wrote?).flatten

variable (o : CopyObs ε) (t u : List (CopyObs ε))

@[simp] theorem taken_nil : taken ([] : List (CopyObs ε)) = [] := rfl

@[simp] theorem taken_cons : taken (o :: t) = o.read?.getD [] ++ taken t := by
  cases o <;> rfl

@[simp] theorem taken_append : taken (t ++ u) = taken t ++ taken u := by
  rw [taken, List.filterMap_append, List.flatten_append]
  rfl

@[simp] theorem accepted_nil : accepted ([] : List (CopyObs ε)) = [] := rfl

@[simp] theorem accepted_cons : accepted (o :: t) = o.wrote?.getD [] ++ accepted t := by
  cases o <;> rfl

@[simp] theorem accepted_append : accepted (t ++ u) = accepted t ++ accepted u := by
  rw [accepted, List.filterMap_append, List.flatten_append]
  rfl

end Trace

/-- At every moment of the trace the bytes accepted are the front of those read. -/
def Behind (tr : List (CopyObs ε)) : Prop :=
  ∀ before after, tr = before ++ after → accepted before <+: taken before

theorem Behind.single {o : CopyObs ε} (h : o.wrote? = none) : Behind [o] := by
  intro before after hs
  obtain ⟨rfl, -⟩ | ⟨rfl, -⟩ := List.singleton_eq_append_iff.mp hs
  · exact List.prefix_rfl
  · rw [accepted_cons, h, Option.getD_none, accepted_nil, List.append_nil]
    exact List.nil_prefix

/-- One after the other, if the writer has caught up in between. -/
theorem Behind.append {t u : List (CopyObs ε)} (ht : Behind t) (he : accepted t = taken t)
    (hu : Behind u) : Behind (t ++ u) := by
  intro before after hs
  obtain ⟨mid, rfl, hmid⟩ | ⟨mid, rfl, -⟩ := List.append_eq_append_iff.mp hs
  · rw [accepted_append, taken_append, he]
    exact (List.prefix_append_right_inj _).mpr (hu mid after hmid)
  · exact ht before mid rfl

/-! ## What the reader and the writer do -/

/-- The one thing that an observation says: a read, a write or a flush had this answer, where
`reads` are the reads that are left. -/
inductive Answers (W : Writer ω ε) (ends : Except ε Unit) :
    List Chunk → ω → CopyObs ε → List Chunk → ω → Prop where
  | read {chunk reads w} : Answers W ends (chunk :: reads) w (.read chunk.data) reads w
  | eof {w} (he : ends = .ok ()) : Answers W ends [] w .eof [] w
  | readFailed {w e} (he : ends = .error e) : Answers W ends [] w (.failed (.io e)) [] w
  | wrote {reads w w' offered n} (hw : W.write w offered = (.ok n, w')) (hn : n.val ≠ 0) :
      Answers W ends reads w (.wrote (offered.take n)) reads w'
  | writeZero {reads w w' offered n} (hb : offered ≠ []) (hw : W.write w offered = (.ok n, w'))
      (hn : n.val = 0) : Answers W ends reads w (.failed .writeZero) reads w'
  | writeFailed {reads w w' offered e} (hw : W.write w offered = (.error e, w')) :
      Answers W ends reads w (.failed (.io e)) reads w'
  | flushed {reads w w'} (hf : W.flush w = (.ok (), w')) :
      Answers W ends reads w .flushed reads w'
  | flushFailed {reads w w' e} (hf : W.flush w = (.error e, w')) :
      Answers W ends reads w (.failed (.io e)) reads w'

/-- A trace is what these two answered, one after the other. -/
inductive Answered (W : Writer ω ε) (ends : Except ε Unit) :
    List Chunk → ω → List (CopyObs ε) → List Chunk → ω → Prop where
  | nil {reads w} : Answered W ends reads w [] reads w
  | cons {reads reads' reads'' w w' w'' o tr} (h : Answers W ends reads w o reads' w')
      (ht : Answered W ends reads' w' tr reads'' w'') :
      Answered W ends reads w (o :: tr) reads'' w''

section Answered
variable {W : Writer ω ε} {ends : Except ε Unit} {reads reads' reads'' : List Chunk} {w w' w'' : ω}
  {o : CopyObs ε} {t u : List (CopyObs ε)}

theorem Answered.single (h : Answers W ends reads w o reads' w') :
    Answered W ends reads w [o] reads' w' := .cons h .nil

theorem Answered.append (ht : Answered W ends reads w t reads' w')
    (hu : Answered W ends reads' w' u reads'' w'') :
    Answered W ends reads w (t ++ u) reads'' w'' := by
  induction ht with
  | nil => exact hu
  | cons h _ ih => exact .cons h (ih hu)

end Answered

/-- The writer accepts these bytes, in as many parts as it likes. -/
inductive Accepts (W : Writer ω ε) : ω → Bytes → ω → Prop where
  | nil {w} : Accepts W w [] w
  | part {w w' w'' buf n} (hb : buf ≠ []) (hw : W.write w buf = (.ok n, w')) (hn : n.val ≠ 0)
      (h : Accepts W w' (buf.drop n) w'') : Accepts W w buf w''

/-- The writer accepts all of this data, and its flushes succeed. -/
inductive Takes (W : Writer ω ε) : ω → List Bytes → Prop where
  | nil {w} : Takes W w []
  | cons {w w' w'' data rest} (ha : Accepts W w data w') (hf : W.flush w' = (.ok (), w''))
      (h : Takes W w'' rest) : Takes W w (data :: rest)

/-! ## `write_all` -/

/-- What `write_all` does with the bytes `buf`, whatever the writer answers. -/
structure WritesAll (W : Writer ω ε) (w : ω) (buf : Bytes) (tr : List (CopyObs ε))
    (res : Except (CopyError ε) Unit) (w' : ω) : Prop where
  answered : ∀ ends reads, Answered W ends reads w tr reads w'
  reads : taken tr = []
  behind : ∀ before after, tr = before ++ after → accepted before <+: buf
  ok_iff : res = .ok () ↔ ∀ e, .failed e ∉ tr
  accepts : ∀ v, Accepts W w buf v ↔ res = .ok () ∧ v = w'
  noEof : .eof ∉ tr
  all : res = .ok () → accepted tr = buf
  last : ∀ e, res = .error e → tr.getLast? = some (.failed e)

section WriteAll
variable {W : Writer ω ε} {w w' v : ω} {buf : Bytes} {n : Fin (buf.length + 1)}
  {tr : List (CopyObs ε)} {res : Except (CopyError ε) Unit}

/-- The first write fails, or accepts nothing. -/
theorem WritesAll.failed {e : CopyError ε}
    (ha : ∀ ends reads, Answers W ends reads w (.failed e) reads w')
    (hn : ∀ v, ¬ Accepts W w buf v) : WritesAll W w buf [.failed e] (.error e) w' where
  answered ends reads := .single (ha ends reads)
  reads := rfl
  behind before after hs := by
    obtain ⟨rfl, -⟩ | ⟨rfl, -⟩ := List.singleton_eq_append_iff.mp hs <;> exact List.nil_prefix
  ok_iff := by simp
  accepts v := ⟨fun h => absurd h (hn v), nofun⟩
  noEof := by simp
  all := nofun
  last e' he := by rw [Except.error.inj he]; rfl

/-- The writer accepts a part of the bytes, and the rest is written as well. -/
theorem WritesAll.part (hb : buf ≠ []) (hw : W.write w buf = (.ok n, w')) (hn : n.val ≠ 0)
    (h : WritesAll W w' (buf.drop n) tr res v) :
    WritesAll W w buf (.wrote (buf.take n) :: tr) res v where
  answered ends reads := .cons (.wrote hw hn) (h.answered ends reads)
  reads := by simp [h.reads]
  behind before after hs := by
    cases before with
    | nil => exact List.nil_prefix
    | cons o before =>
      obtain ⟨rfl, htail⟩ := List.cons.inj hs
      have hpart := (List.prefix_append_right_inj (buf.take n)).mpr (h.behind before after htail)
      rwa [List.take_append_drop] at hpart
  ok_iff := by simp [h.ok_iff]
  accepts u := by
    rw [← h.accepts u]
    constructor
    · intro ha
      cases ha with
      | nil => exact absurd rfl hb
      | part _ hw' _ ha =>
        obtain ⟨h₁, rfl⟩ := Prod.mk.inj (hw.symm.trans hw')
        obtain rfl := Except.ok.inj h₁
        exact ha
    · exact .part hb hw hn
  noEof := by simp [h.noEof]
  all hok := by simp [h.all hok]
  last e he := by simp [List.getLast?_cons, h.last e he]

end WriteAll

theorem writeAll_spec (W : Writer ω ε) (w : ω) (buf : Bytes) :
    WritesAll W w buf (writeAll W w buf).1 (writeAll W w buf).2.1 (writeAll W w buf).2.2 := by
  fun_induction writeAll W w buf with
  | case1 w =>
    refine ⟨fun _ _ => .nil, rfl, by simp, by simp, fun v => ?_, by simp, fun _ => rfl, nofun⟩
    constructor
    · intro ha
      cases ha with
      | nil => exact ⟨rfl, rfl⟩
      | part hb => exact absurd rfl hb
    · rintro ⟨-, rfl⟩
      exact .nil
  | case2 w buf hb e w' hw =>
    refine .failed (fun _ _ => .writeFailed hw) fun v ha => ?_
    cases ha with
    | nil => exact hb rfl
    | part _ hw' =>
      rw [hw] at hw'
      cases hw'
  | case3 w buf hb n w' hw hn =>
    refine .failed (fun _ _ => .writeZero hb hw hn) fun v ha => ?_
    cases ha with
    | nil => exact hb rfl
    | part _ hw' hn' =>
      obtain ⟨h₁, -⟩ := Prod.mk.inj (hw.symm.trans hw')
      obtain rfl := Except.ok.inj h₁
      exact hn' hn
  | case4 w buf hb n w' hw hn r ih => exact .part hb hw hn ih

/-! ## The loop -/

/-- A loop over these reads copies: all it sees is what the reader and the writer answer; nothing is
written that was not read before; it returns `Ok` exactly when the reader comes to its end of file
and the writer takes everything, and then everything has been written, in order and once; and it
returns an error exactly when one was the last answer. -/
structure Copies (reads : List Chunk) (ends : Except ε Unit) (W : Writer ω ε) (w : ω)
    (tr : List (CopyObs ε)) (res : Except (CopyError ε) τ) : Prop where
  answered : ∃ left w', Answered W ends reads w tr left w'
  behind : Behind tr
  ok_iff : (∃ total, res = .ok total) ↔ ends = .ok () ∧ Takes W w (reads.map Chunk.data)
  eof_iff : (∃ total, res = .ok total) ↔ .eof ∈ tr ∧ ∀ e, .failed e ∉ tr
  failed : ∀ e, res = .error e → tr.getLast? = some (.failed e)
  all : ∀ total, res = .ok total →
    accepted tr = taken tr ∧ taken tr = (reads.map Chunk.data).flatten

section Loop
variable {W : Writer ω ε} {w w' w'' : ω} {chunk : Chunk} {reads : List Chunk}
  {ends : Except ε Unit} {tr tr' : List (CopyObs ε)} {res : Except (CopyError ε) τ} {data : Bytes}

theorem WritesAll.behind_read {res : Except (CopyError ε) Unit}
    (h : WritesAll W w data tr res w') : Behind (.read data :: tr) := by
  intro before after hs
  cases before with
  | nil => exact List.prefix_rfl
  | cons o before =>
    obtain ⟨rfl, htail⟩ := List.cons.inj hs
    obtain rfl : tr = before ++ after := htail
    have hreads := h.reads
    rw [taken_append, List.append_eq_nil_iff] at hreads
    simpa [hreads.1] using h.behind before after rfl

/-- The loop ends with an answer that is an error. -/
theorem Copies.of_failed {left : List Chunk} {e : CopyError ε} (hb : Behind tr)
    (ha : Answered W ends reads w tr left w') (hl : tr.getLast? = some (.failed e))
    (hn : ¬ (ends = .ok () ∧ Takes W w (reads.map Chunk.data))) :
    Copies reads ends W w tr (.error e : Except (CopyError ε) τ) where
  answered := ⟨left, w', ha⟩
  behind := hb
  ok_iff := ⟨nofun, fun h => absurd h hn⟩
  eof_iff := ⟨nofun, fun h => absurd (List.mem_of_getLast? hl) (h.2 e)⟩
  failed e' he := by rw [← Except.error.inj he, hl]
  all := nofun

/-- What was read is written and flushed, and the loop goes on. -/
theorem Copies.round (hw : WritesAll W w chunk.data tr (.ok ()) w')
    (hf : W.flush w' = (.ok (), w'')) (h : Copies reads ends W w'' tr' res) :
    Copies (chunk :: reads) ends W w (.read chunk.data :: (tr ++ .flushed :: tr')) res := by
  have hok := hw.ok_iff.mp rfl
  have hacc := hw.all rfl
  have hread : Behind (.read chunk.data :: tr) := hw.behind_read
  refine ⟨?_, ?_, ?_, ?_, ?_, ?_⟩
  · obtain ⟨left, v, hv⟩ := h.answered
    exact ⟨left, v, .cons .read ((hw.answered ends reads).append (.cons (.flushed hf) hv))⟩
  · have hrest : Behind ([.flushed] ++ tr') := (Behind.single rfl).append rfl h.behind
    exact hread.append (by simp [hacc, hw.reads]) hrest
  · rw [h.ok_iff, List.map_cons]
    refine and_congr_right fun _ => ⟨.cons ((hw.accepts w').mpr ⟨rfl, rfl⟩) hf, fun ht => ?_⟩
    cases ht with
    | cons ha hf' ht =>
      obtain ⟨-, rfl⟩ := (hw.accepts _).mp ha
      obtain ⟨-, rfl⟩ := Prod.mk.inj (hf.symm.trans hf')
      exact ht
  · simp [h.eof_iff, hw.noEof, hok]
  · intro e he
    have hlast := h.failed e he
    simp [List.getLast?_cons, List.getLast?_append, hlast]
  · intro total ht
    obtain ⟨hall, hbytes⟩ := h.all total ht
    simp [hacc, hw.reads, hall, hbytes]

end Loop

/-- A read is followed by a failure, or all of it is written and flushed and the loop goes on. -/
theorem copyLoop_cons (count : τ → ℕ → τ) (W : Writer ω ε) (ends : Except ε Unit) (chunk : Chunk)
    (reads : List Chunk) (buf : Buf) (total : τ) (w : ω) :
    (∃ tr e, copyLoop count W ends (chunk :: reads) buf total w = (tr, .error e) ∧
      Copies (chunk :: reads) ends W w tr (.error e : Except (CopyError ε) τ)) ∨
    ∃ tr w' w'', WritesAll W w chunk.data tr (.ok ()) w' ∧ W.flush w' = (.ok (), w'') ∧
      copyLoop count W ends (chunk :: reads) buf total w =
        let r := copyLoop count W ends reads (buf.fill chunk) (count total chunk.data.length) w''
        (.read chunk.data :: (tr ++ .flushed :: r.1), r.2) := by
  have hw := writeAll_spec W w chunk.data
  simp only [copyLoop, Buf.fill_take]
  generalize writeAll W w chunk.data = r at hw ⊢
  obtain ⟨tr, res, w'⟩ := r
  have hread := hw.behind_read
  cases res with
  | error e =>
    have hlast := hw.last e rfl
    refine .inl ⟨_, e, rfl, .of_failed hread (.cons .read (hw.answered ends reads))
      (by simp [List.getLast?_cons, hlast]) ?_⟩
    rintro ⟨-, ht⟩
    cases ht with
    | cons ha => exact nomatch ((hw.accepts _).mp ha).1
  | ok u =>
    cases u
    simp only
    rcases hf : W.flush w' with ⟨res, w''⟩
    cases res with
    | error e =>
      refine .inl ⟨_, .io e, rfl, .of_failed ?_
        (.cons .read ((hw.answered ends reads).append (.single (.flushFailed hf)))) ?_ ?_⟩
      · exact hread.append (by simp [hw.all rfl, hw.reads]) (.single rfl)
      · simp [List.getLast?_cons]
      · rintro ⟨-, ht⟩
        cases ht with
        | cons ha hf' =>
          obtain ⟨-, rfl⟩ := (hw.accepts _).mp ha
          rw [hf] at hf'
          cases hf'
    | ok u =>
      cases u
      exact .inr ⟨tr, w', w'', hw, hf, rfl⟩

theorem copyLoop_spec (count : τ → ℕ → τ) (W : Writer ω ε) (ends : Except ε Unit)
    (reads : List Chunk) (buf : Buf) (total : τ) (w : ω) :
    Copies reads ends W w (copyLoop count W ends reads buf total w).1
      (copyLoop count W ends reads buf total w).2 := by
  induction reads generalizing buf total w with
  | nil =>
    cases ends with
    | ok =>
      exact ⟨⟨[], w, .single (.eof rfl)⟩, .single rfl, by simp [copyLoop, Takes.nil],
        by simp [copyLoop], nofun, fun _ _ => ⟨rfl, rfl⟩⟩
    | error e => exact .of_failed (.single rfl) (.single (.readFailed rfl)) rfl (by simp)
  | cons chunk reads ih =>
    obtain ⟨tr, e, h, hc⟩ | ⟨tr, w', w'', hw, hf, h⟩ := copyLoop_cons count W ends chunk reads buf
      total w
    · rw [h]
      exact hc
    · rw [h]
      exact .round hw hf (ih ..)

/-- What the loop returns is the count of its reads. -/
theorem copyLoop_count {count : τ → ℕ → τ} {W : Writer ω ε} {ends : Except ε Unit}
    {reads : List Chunk} {buf : Buf} {total t : τ} {w : ω}
    (ht : (copyLoop count W ends reads buf total w).2 = .ok t) :
    t = reads.foldl (fun total chunk => count total chunk.data.length) total := by
  induction reads generalizing buf total w with
  | nil =>
    cases ends with
    | ok => exact (Except.ok.inj ht).symm
    | error e => cases ht
  | cons chunk reads ih =>
    obtain ⟨tr, e, h, -⟩ | ⟨tr, w', w'', -, -, h⟩ := copyLoop_cons count W ends chunk reads buf
      total w
    · rw [h] at ht
      cases ht
    · rw [h] at ht
      exact ih ht

theorem foldl_count (reads : List Chunk) (total : UInt64) :
    reads.foldl (fun total chunk => total + UInt64.ofNat chunk.data.length) total =
      total + UInt64.ofNat (reads.map Chunk.data).flatten.length := by
  induction reads generalizing total with
  | nil => simp
  | cons chunk reads ih =>
    rw [List.foldl_cons, ih, List.map_cons, List.flatten_cons, List.length_append,
      UInt64.ofNat_add, UInt64.add_assoc]

/-- Both loops copy exactly, and `relay` returns the number of bytes copied, as a `u64`. -/
theorem loops_copy_exactly (R : Reader ε) (W : Writer ω ε) (w : ω) :
    (Copies R.reads R.ends W w (relay R W w).1 (relay R W w).2 ∧
      ∀ total, (relay R W w).2 = .ok total →
        total = UInt64.ofNat (accepted (relay R W w).1).length) ∧
    Copies R.reads R.ends W w (echoLoop R W w).1 (echoLoop R W w).2 := by
  have hrelay := copyLoop_spec (fun total n => total + UInt64.ofNat n) W R.ends R.reads .zero 0 w
  refine ⟨⟨hrelay, fun total ht => ?_⟩, copyLoop_spec ..⟩
  obtain ⟨hacc, htaken⟩ := hrelay.all total ht
  rw [relay, hacc, htaken, copyLoop_count ht, foldl_count, UInt64.zero_add]

/-- A writer that takes at most two bytes at a time, and as many writes as `w` says. -/
def pairWriter : Writer ℕ Unit where
  write w offered :=
    match w with
    | 0 => (.error (), 0)
    | w + 1 => (.ok ⟨min 2 offered.length, by omega⟩, w)
  flush w := (.ok (), w)

def threeBytes : Chunk := ⟨[1, 2, 3], by decide, by decide⟩

def oneByte : Chunk := ⟨[4], by decide, by decide⟩

def twoReads : Reader Unit := ⟨[threeBytes, oneByte], .ok ()⟩

/-- The first read takes two writes. With three writes all is copied, and with two the second read
is not. -/
theorem loops_copy_exactly_pairWriter :
    relay twoReads pairWriter 3 = ([.read [1, 2, 3], .wrote [1, 2], .wrote [3], .flushed,
      .read [4], .wrote [4], .flushed, .eof], .ok 4) ∧
    echoLoop twoReads pairWriter 2 = ([.read [1, 2, 3], .wrote [1, 2], .wrote [3], .flushed,
      .read [4], .failed (.io ())], .error (.io ())) ∧
    Takes pairWriter 3 [[1, 2, 3], [4]] ∧ ¬ Takes pairWriter 2 [[1, 2, 3], [4]] := by
  have hrelay : relay twoReads pairWriter 3 = ([.read [1, 2, 3], .wrote [1, 2], .wrote [3],
      .flushed, .read [4], .wrote [4], .flushed, .eof], .ok 4) := by
    simp only [relay, twoReads, copyLoop, Buf.fill_take]
    simp [threeBytes, oneByte, writeAll, pairWriter]
  have hecho : echoLoop twoReads pairWriter 2 = ([.read [1, 2, 3], .wrote [1, 2], .wrote [3],
      .flushed, .read [4], .failed (.io ())], .error (.io ())) := by
    simp only [echoLoop, twoReads, copyLoop, Buf.fill_take]
    simp [threeBytes, oneByte, writeAll, pairWriter]
  refine ⟨hrelay, hecho, ?_, fun ht => ?_⟩
  · exact ((loops_copy_exactly twoReads pairWriter 3).1.1.ok_iff.mp ⟨4, by rw [hrelay]⟩).2
  · have hok := (loops_copy_exactly twoReads pairWriter 2).2.ok_iff.mpr ⟨rfl, ht⟩
    rw [hecho] at hok
    obtain ⟨total, htotal⟩ := hok
    cases htotal

end TransportProxy.Relay
