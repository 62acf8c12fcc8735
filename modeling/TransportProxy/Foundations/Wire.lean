import TransportProxy.Foundations.Machine

/-! # A wire

What two ends have between them that are connected directly. In each direction there is a pipe: what
is put in on one side is taken out on the other, in the same order and in pieces of any size; the
side that puts in may end it, and then, after all of it has been taken, the other side closes it.
-/
namespace TransportProxy.Foundations
set_option autoImplicit false

structure Pipe (α : Type) where
  /-- put in and not taken out yet -/
  content : List α
  /-- nothing more is put in -/
  ended : Bool
  closed : Bool
  deriving DecidableEq, Repr

inductive PipeEvent (α : Type) where
  /-- nothing at all is the end -/
  | put (xs : List α)
  | take (xs : List α)
  | close
  deriving DecidableEq, Repr

namespace Pipe
variable {α : Type} [DecidableEq α]

def empty : Pipe α := ⟨[], false, false⟩

def step (p : Pipe α) : PipeEvent α → Option (Pipe α)
  | .put xs =>
    if p.ended = false then
      some { p with content := p.content ++ xs, ended := xs.isEmpty }
    else none
  | .take xs =>
    if xs <+: p.content then some { p with content := p.content.drop xs.length } else none
  | .close =>
    if p.ended = true ∧ p.content = [] ∧ p.closed = false then some { p with closed := true }
    else none

variable {p : Pipe α}

theorem step_put (h : p.ended = false) (xs : List α) :
    p.step (.put xs) = some ⟨p.content ++ xs, xs.isEmpty, p.closed⟩ := if_pos h

theorem step_take {xs rest : List α} (h : p.content = xs ++ rest) :
    p.step (.take xs) = some ⟨rest, p.ended, p.closed⟩ := by
  simp [step, h]

theorem step_close (he : p.ended = true) (hn : p.content = []) (hc : p.closed = false) :
    p.step .close = some ⟨p.content, p.ended, true⟩ := if_pos ⟨he, hn, hc⟩

end Pipe

structure Wire (α : Type) where
  up : Pipe α
  down : Pipe α
  deriving DecidableEq, Repr

inductive WireEvent (α : Type) where
  | up (e : PipeEvent α)
  | down (e : PipeEvent α)
  deriving DecidableEq, Repr

namespace Wire
variable {α : Type} [DecidableEq α]

def init : Wire α := ⟨.empty, .empty⟩

def step (w : Wire α) : WireEvent α → Option (Wire α)
  | .up e => (w.up.step e).map fun p => { w with up := p }
  | .down e => (w.down.step e).map fun p => { w with down := p }

/-- All that happens on a wire is seen. -/
def machine : Machine (Wire α) (WireEvent α) (WireEvent α) :=
  ⟨fun w e => (w.step e).map fun w' => (w', [e])⟩

theorem run_up {w : Wire α} {p : Pipe α} {e : PipeEvent α} (h : w.up.step e = some p) :
    machine.run w [.up e] = some (⟨p, w.down⟩, [.up e]) := by
  simp [machine, step, Machine.run, h]

theorem run_down {w : Wire α} {p : Pipe α} {e : PipeEvent α} (h : w.down.step e = some p) :
    machine.run w [.down e] = some (⟨w.up, p⟩, [.down e]) := by
  simp [machine, step, Machine.run, h]

end Wire
end TransportProxy.Foundations
