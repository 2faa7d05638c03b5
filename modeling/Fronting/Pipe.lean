import Fronting.Machine

/-!
# Pipes

What a byte stream promises its two ends: the bytes that come out are those that went in,
in order and each once.
-/

namespace Fronting

structure Pipe (α : Type*) where
  pushed : List α
  pulled : List α
  ordered : pulled <+: pushed

inductive PipeEvent (α : Type*)
  | push (xs : List α)
  | pull (xs : List α)

namespace Pipe

variable {α : Type*} [DecidableEq α]

def empty : Pipe α := ⟨[], [], List.prefix_refl []⟩

def push (p : Pipe α) (xs : List α) : Pipe α :=
  ⟨p.pushed ++ xs, p.pulled, p.ordered.trans (List.prefix_append _ _)⟩

def pull (p : Pipe α) (xs : List α) (h : p.pulled ++ xs <+: p.pushed) : Pipe α :=
  ⟨p.pushed, p.pulled ++ xs, h⟩

/-- Nothing comes out of a pipe before it has gone in. -/
def step (p : Pipe α) : PipeEvent α → Option (Pipe α)
  | .push xs => some (p.push xs)
  | .pull xs => if h : p.pulled ++ xs <+: p.pushed then some (p.pull xs h) else none

theorem step_pull {p : Pipe α} {xs : List α} (h : p.pulled ++ xs <+: p.pushed) :
    p.step (.pull xs) = some (p.pull xs h) := dif_pos h

variable (α) in
def machine : Machine (Pipe α) (PipeEvent α) := ⟨empty, step⟩

end Pipe
end Fronting
