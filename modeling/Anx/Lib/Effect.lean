import Mathlib.Logic.Basic

/-!
# Imperative code with exceptions and undefined behaviour

`Prog σ α` is a call of imperative code over the state `σ`: it returns, throws
(keeping the effects made before the throw, as C++ and Java do), waits for ever
on an event that is not coming, or runs into undefined behaviour. Of the latter
only the state in which it was reached is kept: nothing can be said about what
follows.

The proofs execute such code symbolically: `Prog.bind_ok`, `Prog.bind_throw` and
`Prog.bind_undef` replace a call by its outcome, one call at a time.
-/

namespace Anx.Lib

universe u v

/-- How a call ends. -/
inductive Outcome (σ : Type u) (α : Type v) where
  | ok (a : α) (s : σ)
  | throw (s : σ)
  | hang (s : σ)
  | undef (s : σ)
deriving DecidableEq

/-- A call of imperative code over the state `σ`. -/
def Prog (σ : Type u) (α : Type v) : Type (max u v) := σ → Outcome σ α

namespace Prog

variable {σ : Type u} {α β : Type v}

/-- Return without touching the state. -/
protected def pure (a : α) : Prog σ α := fun s => .ok a s

/-- Sequencing: only a normal return goes on. -/
protected def bind (x : Prog σ α) (f : α → Prog σ β) : Prog σ β := fun s =>
  match x s with
  | .ok a t => f a t
  | .throw t => .throw t
  | .hang t => .hang t
  | .undef t => .undef t

instance : Monad (Prog σ) where
  pure := Prog.pure
  bind := Prog.bind

/-- The current state. -/
def get : Prog σ σ := fun s => .ok s s

/-- Update the state. -/
def modify (f : σ → σ) : Prog σ PUnit := fun s => .ok ⟨⟩ (f s)

/-- Undefined behaviour. -/
def undef : Prog σ α := fun s => .undef s

/-- `try { body } catch (...) { handler }`: the handler starts from the state in
which the exception was thrown. -/
def tryCatch (body handler : Prog σ α) : Prog σ α := fun s =>
  match body s with
  | .throw t => handler t
  | r => r

@[simp] theorem get_apply (s : σ) : (get : Prog σ σ) s = .ok s s := rfl

@[simp] theorem modify_apply (f : σ → σ) (s : σ) : modify f s = .ok ⟨⟩ (f s) := rfl

section Bind

variable {x : Prog σ α} {f : α → Prog σ β} {s t : σ} {a : α}

theorem bind_ok (h : x s = .ok a t) : (x >>= f) s = f a t := by
  show Prog.bind x f s = f a t
  rw [Prog.bind, h]

theorem bind_throw (h : x s = .throw t) : (x >>= f) s = .throw t := by
  show Prog.bind x f s = .throw t
  rw [Prog.bind, h]

theorem bind_undef (h : x s = .undef t) : (x >>= f) s = .undef t := by
  show Prog.bind x f s = .undef t
  rw [Prog.bind, h]

end Bind

section TryCatch

variable {body handler : Prog σ α} {s t : σ} {a : α}

theorem tryCatch_ok (h : body s = .ok a t) : tryCatch body handler s = .ok a t := by
  rw [tryCatch, h]

theorem tryCatch_throw (h : body s = .throw t) : tryCatch body handler s = handler t := by
  rw [tryCatch, h]

theorem tryCatch_undef (h : body s = .undef t) : tryCatch body handler s = .undef t := by
  rw [tryCatch, h]

end TryCatch

end Prog

end Anx.Lib
