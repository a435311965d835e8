import Mathlib.Logic.Basic

/-!
# Code that makes calls in a row

Straight-line code over a state makes one call after another until one of them throws.
Which calls it makes does not depend on what they return.

- `Calls`: what each call throws, if it does, and otherwise does to the state;
- `run`: calls in a row; `run_append`, `run_eq_ok_iff`, `run_invariant`: its rules;
- `Makes`: code makes these calls and returns this value; `Makes.bind`: in sequence;
  `Makes.bind_pure`: followed by what makes no call.
-/

namespace Anx.Lib

universe u

variable {C E S α β : Type u}

/-- Calls on a state. -/
structure Calls (C E S : Type u) where
  thrown : C → Option E
  after : C → S → S

namespace Calls

variable (m : Calls C E S)

/-- Calls in a row, up to the first one that throws. -/
def run : List C → S → EStateM.Result E S PUnit
  | [], s => .ok ⟨⟩ s
  | c :: cs, s =>
    match m.thrown c with
    | some e => .error e s
    | none => run cs (m.after c s)

/-- The state that calls lead to. -/
def state : EStateM.Result E S α → S
  | .ok _ s => s
  | .error _ s => s

variable {m} {c : C} {cs cs' : List C} {s t : S}

theorem run_cons_thrown {e : E} (h : m.thrown c = some e) :
    m.run (c :: cs) s = .error e s := by
  rw [run, h]

theorem run_cons_none (h : m.thrown c = none) :
    m.run (c :: cs) s = m.run cs (m.after c s) := by
  rw [run, h]

theorem run_append : m.run (cs ++ cs') s =
    match m.run cs s with
    | .ok _ t => m.run cs' t
    | .error e t => .error e t := by
  induction cs generalizing s with
  | nil => rfl
  | cons c cs ih =>
    rw [List.cons_append]
    cases hc : m.thrown c with
    | none => rw [run_cons_none hc, run_cons_none hc, ih]
    | some e => rw [run_cons_thrown hc, run_cons_thrown hc]

theorem run_append_eq_ok {u : S} (h : m.run (cs ++ cs') s = .ok ⟨⟩ u) :
    ∃ t, m.run cs s = .ok ⟨⟩ t ∧ m.run cs' t = .ok ⟨⟩ u := by
  rw [run_append] at h
  cases hrun : m.run cs s with
  | ok v t =>
    rw [hrun] at h
    exact ⟨t, rfl, h⟩
  | error e t =>
    rw [hrun] at h
    cases h

theorem run_cons_eq_ok {u : S} (h : m.run (c :: cs) s = .ok ⟨⟩ u) :
    m.run cs (m.after c s) = .ok ⟨⟩ u := by
  cases hc : m.thrown c with
  | none => rwa [run_cons_none hc] at h
  | some e =>
    rw [run_cons_thrown hc] at h
    cases h

/-- **Calls come to their end** exactly if none of them throws. -/
theorem run_eq_ok_iff : (∃ t, m.run cs s = .ok ⟨⟩ t) ↔ ∀ c ∈ cs, m.thrown c = none := by
  induction cs generalizing s with
  | nil => exact iff_of_true ⟨s, rfl⟩ fun c hc => (nomatch hc)
  | cons c cs ih =>
    rw [List.forall_mem_cons]
    cases hc : m.thrown c with
    | none => rw [run_cons_none hc, ih, and_iff_right rfl]
    | some e =>
      rw [run_cons_thrown hc]
      exact iff_of_false (fun ⟨t, h⟩ => (nomatch h)) fun h => (nomatch h.1)

/-- **Invariants**: what every call preserves. -/
theorem run_invariant {P : S → Prop} (hstep : ∀ c ∈ cs, ∀ s, P s → P (m.after c s)) (hs : P s) :
    P (state (m.run cs s)) := by
  induction cs generalizing s with
  | nil => exact hs
  | cons c cs ih =>
    obtain ⟨hc, hcs⟩ := List.forall_mem_cons.mp hstep
    cases h : m.thrown c with
    | none =>
      rw [run_cons_none h]
      exact ih hcs (hc s hs)
    | some e =>
      rw [run_cons_thrown h]
      exact hs

theorem run_ok_invariant {P : S → Prop} (hstep : ∀ c ∈ cs, ∀ s, P s → P (m.after c s)) (hs : P s)
    (hrun : m.run cs s = .ok ⟨⟩ t) : P t := by
  have hstate := run_invariant hstep hs
  rwa [hrun] at hstate

/-! ## Code -/

variable (m) in
/-- From the state `s`, the code makes these calls and returns `a`. -/
def Makes (x : EStateM E S α) (s : S) (cs : List C) (a : α) : Prop :=
  x s = match m.run cs s with
    | .ok _ t => .ok a t
    | .error e t => .error e t

/-- Code in sequence makes its calls in sequence. -/
theorem Makes.bind {x : EStateM E S α} {f : α → EStateM E S β} {a : α} {b : β}
    (hx : m.Makes x s cs a) (hf : ∀ t, m.run cs s = .ok ⟨⟩ t → m.Makes (f a) t cs' b) :
    m.Makes (x >>= f) s (cs ++ cs') b := by
  show EStateM.bind x f s = _
  rw [EStateM.bind, hx, run_append]
  cases hrun : m.run cs s with
  | ok u t => exact hf t hrun
  | error e t => rfl

/-- Code that is followed by what makes no call. -/
theorem Makes.bind_pure {x : EStateM E S α} {f : α → EStateM E S β} {a : α} {b : β}
    (hx : m.Makes x s cs a) (hf : ∀ t, m.run cs s = .ok ⟨⟩ t → f a t = .ok b t) :
    m.Makes (x >>= f) s cs b := by
  rw [← List.append_nil cs]
  exact hx.bind hf

/-- Code that is skipped under a condition. -/
theorem Makes.ite_bind {x : EStateM E S α} {f : EStateM E S β} {p : Prop} [Decidable p] {a : α}
    {b : β} (hx : m.Makes x s cs a)
    (hf : ∀ t, m.run (if p then cs else []) s = .ok ⟨⟩ t → m.Makes f t cs' b) :
    m.Makes (if p then x >>= fun _ => f else f) s ((if p then cs else []) ++ cs') b := by
  by_cases hp : p
  · rw [if_pos hp] at hf ⊢
    rw [if_pos hp]
    exact hx.bind hf
  · rw [if_neg hp] at hf ⊢
    rw [if_neg hp]
    exact hf s rfl

end Calls

end Anx.Lib
