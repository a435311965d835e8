import Anx.Lib.Machine

/-!
# Code that calls operations

Sequential code as a tree: it returns, or it calls an operation and goes on with the answer.
The environment chooses how each call ends, and it may stop the code between any two calls.

- `Operations`, `Code`: operations on a state, and code that calls them;
- `Code.eval`: a run of the code to its end;
- `Code.wp J Q`: whatever the environment chooses, `J` holds before every call and `Q` at
  the end; `wp_bind`, `wp_mono` and `wp_keeps` are its rules;
- `sessions`: runs of code one after another, each of which may be stopped anywhere;
- `sessions_always`: what every call preserves, where `J` holds before it and the
  environment keeps to a condition, holds in every state that such runs pass through.
-/

namespace Anx.Lib

/-- Operations on a state, with the answers they give and what the environment chooses. -/
structure Operations (σ : Type) where
  Op : Type
  Ans : Op → Type
  Choice : Type
  perform : (o : Op) → Choice → σ → Ans o × σ

/-- Code that calls operations. -/
inductive Code {σ : Type} (I : Operations σ) (α : Type) where
  | ret (a : α)
  | call (o : I.Op) (k : I.Ans o → Code I α)

namespace Code

variable {σ : Type} {I : Operations σ} {α β : Type}

/-- Sequencing. -/
protected def bind : Code I α → (α → Code I β) → Code I β
  | ret a, f => f a
  | call o k, f => call o fun ans => (k ans).bind f

instance : Monad (Code I) where
  pure := ret
  bind := Code.bind

/-- A single call. -/
def perform (o : I.Op) : Code I (I.Ans o) := call o ret

/-- A run to the end of the code, with the choices that the environment makes. -/
def eval : Code I α → List I.Choice → σ → Option (α × σ)
  | ret a, _, s => some (a, s)
  | call _ _, [], _ => none
  | call o k, c :: cs, s => (k (I.perform o c s).1).eval cs (I.perform o c s).2

/-- `J` holds before every call, and `Q` at the end. -/
def wp (J : I.Op → σ → Prop) (Q : α → σ → Prop) : Code I α → σ → Prop
  | ret a, s => Q a s
  | call o k, s => J o s ∧ ∀ c, (k (I.perform o c s).1).wp J Q (I.perform o c s).2

variable {J J' : I.Op → σ → Prop} {s t : σ}

@[simp] theorem wp_ret {Q : α → σ → Prop} {a : α} : (ret a : Code I α).wp J Q s ↔ Q a s := Iff.rfl

@[simp] theorem wp_pure {Q : α → σ → Prop} {a : α} :
    (pure a : Code I α).wp J Q s ↔ Q a s := Iff.rfl

theorem wp_bind {x : Code I α} {f : α → Code I β} {Q : β → σ → Prop} :
    (x >>= f).wp J Q s ↔ x.wp J (fun a t => (f a).wp J Q t) s := by
  induction x generalizing s with
  | ret a => exact Iff.rfl
  | call o k ih => exact and_congr_right' (forall_congr' fun c => ih _)

theorem wp_mono {x : Code I α} {Q Q' : α → σ → Prop} (hJ : ∀ o t, J o t → J' o t)
    (hQ : ∀ a t, Q a t → Q' a t) (h : x.wp J Q s) : x.wp J' Q' s := by
  induction x generalizing s with
  | ret a => exact hQ a s h
  | call o k ih => exact ⟨hJ o s h.1, fun c => ih _ (h.2 c)⟩

/-- Code that needs to know nothing about what went before it. -/
theorem wp_seq {x : Code I α} {f : α → Code I β} {Q : β → σ → Prop}
    (hx : x.wp J (fun _ _ => True) s) (hf : ∀ a t, (f a).wp J Q t) : (x >>= f).wp J Q s :=
  wp_bind.mpr (wp_mono (fun _ _ h => h) (fun a t _ => hf a t) hx)

/-- A call that may be made anywhere, in such code. -/
theorem wp_perform_seq {o : I.Op} {f : I.Ans o → Code I β} {Q : β → σ → Prop} (hJ : J o s)
    (hf : ∀ a t, (f a).wp J Q t) : (perform o >>= f).wp J Q s :=
  ⟨hJ, fun _ => hf _ _⟩

/-- What all calls of a kind preserve is kept by code that makes only such calls. -/
theorem wp_keeps {x : Code I α} {Q : α → σ → Prop} {P : σ → Prop}
    (hJ : ∀ o t, J o t → P t → J' o t) (hcall : ∀ o c t, J o t → P t → P (I.perform o c t).2)
    (h : x.wp J Q s) (hs : P s) : x.wp J' (fun a t => Q a t ∧ P t) s := by
  induction x generalizing s with
  | ret a => exact ⟨h, hs⟩
  | call o k ih =>
    exact ⟨hJ o s h.1 hs, fun c => ih _ (h.2 c) (hcall o c s h.1 hs)⟩

/-- What holds at the end of all runs holds at the end of one. -/
theorem eval_wp {x : Code I α} {Q : α → σ → Prop} {cs : List I.Choice} {a : α}
    (h : x.wp J Q s) (heval : x.eval cs s = some (a, t)) : Q a t := by
  induction x generalizing s cs with
  | ret b =>
    cases heval
    exact h
  | call o k ih =>
    cases cs with
    | nil => cases heval
    | cons c cs => exact ih _ (h.2 c) heval

/-- What every call preserves holds at some end. -/
theorem exists_end [Nonempty I.Choice] {x : Code I α} {Q : α → σ → Prop} {P : σ → Prop}
    (hcall : ∀ o c t, P t → P (I.perform o c t).2) (h : x.wp J Q s) (hs : P s) :
    ∃ a t, Q a t ∧ P t := by
  induction x generalizing s with
  | ret a => exact ⟨a, s, h, hs⟩
  | call o k ih =>
    obtain ⟨c⟩ := ‹Nonempty I.Choice›
    exact ih _ (h.2 c) (hcall o c s hs)

end Code

/-! ## Runs one after another -/

/-- The state, and the code that is running. -/
structure Session {σ : Type} (I : Operations σ) (α : Type) where
  state : σ
  code : Option (Code I α)

/-- A run starts, its next call is made, or it is stopped. -/
inductive SessionAction {σ : Type} (I : Operations σ) (R : Type) where
  | start (r : R)
  | call (c : I.Choice)
  | stop

section

variable {σ : Type} {I : Operations σ} {α R : Type}

/-- Runs of the programs, one at a time. -/
def sessions (program : R → σ → Code I α) : Machine (Session I α) (SessionAction I R) where
  step s
    | .start r => if s.code.isNone then some ⟨s.state, some (program r s.state)⟩ else none
    | .call c =>
      match s.code with
      | some (.call o k) => some ⟨(I.perform o c s.state).2, some (k (I.perform o c s.state).1)⟩
      | _ => none
    | .stop => some ⟨s.state, none⟩

/-- The next call of the code satisfies `G`. -/
def NextCall (G : I.Op → σ → Prop) (t : σ) : Option (Code I α) → Prop
  | some (.call o _) => G o t
  | some (.ret _) | none => True

/-- The next call is made under the condition `G`. -/
def SessionGuard (G : I.Op → σ → Prop) (s : Session I α) : SessionAction I R → Prop
  | .call _ => NextCall G s.state s.code
  | .start _ | .stop => True

instance {G : I.Op → σ → Prop} [∀ o t, Decidable (G o t)] (t : σ) :
    (x : Option (Code I α)) → Decidable (NextCall G t x)
  | some (.call o _) => inferInstanceAs (Decidable (G o t))
  | some (.ret _) | none => inferInstanceAs (Decidable True)

instance {G : I.Op → σ → Prop} [∀ o t, Decidable (G o t)] (s : Session I α) :
    (a : SessionAction I R) → Decidable (SessionGuard G s a)
  | .call _ => inferInstanceAs (Decidable (NextCall G s.state s.code))
  | .start _ | .stop => inferInstanceAs (Decidable True)

/-- **Safety of runs that may stop anywhere**: what every call preserves, under `J` and the
condition `G`, holds in every state. -/
theorem sessions_always {program : R → σ → Code I α} {J G : I.Op → σ → Prop} {P : σ → Prop}
    (hprogram : ∀ r t, (program r t).wp J (fun _ _ => True) t)
    (hcall : ∀ o c t, J o t → G o t → P t → P (I.perform o c t).2) {t : σ} (ht : P t)
    {as : List (SessionAction I R)}
    (h : (sessions program).Guarded (SessionGuard G) ⟨t, none⟩ as) :
    (sessions program).Always (fun s => P s.state) ⟨t, none⟩ as := by
  refine (Machine.always_of_guarded (P := fun s => P s.state ∧
    ∀ x ∈ s.code, x.wp J (fun _ _ => True) s.state) ?_ ⟨ht, by simp⟩ h).mono fun s hs => hs.1
  rintro s a s' ⟨hP, hcode⟩ hG hstep
  cases a with
  | start r =>
    simp only [sessions] at hstep
    split at hstep
    · cases hstep
      exact ⟨hP, by simpa using hprogram r s.state⟩
    · cases hstep
  | call c =>
    simp only [sessions] at hstep
    split at hstep
    · next o k hsome =>
      cases hstep
      obtain ⟨hJ, hnext⟩ := hcode _ hsome
      have hcondition : G o s.state := by simpa [SessionGuard, hsome, NextCall] using hG
      exact ⟨hcall o c s.state hJ hcondition hP, by simpa using hnext c⟩
    · cases hstep
  | stop =>
    cases hstep
    exact ⟨hP, by simp⟩

end

end Anx.Lib
