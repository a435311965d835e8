import Mathlib.Logic.Basic
import Mathlib.Order.WellFounded

/-!
# Labelled machines and their runs

A `Machine` is a guarded, executable step function: `step s a` is `some t` when
action `a` is enabled in `s` and leads to `t`, and `none` otherwise. All
nondeterminism (scheduling, arrival of messages, a changing environment) is in
the choice of the actions, so a run is a list of actions and a concrete run
evaluates by `rfl`.

- `Machine.exec`: the state at the end of a run, if every action was enabled;
- `Machine.Always P`: `P` holds in every state the run passes through;
- `Machine.Guarded G`: every step of the run satisfies the condition `G` on the
  action and the state before it. Both look at a run as far as its actions are
  enabled, so neither assumes that `exec` succeeds;
- `Machine.always_of_guarded`, `Machine.always_iff_guarded`: the rules that turn
  a fact about one step into a fact about whole runs. The second is the exact
  form: if a good state stays good exactly under the steps that satisfy `G`,
  a run is good throughout exactly when all its steps satisfy `G`.
- `Machine.exec_simulates`: forward simulation, lifted from steps to runs;
- `Machine.Keeps`, `Machine.keeps_iff_guarded`: runs in which nothing changes but what the
  steps are about, and the frame rule for them;
- `Machine.Run`, `Machine.Run.eventually`: infinite runs, and the rule that a measure gives
  for what comes about in the fair ones.
-/

namespace Anx.Lib

universe u v w

/-- A labelled machine: a partial step function. -/
structure Machine (S : Type u) (A : Type v) where
  step : S → A → Option S

namespace Machine

variable {S : Type u} {A : Type v} (m : Machine S A)

/-- The state reached by a run from `s`; `none` when some action is disabled. -/
def exec (s : S) : List A → Option S
  | [] => some s
  | a :: as => (m.step s a).bind fun t => exec t as

/-- `P` holds in every state that the run `as` from `s` passes through. -/
def Always (P : S → Prop) : S → List A → Prop
  | s, [] => P s
  | s, a :: as => P s ∧ ∀ t, m.step s a = some t → Always P t as

/-- Every step of the run `as` from `s` satisfies `G`. -/
def Guarded (G : S → A → Prop) : S → List A → Prop
  | _, [] => True
  | s, a :: as => ∀ t, m.step s a = some t → G s a ∧ Guarded G t as

/-- Runs are checked step by step. -/
instance decidableGuarded {G : S → A → Prop} [∀ s a, Decidable (G s a)] :
    (s : S) → (as : List A) → Decidable (m.Guarded G s as)
  | _, [] => isTrue trivial
  | s, a :: as =>
    match h : m.step s a with
    -- a disabled action ends the run
    | none => isTrue fun t ht => by rw [h] at ht; cases ht
    | some t =>
      have : Decidable (m.Guarded G t as) := decidableGuarded t as
      decidable_of_iff (G s a ∧ m.Guarded G t as)
        ⟨fun hG u hu => by rw [h] at hu; cases hu; exact hG, fun hG => hG t h⟩

@[simp] theorem exec_nil (s : S) : m.exec s [] = some s := rfl

theorem exec_cons {s u : S} {a : A} {as : List A} :
    m.exec s (a :: as) = some u ↔ ∃ t, m.step s a = some t ∧ m.exec t as = some u := by
  simp only [exec, Option.bind_eq_some_iff]

theorem exec_append {s u : S} {as bs : List A} :
    m.exec s (as ++ bs) = some u ↔ ∃ t, m.exec s as = some t ∧ m.exec t bs = some u := by
  induction as generalizing s with
  | nil => simp
  | cons a as ih =>
    simp only [List.cons_append, exec_cons, ih]
    constructor
    · rintro ⟨t, ht, v, hv, hu⟩
      exact ⟨v, ⟨t, ht, hv⟩, hu⟩
    · rintro ⟨v, ⟨t, ht, hv⟩, hu⟩
      exact ⟨t, ht, v, hv, hu⟩

variable {m}

/-- **Invariant rule**: what every step preserves holds at the end of a run. -/
theorem exec_invariant {P : S → Prop} (hstep : ∀ s a t, P s → m.step s a = some t → P t)
    {s t : S} {as : List A} (hs : P s) (h : m.exec s as = some t) : P t := by
  induction as generalizing s with
  | nil =>
    cases h
    exact hs
  | cons a as ih =>
    obtain ⟨u, hu, ht⟩ := m.exec_cons.mp h
    exact ih (hstep s a u hs hu) ht

/-- A run that is good throughout starts in a good state. -/
theorem Always.head {P : S → Prop} {s : S} {as : List A} (h : m.Always P s as) : P s := by
  cases as with
  | nil => exact h
  | cons a as => exact h.1

/-- What is good throughout is good throughout from every state that it passes through. -/
theorem Always.of_append {P : S → Prop} {s t : S} {as bs : List A}
    (h : m.Always P s (as ++ bs)) (hrun : m.exec s as = some t) : m.Always P t bs := by
  induction as generalizing s with
  | nil =>
    cases hrun
    exact h
  | cons a as ih =>
    obtain ⟨u, hu, ht⟩ := m.exec_cons.mp hrun
    exact ih (h.2 u hu) ht

theorem Always.mono {P Q : S → Prop} (hPQ : ∀ s, P s → Q s) {s : S} {as : List A}
    (h : m.Always P s as) : m.Always Q s as := by
  induction as generalizing s with
  | nil => exact hPQ s h
  | cons a as ih => exact ⟨hPQ s h.1, fun t ht => ih (h.2 t ht)⟩

/-- **Guarded runs**: a predicate preserved by the steps that satisfy `G` holds
throughout every run whose steps all satisfy `G`. -/
theorem always_of_guarded {P : S → Prop} {G : S → A → Prop}
    (hstep : ∀ s a t, P s → G s a → m.step s a = some t → P t)
    {s : S} {as : List A} (hs : P s) (h : m.Guarded G s as) : m.Always P s as := by
  induction as generalizing s with
  | nil => exact hs
  | cons a as ih =>
    refine ⟨hs, fun t ht => ?_⟩
    obtain ⟨hG, hrest⟩ := h t ht
    exact ih (hstep s a t hs hG ht) hrest

theorem guarded_of_forall {G : S → A → Prop} {as : List A} (h : ∀ a ∈ as, ∀ s, G s a) (s : S) :
    m.Guarded G s as := by
  induction as generalizing s with
  | nil => trivial
  | cons a as ih =>
    exact fun t _ => ⟨h a List.mem_cons_self s, ih (fun b hb => h b (List.mem_cons_of_mem _ hb)) t⟩

/-- What is guarded is guarded from every state that it passes through. -/
theorem Guarded.of_append {G : S → A → Prop} {s t : S} {as bs : List A}
    (h : m.Guarded G s (as ++ bs)) (hrun : m.exec s as = some t) : m.Guarded G t bs := by
  induction as generalizing s with
  | nil =>
    cases hrun
    exact h
  | cons a as ih =>
    obtain ⟨u, hu, ht⟩ := m.exec_cons.mp hrun
    exact ih (h u hu).2 ht

/-- **Exact condition for runs**: let `I` be an invariant, and let a step from a
good state (`P`) lead to a good state exactly when it satisfies `G`. Then a run is
good throughout exactly when all its steps satisfy `G`. -/
theorem always_iff_guarded {I P : S → Prop} {G : S → A → Prop}
    (hI : ∀ s a t, I s → m.step s a = some t → I t)
    (hstep : ∀ s a t, I s → P s → m.step s a = some t → (P t ↔ G s a))
    {s : S} (as : List A) (hIs : I s) (hs : P s) :
    m.Always P s as ↔ m.Guarded G s as := by
  induction as generalizing s with
  | nil => exact ⟨fun _ => trivial, fun _ => hs⟩
  | cons a as ih =>
    constructor
    · rintro ⟨-, h⟩ t ht
      -- the rest of the run starts in `t`
      have hP : P t := (h t ht).head
      exact ⟨(hstep s a t hIs hs ht).mp hP, (ih (hI s a t hIs ht) hP).mp (h t ht)⟩
    · intro h
      refine ⟨hs, fun t ht => ?_⟩
      obtain ⟨hG, hrest⟩ := h t ht
      exact (ih (hI s a t hIs ht) ((hstep s a t hIs hs ht).mpr hG)).mpr hrest

/-- Conditions that are the same in the states of an invariant guard the same runs. -/
theorem guarded_congr {I : S → Prop} {G H : S → A → Prop}
    (hI : ∀ s a t, I s → m.step s a = some t → I t)
    (hGH : ∀ s a t, I s → m.step s a = some t → (G s a ↔ H s a))
    {s : S} (as : List A) (hIs : I s) : m.Guarded G s as ↔ m.Guarded H s as := by
  induction as generalizing s with
  | nil => exact Iff.rfl
  | cons a as ih =>
    refine forall_congr' fun t => forall_congr' fun ht => ?_
    rw [hGH s a t hIs ht, ih (hI s a t hIs ht)]

/-- **Forward simulation**: if related states step under the same action to
related states (as long as the step satisfies `G`), the abstract machine
follows every guarded run of the concrete one. -/
theorem exec_simulates {S' : Type w} {m' : Machine S' A} {R : S → S' → Prop} {G : S → A → Prop}
    (hstep : ∀ s s' a t, R s s' → G s a → m.step s a = some t →
      ∃ t', m'.step s' a = some t' ∧ R t t')
    {s t : S} {s' : S'} {as : List A} (hR : R s s') (hG : m.Guarded G s as)
    (hrun : m.exec s as = some t) : ∃ t', m'.exec s' as = some t' ∧ R t t' := by
  induction as generalizing s s' with
  | nil =>
    cases hrun
    exact ⟨s', rfl, hR⟩
  | cons a as ih =>
    obtain ⟨u, hu, ht⟩ := m.exec_cons.mp hrun
    obtain ⟨hGa, hrest⟩ := hG u hu
    -- one step of the abstract machine, then the rest of the run from there
    obtain ⟨u', hu', hR'⟩ := hstep s s' a u hR hGa hu
    obtain ⟨t', ht', hRt⟩ := ih hR' hrest ht
    exact ⟨t', m'.exec_cons.mpr ⟨u', hu', ht'⟩, hRt⟩

/-! ## Frames -/

section

variable {K V : Type w} {look : S → K → Option V} {touches : K → S → A → Prop}

variable (m) in
/-- In every stretch of the run, what is found under a key stays there, unless a step of the
stretch touches the key. -/
def Keeps (look : S → K → Option V) (touches : K → S → A → Prop) (s : S) (as : List A) : Prop :=
  ∀ pre mid post t u, as = pre ++ (mid ++ post) → m.exec s pre = some t → m.exec t mid = some u →
    ∀ k v, look t k = some v → m.Guarded (fun s a => ¬ touches k s a) t mid → look u k = some v

/-- **Frame rule**: if the steps that satisfy `G` are those that change nothing they do not
touch, a run changes nothing it does not touch exactly when all its steps satisfy `G`. -/
theorem keeps_iff_guarded {G : S → A → Prop}
    (hstep : ∀ s a t, m.step s a = some t →
      (G s a ↔ ∀ k v, look s k = some v → ¬ touches k s a → look t k = some v))
    {s : S} {as : List A} : m.Keeps look touches s as ↔ m.Guarded G s as := by
  constructor
  · intro h
    induction as generalizing s with
    | nil => trivial
    | cons a as ih =>
      intro t ht
      refine ⟨(hstep s a t ht).mpr fun k v hk hnot => ?_, ih fun pre mid post u v has hpre => ?_⟩
      · have hrun : m.exec s [a] = some t := m.exec_cons.mpr ⟨t, ht, rfl⟩
        exact h [] [a] as s t rfl rfl hrun k v hk fun _ _ => ⟨hnot, trivial⟩
      · exact h (a :: pre) mid post u v (congrArg (a :: ·) has) (m.exec_cons.mpr ⟨t, ht, hpre⟩)
  · rintro hG pre mid post t u rfl hpre hmid k v hk hnot
    replace hG := hG.of_append hpre
    clear hpre
    induction mid generalizing t with
    | nil =>
      cases hmid
      exact hk
    | cons a mid ih =>
      obtain ⟨t', ht, hrest⟩ := m.exec_cons.mp hmid
      obtain ⟨hGa, hG'⟩ := hG t' ht
      exact ih t' hrest ((hstep t a t' ht).mp hGa k v hk (hnot t' ht).1) (hnot t' ht).2 hG'

end

/-! ## Infinite runs -/

variable (m) in
/-- An infinite run: its states and the actions between them. -/
structure Run where
  state : Nat → S
  action : Nat → A
  step : ∀ n, m.step (state n) (action n) = some (state (n + 1))

/-- From every point of the run, an action of `own` comes later, or `P` does. -/
def Run.FairTo (r : m.Run) (own : A → Prop) (P : S → Prop) : Prop :=
  ∀ n, ∃ k, own (r.action (n + k)) ∨ P (r.state (n + k))

/-- **Progress rule**: a measure that no step raises and that the actions of `own` lower,
as long as `P` does not hold, brings about `P` in a run that is fair to these actions. -/
theorem Run.eventually {β : Type w} [Preorder β] [WellFoundedLT β] {I P : S → Prop}
    {own : A → Prop} {μ : S → β} {r : m.Run}
    (hstep : ∀ s a t, I s → ¬ P s → m.step s a = some t →
      P t ∨ I t ∧ μ t ≤ μ s ∧ (own a → μ t < μ s))
    (hI : I (r.state 0)) (hfair : r.FairTo own P) : ∃ n, P (r.state n) := by
  -- as long as `P` has not come about, the invariant holds and the measure only falls
  have hkeep : ∀ n, I (r.state n) → ∀ k, (∃ n, P (r.state n)) ∨
      I (r.state (n + k)) ∧ μ (r.state (n + k)) ≤ μ (r.state n) := by
    intro n hn k
    induction k with
    | zero => exact .inr ⟨hn, le_refl _⟩
    | succ k ih =>
      obtain hP | ⟨hk, hle⟩ := ih
      · exact .inl hP
      · by_cases hP : P (r.state (n + k))
        · exact .inl ⟨_, hP⟩
        · obtain hP' | ⟨hI', hle', -⟩ := hstep _ _ _ hk hP (r.step (n + k))
          · exact .inl ⟨_, hP'⟩
          · exact .inr ⟨hI', le_trans hle' hle⟩
  suffices h : ∀ x : β, ∀ n, I (r.state n) → μ (r.state n) = x → ∃ n, P (r.state n) from
    h _ 0 hI rfl
  intro x
  induction x using WellFoundedLT.induction with
  | ind x ih =>
    rintro n hn rfl
    obtain ⟨k, hk⟩ := hfair n
    obtain hP | ⟨hI', hle⟩ := hkeep n hn k
    · exact hP
    · by_cases hP : P (r.state (n + k))
      · exact ⟨_, hP⟩
      · obtain hown | hP' := hk
        · -- an own step lowers the measure
          obtain hP' | ⟨hI'', -, hlt⟩ := hstep _ _ _ hI' hP (r.step (n + k))
          · exact ⟨_, hP'⟩
          · exact ih _ (lt_of_lt_of_le (hlt hown) hle) (n + k + 1) hI'' rfl
        · exact absurd hP' hP

end Machine

end Anx.Lib
