import Anx.Lib.Glob

/-!
# Resolution of components

`component_depends` of cli.sh prints the requested components and those they depend on. All
calls share `IGNORE_DEPENDS`, the names that have come up, between blanks; a call has its
own `TARGET` and `DEPENDS`, which start empty and which the configuration of a component
overwrites line by line.

- `Word`, `Conf`, `IncludeTree`, `Settings`: names, the two lines of a `deploy.conf`, the
  directories below `INCLUDE_DIR`, and the settings;
- `component_is_compatible`, `component_depends`: the functions, the second with a bound on
  the depth of the calls;
- `Resolution`: what the calls share, with a record of all components that came up;
- `Runs`: the calls without the bound; `runs_of_component_depends` connects the two;
- `isIgnored_iff`: **the deadlock check is exact**: it finds the names that have come up.
-/

namespace Anx.Cli

open Anx.Lib

/-- The shell takes the text as it stands, without splitting or expanding it. -/
def Plain (text : Text) : Prop :=
  ∀ c ∈ text, c ∉ [' ', '\t', '\n', '*', '?', '[', '\\']

instance (text : Text) : Decidable (Plain text) :=
  inferInstanceAs (Decidable (∀ c ∈ text, _))

/-- A word of a list of names. One with a dash at its start would be an option of `echo`. -/
structure Word where
  text : Text
  nonempty : text ≠ []
  plain : Plain text
  noOption : text.head? ≠ some '-'
deriving DecidableEq

/-- `${component%/}`. -/
def stripSlash (text : Text) : Text :=
  if text.getLast? = some '/' then text.dropLast else text

/-- The component that a word names. -/
def Word.component (w : Word) : Text := stripSlash w.text

/-- The lines of a `deploy.conf` that the resolution reads, as the shell evaluates them. -/
structure Conf where
  TARGET : Option (List (List Tok))
  DEPENDS : Option (List Word)
deriving DecidableEq

/-- The directories below `INCLUDE_DIR`. Several names may lead to the same directory;
`names` has all names that stand in a `DEPENDS` line. -/
structure IncludeTree (Dir : Type) where
  dir : Text → Option Dir
  conf : Dir → Option Conf
  names : List Text
  closed : ∀ c d f, dir c = some d → conf d = some f →
    ∀ w ∈ f.DEPENDS.getD [], w.component ∈ names

/-- The settings of a run of the CLI. -/
structure Settings (Dir : Type) where
  tree : IncludeTree Dir
  DISTRIB : Text
  ARCH : Text
  SUITE : Text
  WITHOUT_CHECK : Bool
  WITHOUT_DEPENDS : Bool
  REVERSE_DEPENDS : Bool
  EXCLUDE_COMPONENTS : List (List Tok)

/-- What was found when a component came up: the names before it, and what the components
before it in the same loop have left in `TARGET` and `DEPENDS`. -/
structure Visit where
  component : Text
  IGNORE_DEPENDS : Text
  TARGET : List (List Tok)
  DEPENDS : List Word
deriving DecidableEq

/-- What the calls share: the names that have come up, the lines that have been printed, and
the record of what came up. -/
structure Resolution where
  IGNORE_DEPENDS : Text
  out : List Text
  visits : List Visit
deriving DecidableEq

namespace Resolution

/-- `IGNORE_DEPENDS=" "`. -/
def init : Resolution := ⟨[' '], [], []⟩

/-- `IGNORE_DEPENDS="${IGNORE_DEPENDS}${component} "`. -/
def visit (r : Resolution) (component : Text) (TARGET : List (List Tok)) (DEPENDS : List Word) :
    Resolution :=
  { r with
    IGNORE_DEPENDS := r.IGNORE_DEPENDS ++ component ++ [' ']
    visits := r.visits ++ [⟨component, r.IGNORE_DEPENDS, TARGET, DEPENDS⟩] }

/-- `echo ${component}`. -/
def echo (r : Resolution) (component : Text) : Resolution := { r with out := r.out ++ [component] }

/-- The components that have come up. -/
def visited (r : Resolution) : List Text := r.visits.map (·.component)

end Resolution

/-- `[ -z "${IGNORE_DEPENDS##* ${component} *}" ]`. -/
def isIgnored (IGNORE_DEPENDS component : Text) : Bool :=
  removeLongest (inside (' ' :: component ++ [' '])) IGNORE_DEPENDS = []

namespace Settings

variable {Dir : Type} (cli : Settings Dir)

/-- The configuration of a component, if it exists. -/
def files (component : Text) : Option Conf := (cli.tree.dir component).bind cli.tree.conf

/-- `component_is_compatible`. -/
def component_is_compatible (target : List (List Tok)) : Bool :=
  target = [] ||
    target.any fun item => matchesPattern item (cli.DISTRIB ++ ':' :: cli.ARCH ++ ':' :: cli.SUITE)

/-- The check of the compatibility, unless it is switched off. -/
def accepts (target : List (List Tok)) : Bool :=
  cli.WITHOUT_CHECK || cli.component_is_compatible target

/-- The loop of `component_depends`, with `call` for the calls in it. -/
def loop (call : Resolution → List Word → Option Resolution) :
    List (List Tok) → List Word → Resolution → List Word → Option Resolution
  | _, _, r, [] => some r
  | TARGET, DEPENDS, r, w :: components =>
    let component := w.component
    if isIgnored r.IGNORE_DEPENDS component then loop call TARGET DEPENDS r components
    else
      let r := r.visit component TARGET DEPENDS
      match cli.files component with
      | none => loop call TARGET DEPENDS r components
      | some conf =>
        -- `eval` leaves a variable as it is when its line is missing
        let TARGET := conf.TARGET.getD TARGET
        let DEPENDS := conf.DEPENDS.getD DEPENDS
        if cli.accepts TARGET then
          if cli.REVERSE_DEPENDS then do
            let r ← call (r.echo component) DEPENDS
            loop call TARGET DEPENDS r components
          else do
            let r ← call r DEPENDS
            loop call TARGET DEPENDS (r.echo component) components
        else loop call TARGET DEPENDS r components

/-- `component_depends`, with at most `depth` calls inside each other. -/
def component_depends : (depth : Nat) → Resolution → List Word → Option Resolution
  | 0, _, _ => none
  | depth + 1, r, components => cli.loop (component_depends depth) [] [] r components

/-- Calls inside each other are at most as many as names can come up. -/
def depth (components : List Word) : Nat :=
  (components.map Word.component ++ cli.tree.names).length + 1

/-- What a request is resolved to. -/
def resolve (components : List Word) : Option Resolution :=
  cli.component_depends (cli.depth components) .init components

end Settings

/-! ## The deadlock check -/

/-- The names that have come up, between blanks. -/
def ignoreText (names : List Text) : Text := ' ' :: names.flatMap (· ++ [' '])

theorem ignoreText_append (names : List Text) (c : Text) :
    ignoreText (names ++ [c]) = ignoreText names ++ c ++ [' '] := by
  simp [ignoreText]

theorem blank_not_mem {c : Text} (h : Plain c) : ' ' ∉ c := fun hmem => h ' ' hmem (by simp)

/-- There is a blank before every name, and so at the end of the names before it. -/
theorem ignoreText_eq_concat (names : List Text) : ∃ s, ignoreText names = s ++ [' '] := by
  induction names using List.reverseRecOn with
  | nil => exact ⟨[], rfl⟩
  | append_singleton names c => exact ⟨ignoreText names ++ c, ignoreText_append names c⟩

/-- What starts with a blank does not start in a name. -/
theorem infix_of_append {c name rest : Text} (hname : ' ' ∉ name)
    (h : ' ' :: c <:+: name ++ rest) : ' ' :: c <:+: rest := by
  induction name with
  | nil => exact h
  | cons a name ih =>
    have hne : ' ' ≠ a := List.ne_of_not_mem_cons hname
    rw [List.cons_append, List.infix_cons_iff] at h
    obtain hpre | h := h
    · exact absurd (List.cons_prefix_cons.mp hpre).1 hne
    · exact ih (List.not_mem_of_not_mem_cons hname) h

/-- Two names that end at the same blank. -/
theorem eq_of_prefix_blank {c name rest : Text} (hc : ' ' ∉ c) (hname : ' ' ∉ name)
    (h : c ++ [' '] <+: name ++ ' ' :: rest) : c = name := by
  induction c generalizing name with
  | nil =>
    cases name with
    | nil => rfl
    | cons a name =>
      obtain ⟨heq, -⟩ := List.cons_prefix_cons.mp h
      exact absurd (heq ▸ List.mem_cons_self) hname
  | cons b c ih =>
    have hb : ' ' ≠ b := List.ne_of_not_mem_cons hc
    cases name with
    | nil =>
      obtain ⟨heq, -⟩ := List.cons_prefix_cons.mp h
      exact absurd heq.symm hb
    | cons a name =>
      obtain ⟨rfl, hrest⟩ := List.cons_prefix_cons.mp h
      rw [ih (List.not_mem_of_not_mem_cons hc) (List.not_mem_of_not_mem_cons hname) hrest]

/-- A name between blanks is a part of the text exactly when it has come up. -/
theorem infix_ignoreText {c : Text} {names : List Text} (hc : ' ' ∉ c)
    (hnames : ∀ name ∈ names, ' ' ∉ name) :
    ' ' :: c ++ [' '] <:+: ignoreText names ↔ c ∈ names := by
  constructor
  · intro h
    induction names with
    | nil =>
      have hlength := h.length_le
      simp [ignoreText] at hlength
    | cons name names ih =>
      have hname := hnames name List.mem_cons_self
      have htext : ignoreText (name :: names) = ' ' :: (name ++ ignoreText names) := by
        simp [ignoreText]
      rw [htext, List.infix_cons_iff] at h
      obtain hpre | h := h
      · obtain ⟨-, hpre⟩ := List.cons_prefix_cons.mp hpre
        rw [eq_of_prefix_blank hc hname hpre]
        exact List.mem_cons_self
      · have hrest := infix_of_append hname h
        exact List.mem_cons_of_mem _ (ih (fun n hn => hnames n (List.mem_cons_of_mem _ hn)) hrest)
  · intro h
    obtain ⟨before, after, rfl⟩ := List.append_of_mem h
    obtain ⟨s, hs⟩ := ignoreText_eq_concat before
    refine ⟨s, after.flatMap (· ++ [' ']), ?_⟩
    have htext : ignoreText (before ++ c :: after) =
        ignoreText before ++ (c ++ ' ' :: after.flatMap (· ++ [' '])) := by
      simp [ignoreText]
    rw [htext, hs]
    simp

theorem stripSlash_plain {text : Text} (h : Plain text) : Plain (stripSlash text) := by
  unfold stripSlash
  split
  · exact fun c hc => h c (List.mem_of_mem_dropLast hc)
  · exact h

namespace Resolution

variable {r : Resolution}

/-- The text of the names and the record say the same. -/
structure Wf (r : Resolution) : Prop where
  text : r.IGNORE_DEPENDS = ignoreText r.visited
  plain : ∀ c ∈ r.visited, Plain c

@[simp] theorem visit_visited (r : Resolution) (c : Text) (T : List (List Tok)) (D : List Word) :
    (r.visit c T D).visited = r.visited ++ [c] := by
  simp [visited, visit]

@[simp] theorem visit_out (r : Resolution) (c : Text) (T : List (List Tok)) (D : List Word) :
    (r.visit c T D).out = r.out := rfl

@[simp] theorem echo_visited (r : Resolution) (c : Text) : (r.echo c).visited = r.visited := rfl

@[simp] theorem echo_visits (r : Resolution) (c : Text) : (r.echo c).visits = r.visits := rfl

@[simp] theorem echo_out (r : Resolution) (c : Text) : (r.echo c).out = r.out ++ [c] := rfl

theorem init_wf : init.Wf := by
  constructor <;> simp [init, visited, ignoreText]

theorem visit_wf (h : r.Wf) {c : Text} (hc : Plain c) (T : List (List Tok)) (D : List Word) :
    (r.visit c T D).Wf := by
  constructor
  · rw [visit_visited, ignoreText_append, ← h.text]
    rfl
  · intro c' hc'
    rw [visit_visited, List.mem_append, List.mem_singleton] at hc'
    obtain hc' | rfl := hc'
    · exact h.plain c' hc'
    · exact hc

/-- **The deadlock check is exact.** -/
theorem isIgnored_iff (h : r.Wf) {c : Text} (hc : Plain c) :
    isIgnored r.IGNORE_DEPENDS c = true ↔ c ∈ r.visited := by
  unfold isIgnored
  rw [decide_eq_true_iff, h.text, removeLongest_eq_nil (by simp [ignoreText]),
    matchesPattern_inside]
  exact infix_ignoreText (blank_not_mem hc) fun name hname => blank_not_mem (h.plain name hname)

end Resolution

/-! ## Runs -/

theorem Word.component_plain (w : Word) : Plain w.component := stripSlash_plain w.plain

namespace Settings

variable {Dir : Type} {cli : Settings Dir}

/-- What is printed before the dependencies. -/
def before (cli : Settings Dir) (r : Resolution) (c : Text) : Resolution :=
  if cli.REVERSE_DEPENDS then r.echo c else r

/-- What is printed after the dependencies. -/
def after (cli : Settings Dir) (r : Resolution) (c : Text) : Resolution :=
  if cli.REVERSE_DEPENDS then r else r.echo c

/-- The loop of a call that returns, from the variables it has, the state and the words left. -/
inductive Runs (cli : Settings Dir) :
    List (List Tok) → List Word → Resolution → List Word → Resolution → Prop where
  | nil {T : List (List Tok)} {D : List Word} {r : Resolution} : Runs cli T D r [] r
  | skip {T : List (List Tok)} {D ws : List Word} {w : Word} {r r' : Resolution}
      (hold : w.component ∈ r.visited) (rest : Runs cli T D r ws r') :
      Runs cli T D r (w :: ws) r'
  | missing {T : List (List Tok)} {D ws : List Word} {w : Word} {r r' : Resolution}
      (hnew : w.component ∉ r.visited) (hfile : cli.files w.component = none)
      (rest : Runs cli T D (r.visit w.component T D) ws r') : Runs cli T D r (w :: ws) r'
  | reject {T : List (List Tok)} {D ws : List Word} {w : Word} {r r' : Resolution} {f : Conf}
      (hnew : w.component ∉ r.visited) (hfile : cli.files w.component = some f)
      (hreject : cli.accepts (f.TARGET.getD T) = false)
      (rest : Runs cli (f.TARGET.getD T) (f.DEPENDS.getD D) (r.visit w.component T D) ws r') :
      Runs cli T D r (w :: ws) r'
  | accept {T : List (List Tok)} {D ws : List Word} {w : Word} {r r₁ r' : Resolution} {f : Conf}
      (hnew : w.component ∉ r.visited) (hfile : cli.files w.component = some f)
      (haccept : cli.accepts (f.TARGET.getD T) = true)
      (call : Runs cli [] [] (cli.before (r.visit w.component T D) w.component)
        (f.DEPENDS.getD D) r₁)
      (rest : Runs cli (f.TARGET.getD T) (f.DEPENDS.getD D) (cli.after r₁ w.component) ws r') :
      Runs cli T D r (w :: ws) r'

@[simp] theorem before_visited (r : Resolution) (c : Text) :
    (cli.before r c).visited = r.visited := by
  unfold before
  split <;> rfl

@[simp] theorem after_visited (r : Resolution) (c : Text) :
    (cli.after r c).visited = r.visited := by
  unfold after
  split <;> rfl

theorem before_wf {r : Resolution} (h : r.Wf) (c : Text) : (cli.before r c).Wf := by
  unfold before
  split
  · exact ⟨h.text, h.plain⟩
  · exact h

theorem after_wf {r : Resolution} (h : r.Wf) (c : Text) : (cli.after r c).Wf := by
  unfold after
  split
  · exact h
  · exact ⟨h.text, h.plain⟩

/-- The loop, case by case, as the deadlock check sees it. -/
theorem loop_cons {call : Resolution → List Word → Option Resolution} {T : List (List Tok)}
    {D : List Word} {r : Resolution} {w : Word} {ws : List Word} (hwf : r.Wf) :
    cli.loop call T D r (w :: ws) =
      if w.component ∈ r.visited then cli.loop call T D r ws
      else match cli.files w.component with
        | none => cli.loop call T D (r.visit w.component T D) ws
        | some f =>
          if cli.accepts (f.TARGET.getD T) then
            (call (cli.before (r.visit w.component T D) w.component) (f.DEPENDS.getD D)).bind
              fun r₁ => cli.loop call (f.TARGET.getD T) (f.DEPENDS.getD D)
                (cli.after r₁ w.component) ws
          else cli.loop call (f.TARGET.getD T) (f.DEPENDS.getD D) (r.visit w.component T D) ws := by
  have hcheck := Resolution.isIgnored_iff hwf w.component_plain
  rw [loop]
  by_cases hold : w.component ∈ r.visited
  · simp only [hcheck.mpr hold, hold, if_true]
  · have hnot : isIgnored r.IGNORE_DEPENDS w.component = false := by
      rwa [← hcheck, Bool.not_eq_true] at hold
    simp only [hnot, hold, if_false, Bool.false_eq_true]
    cases cli.files w.component with
    | none => rfl
    | some f =>
      dsimp only
      split
      · unfold before after
        split <;> rfl
      · rfl

/-- What the loop does is a run, if what the calls in it do are runs. -/
theorem runs_of_loop {call : Resolution → List Word → Option Resolution}
    (hcall : ∀ r ws r', r.Wf → call r ws = some r' → cli.Runs [] [] r ws r' ∧ r'.Wf)
    {T : List (List Tok)} {D ws : List Word} {r r' : Resolution} (hwf : r.Wf)
    (h : cli.loop call T D r ws = some r') : cli.Runs T D r ws r' ∧ r'.Wf := by
  induction ws generalizing T D r with
  | nil =>
    cases h
    exact ⟨.nil, hwf⟩
  | cons w ws ih =>
    have hvisit := Resolution.visit_wf hwf w.component_plain T D
    rw [loop_cons hwf] at h
    split at h
    · next hold =>
      obtain ⟨hrest, hwf'⟩ := ih hwf h
      exact ⟨.skip hold hrest, hwf'⟩
    · next hnew =>
      cases hfile : cli.files w.component with
      | none =>
        rw [hfile] at h
        obtain ⟨hrest, hwf'⟩ := ih hvisit h
        exact ⟨.missing hnew hfile hrest, hwf'⟩
      | some f =>
        simp only [hfile] at h
        split at h
        · next haccept =>
          obtain ⟨r₁, hr₁, h⟩ := Option.bind_eq_some_iff.mp h
          obtain ⟨hruns, hwf₁⟩ := hcall _ _ _ (before_wf hvisit _) hr₁
          obtain ⟨hrest, hwf'⟩ := ih (after_wf hwf₁ _) h
          exact ⟨.accept hnew hfile haccept hruns hrest, hwf'⟩
        · next hreject =>
          obtain ⟨hrest, hwf'⟩ := ih hvisit h
          exact ⟨.reject hnew hfile (by simpa using hreject) hrest, hwf'⟩

/-- **What `component_depends` does is a run.** -/
theorem runs_of_component_depends {depth : Nat} {r r' : Resolution} {ws : List Word} (hwf : r.Wf)
    (h : cli.component_depends depth r ws = some r') : cli.Runs [] [] r ws r' ∧ r'.Wf := by
  induction depth generalizing r ws r' with
  | zero => cases h
  | succ depth ih => exact runs_of_loop (fun r ws r' hwf h => ih hwf h) hwf h

end Settings

end Anx.Cli
