import Mathlib.Data.List.Chain
import Anx.Cli.ComponentExec
import Anx.Lib.FailFast
import Anx.Lib.Words

/-!
# What `component_exec` runs

`ComponentExec` has which actions run; here are the files of the components, which define the
functions of an action and assign the variables that the checks look at.

- `Hook`, `Script`, `Library`: the functions of an action, a `deploy.sh`, and all files;
- `source`, `params_check`, `execute`, `round`: what the loop does for a component;
- `definition`: the function that a component has: the last one that is defined by what it
  extends or by itself;
- `round_spec`: **what a round runs**, whatever earlier rounds have left behind;
- `component_exec_failFast`: **the rounds end at the first failure**, and the result is 0
  exactly if there is none.
-/

namespace Anx.Cli

open Anx.Lib

/-- The functions that actions call. -/
inductive Hook where
  | do_install
  | do_configure
  | do_start
  | do_stop
  | do_status
  | do_help
  /-- This one is a function of the CLI itself. -/
  | do_info
deriving DecidableEq, Repr

/-- The variables; one that is not set is empty. -/
abbrev Env := Text → Text

/-- A `deploy.sh`: the functions it defines, and what its commands make of the variables:
`none` when one of them fails. -/
structure Script (Body : Type) where
  defines : List (Hook × Body)
  run : Env → Option Env

/-- The files of the components, with pathname expansion and what a function does when it is
called: the variables after it, and whether it succeeds. Files and functions assign variables
of their own, not those of the CLI (`COMPONENT`, `INCLUDE_DIR` and so on). -/
structure Library (Dir Body : Type) where
  deployConf : Dir → Env → Option Env
  deploySh : Dir → Option (Script Body)
  glob : Text → List Text
  call : Body → Env → Env × Bool

/-- The subshell: its variables, and the functions, `none` being `{ return 0; }`. -/
structure Subshell (Body : Type) where
  env : Env
  functions : Hook → Option Body

/-- What came of a component. -/
inductive Outcome (Body : Type) where
  /-- It does not exist, or is excluded. -/
  | skipped
  /-- One of its files is missing or fails. -/
  | broken
  /-- Parameters are missing, and this was printed. -/
  | lacking (message : Text)
  /-- The functions that were called, with what they were defined as and whether they
  succeeded. -/
  | acted (calls : List (Pass Env Hook (Option Body × Bool))) (ok : Bool)

/-- The loop goes on. -/
def Outcome.ok {Body : Type} : Outcome Body → Bool
  | .skipped => true
  | .acted _ ok => ok
  | _ => false

def PARAMS : Text := "PARAMS".toList

def EXTENDS : Text := "EXTENDS".toList

def TARGET : Text := "TARGET".toList

/-- `unset NAME DESC TARGET PARAMS DEPENDS EXTENDS` and `TARGET='*:*:*'`. -/
def unsetAll (env : Env) : Env := fun name =>
  if name = TARGET then "*:*:*".toList
  else if name ∈ ["NAME", "DESC", "PARAMS", "DEPENDS", "EXTENDS"].map String.toList then []
  else env name

/-- The default functions. -/
def defaults {Body : Type} (functions : Hook → Option Body) : Hook → Option Body := fun hook =>
  if hook = .do_info then functions hook else none

/-- The functions after definitions. -/
def define {Body : Type} (functions : Hook → Option Body) (defines : List (Hook × Body)) :
    Hook → Option Body :=
  defines.foldl (fun functions d => Function.update functions d.1 (some d.2)) functions

namespace Settings

variable {Dir Body : Type} (cli : Settings Dir) (lib : Library Dir Body)

/-- The words of a variable that is not quoted. -/
def wordsOf (text : Text) : List Text := (words text).flatMap lib.glob

/-- The script of a component, if there is one. -/
def script (component : Text) : Option (Script Body) :=
  (cli.tree.dir component).bind lib.deploySh

/-- Sourcing the `deploy.sh` of components. -/
def loadAll : Subshell Body → List Text → Option (Subshell Body)
  | s, [] => some s
  | s, component :: components =>
    match cli.script lib component with
    | none => loadAll s components
    | some script => (script.run s.env).bind fun env =>
      loadAll ⟨env, define s.functions script.defines⟩ components

/-- `. "${COMPONENT_DIR}/deploy.conf"`, in fresh variables. -/
def readConf (d : Dir) (env : Env) : Option Env :=
  if (cli.tree.conf d).isSome then lib.deployConf d (unsetAll env) else none

/-- All that is sourced for a component. -/
def source (d : Dir) (COMPONENT : Text) (s : Subshell Body) : Option (Subshell Body) :=
  (cli.readConf lib d s.env).bind fun env =>
    cli.loadAll lib ⟨env, defaults s.functions⟩ (wordsOf lib (env EXTENDS) ++ [COMPONENT])

/-- The missing parameters of `params_check`. -/
def lost (env : Env) : List Text :=
  let params_list := [' '].intercalate (wordsOf lib (env PARAMS))
  (wordsOf lib params_list).filter fun key => env key = []

def missingText (keys : List Text) : Text :=
  "Missing parameters:".toList ++ keys.flatMap fun key => ' ' :: key

/-- The call of a function of an action. -/
def callHook (functions : Hook → Option Body) (env : Env) (hook : Hook) :
    (Option Body × Bool) × Env :=
  match functions hook with
  | none => ((none, true), env)
  | some body => ((some body, (lib.call body env).2), (lib.call body env).1)

/-- `eval ${DO_ACTION}`, the calls of which are joined by `&&`. -/
def execute (s : Subshell Body) (DO_ACTION : List Hook) :
    List (Pass Env Hook (Option Body × Bool)) × Env × Bool :=
  failFast (callHook lib s.functions) Prod.snd s.env DO_ACTION

/-- The body of the loop of `component_exec`. -/
def round (DO_ACTION : List Hook) (s : Subshell Body) (COMPONENT : Text) :
    Outcome Body × Subshell Body :=
  match cli.tree.dir COMPONENT with
  | none => (.skipped, s)
  | some d =>
    match cli.source lib d COMPONENT s with
    | none => (.broken, s)
    | some s =>
      if cli.component_is_exclude COMPONENT then (.skipped, s)
      else if !cli.WITHOUT_CHECK && lost lib s.env ≠ [] then
        (.lacking (missingText (lost lib s.env)), s)
      else
        let r := execute lib s DO_ACTION
        (.acted r.1 r.2.2, { s with env := r.2.1 })

/-- The names that `component_exec` goes through. -/
def listed (components : List Word) : Option (List Text) :=
  if cli.WITHOUT_DEPENDS then some (components.map Word.text)
  else (cli.resolve components).map fun r => r.out.filter (· ≠ [])

/-- The subshell of `component_exec`, and its result: the rounds, and the status. -/
def runComponents (DO_ACTION : List Hook) (s : Subshell Body) (components : List Text) :
    List (Pass (Subshell Body) Text (Outcome Body)) × Nat :=
  if components = [] then ([], 1)
  else
    let r := failFast (cli.round lib DO_ACTION) Outcome.ok s components
    (r.1, if r.2.2 then 0 else 1)

/-- `component_exec`. -/
def execComponents (DO_ACTION : List Hook) (s : Subshell Body) (components : List Word) :
    Option (List (Pass (Subshell Body) Text (Outcome Body)) × Nat) :=
  (cli.listed components).map (cli.runComponents lib DO_ACTION s)

/-! ## The functions of a component -/

/-- What a function of a component is defined as: the last definition by what it extends or
by itself. -/
def definition (extended : List Text) (component : Text) (hook : Hook) : Option Body :=
  (((extended ++ [component]).filterMap (cli.script lib)).flatMap Script.defines).reverse.lookup
    hook

variable {cli lib}

theorem define_apply (functions : Hook → Option Body) (defines : List (Hook × Body))
    (hook : Hook) :
    define functions defines hook = (defines.reverse.lookup hook).or (functions hook) := by
  induction defines generalizing functions with
  | nil => rfl
  | cons d defines ih =>
    refine (ih (Function.update functions d.1 (some d.2))).trans ?_
    obtain ⟨hook', body⟩ := d
    rw [List.reverse_cons, List.lookup_append, Option.or_assoc]
    congr 1
    by_cases hhook : hook = hook'
    · subst hhook
      rw [Function.update_self, List.lookup_cons_self, Option.some_or]
    · have hother : (hook == hook') = false := beq_eq_false_iff_ne.mpr hhook
      rw [Function.update_of_ne hhook, List.lookup_cons, hother, List.lookup_nil, Option.none_or]

theorem define_append (functions : Hook → Option Body) (defines defines' : List (Hook × Body)) :
    define functions (defines ++ defines') = define (define functions defines) defines' :=
  List.foldl_append

/-- **The functions** after all definitions. -/
theorem loadAll_functions {s s' : Subshell Body} {components : List Text}
    (h : cli.loadAll lib s components = some s') : s'.functions =
      define s.functions ((components.filterMap (cli.script lib)).flatMap Script.defines) := by
  induction components generalizing s with
  | nil =>
    cases h
    rfl
  | cons component components ih =>
    rw [loadAll] at h
    cases hscript : cli.script lib component with
    | none =>
      rw [hscript] at h
      rw [List.filterMap_cons_none hscript]
      exact ih h
    | some script =>
      rw [hscript] at h
      obtain ⟨env, -, hrest⟩ := Option.bind_eq_some_iff.mp h
      rw [List.filterMap_cons_some hscript, List.flatMap_cons, define_append]
      exact ih hrest

/-- What is sourced for a component replaces all functions but that of the CLI. -/
theorem source_functions {d : Dir} {component : Text} {s s' : Subshell Body}
    (h : cli.source lib d component s = some s') : ∃ env, cli.readConf lib d s.env = some env ∧
      ∀ hook, hook ≠ .do_info →
        s'.functions hook = cli.definition lib (wordsOf lib (env EXTENDS)) component hook := by
  obtain ⟨env, henv, hload⟩ := Option.bind_eq_some_iff.mp h
  refine ⟨env, henv, fun hook hhook => ?_⟩
  have hdefault : defaults s.functions hook = none := if_neg hhook
  rw [loadAll_functions hload, define_apply, definition]
  dsimp only
  rw [hdefault, Option.or_none]

theorem callHook_fst (functions : Hook → Option Body) (env : Env) (hook : Hook) :
    (callHook lib functions env hook).1.1 = functions hook := by
  rw [callHook]
  cases functions hook <;> rfl

/-! ## A round -/

variable (cli lib)

/-- The component exists and is not excluded. -/
def IsSelected (component : Text) : Prop :=
  (cli.tree.dir component).isSome = true ∧ cli.component_is_exclude component = false

/-- The calls of an action for a component that has its parameters: they end at the first
one that fails, and each is to the function that the component has. -/
structure Acts (DO_ACTION : List Hook) (s : Subshell Body) (component : Text)
    (calls : List (Pass Env Hook (Option Body × Bool))) (ok : Bool) : Prop where
  selected : cli.IsSelected component
  files : ∃ d env s', cli.tree.dir component = some d ∧ cli.readConf lib d s.env = some env ∧
    cli.source lib d component s = some s' ∧
    (cli.WITHOUT_CHECK = true ∨ lost lib s'.env = []) ∧
    Passes (callHook lib s'.functions) Prod.snd s'.env DO_ACTION calls ∧
    ∀ call ∈ calls, call.item ≠ .do_info → call.result.1 =
      cli.definition lib (wordsOf lib (env EXTENDS)) component call.item
  ok_iff : ok = true ↔ ∀ call ∈ calls, call.result.2 = true
  all : ok = true → calls.map Pass.item = DO_ACTION

/-- What came of a component. -/
def RoundSpec (DO_ACTION : List Hook) (s : Subshell Body) (component : Text) :
    Outcome Body → Prop
  | .skipped => ¬ cli.IsSelected component
  | .broken => ∃ d, cli.tree.dir component = some d ∧ cli.source lib d component s = none
  | .lacking message => cli.IsSelected component ∧ cli.WITHOUT_CHECK = false ∧
      ∃ d s', cli.tree.dir component = some d ∧ cli.source lib d component s = some s' ∧
        lost lib s'.env ≠ [] ∧ message = missingText (lost lib s'.env)
  | .acted calls ok => cli.Acts lib DO_ACTION s component calls ok

variable {cli lib}

/-- **What a round runs**, whatever the functions and variables are before it. -/
theorem round_spec (DO_ACTION : List Hook) (s : Subshell Body) (component : Text) :
    cli.RoundSpec lib DO_ACTION s component (cli.round lib DO_ACTION s component).1 := by
  rw [round]
  cases hdir : cli.tree.dir component with
  | none =>
    intro hselected
    rw [IsSelected, hdir] at hselected
    exact Bool.false_ne_true hselected.1
  | some d =>
    dsimp only
    cases hsource : cli.source lib d component s with
    | none => exact ⟨d, hdir, hsource⟩
    | some s' =>
      dsimp only
      split
      · next hexclude => exact fun hselected => Bool.false_ne_true (hselected.2.symm.trans hexclude)
      next hinclude =>
      have hselected : cli.IsSelected component := ⟨by rw [hdir]; rfl, by simpa using hinclude⟩
      split
      · next hlost =>
        rw [Bool.and_eq_true, Bool.not_eq_true', decide_eq_true_eq] at hlost
        exact ⟨hselected, hlost.1, d, s', hdir, hsource, hlost.2, rfl⟩
      next hgiven =>
      have hchecked : cli.WITHOUT_CHECK = true ∨ lost lib s'.env = [] := by
        rw [Bool.and_eq_true, Bool.not_eq_true', decide_eq_true_eq, not_and_or, not_not] at hgiven
        exact hgiven.imp_left (Bool.not_eq_false _).mp
      obtain ⟨env, henv, hfunctions⟩ := source_functions hsource
      have hcalls := failFast_passes (callHook lib s'.functions) Prod.snd s'.env DO_ACTION
      refine ⟨hselected, ⟨d, env, s', hdir, henv, hsource, hchecked, hcalls, ?_⟩,
        failFast_completed_iff _ _ _ _, failFast_items _ _ _ _⟩
      intro call hcall hhook
      rw [hcalls.result call hcall, callHook_fst, hfunctions _ hhook]

/-! ## All rounds -/

variable (cli lib)

/-- The rounds for the names end at the first failure, and the status is 0 exactly if there
is none. -/
structure FailFast (DO_ACTION : List Hook) (s : Subshell Body) (names : List Text)
    (rounds : List (Pass (Subshell Body) Text (Outcome Body))) (status : Nat) : Prop where
  order : Passes (cli.round lib DO_ACTION) Outcome.ok s names rounds
  outcome : ∀ r ∈ rounds, cli.RoundSpec lib DO_ACTION r.start r.item r.result
  status_iff : status = 0 ↔ ∀ r ∈ rounds, r.result.ok = true
  all : status = 0 → rounds.map Pass.item = names

variable {cli lib}

/-- **The components run** until the first failure, unless there are none at all. -/
theorem component_exec_failFast (DO_ACTION : List Hook) (s : Subshell Body)
    (components : List Word) (hne : cli.listed components ≠ some []) :
    ∃ names rounds status, cli.listed components = some names ∧
      cli.execComponents lib DO_ACTION s components = some (rounds, status) ∧
      cli.FailFast lib DO_ACTION s names rounds status := by
  have hlisted : ∃ names, cli.listed components = some names := by
    rw [listed]
    split
    · exact ⟨_, rfl⟩
    · obtain ⟨r, hr⟩ := cli.resolve_isSome components
      exact ⟨_, by rw [hr]; rfl⟩
  obtain ⟨names, hnames⟩ := hlisted
  have hcons : names ≠ [] := fun hnil => hne (hnil ▸ hnames)
  have hrounds := failFast_passes (cli.round lib DO_ACTION) Outcome.ok s names
  have hall := failFast_completed_iff (cli.round lib DO_ACTION) Outcome.ok s names
  have hitems := failFast_items (cli.round lib DO_ACTION) Outcome.ok s names
  have hstatus : (if (failFast (cli.round lib DO_ACTION) Outcome.ok s names).2.2 then 0 else 1) =
      0 ↔ (failFast (cli.round lib DO_ACTION) Outcome.ok s names).2.2 = true := by
    split
    · next h => simp [h]
    · next h => simp [h]
  refine ⟨names, _, _, hnames, ?_, hrounds, fun r hr => ?_, hstatus.trans hall,
    fun h => hitems (hstatus.mp h)⟩
  · rw [execComponents, hnames, Option.map_some, runComponents, if_neg hcons]
  · rw [hrounds.result r hr]
    exact round_spec _ _ _

/-- A component without functions of its own. -/
def emptyLibrary : Library Unit Unit where
  deployConf := fun _ env => some env
  deploySh := fun _ => none
  glob := fun word => [word]
  call := fun _ env => (env, true)

/-- A subshell without variables and functions. -/
def emptySubshell : Subshell Unit := ⟨fun _ => [], fun _ => none⟩

def wordB : Word := ⟨['b'], by decide, by decide, by decide⟩

def wordC : Word := ⟨['c'], by decide, by decide, by decide⟩

/-- The component `c` depends on `b`, and `b` on `a`. -/
def chain : Settings Char where
  tree := {
    dir := fun c => if c = ['a'] ∨ c = ['b'] ∨ c = ['c'] then c.head? else none
    conf := fun d => some ⟨none,
      if d = 'c' then some [wordB] else if d = 'b' then some [wordA] else none⟩
    names := [['a'], ['b']]
    closed := by
      intro c d f _ hf w hw
      cases hf
      by_cases hc : d = 'c'
      · have hword : w = wordB := by simpa [hc] using hw
        exact hword ▸ by decide
      · by_cases hb : d = 'b'
        · have hword : w = wordA := by simpa [hc, hb] using hw
          exact hword ▸ by decide
        · simp [hc, hb] at hw }
  DISTRIB := []
  ARCH := []
  SUITE := []
  WITHOUT_CHECK := false
  WITHOUT_DEPENDS := false
  REVERSE_DEPENDS := false
  EXCLUDE_COMPONENTS := []

/-- Its files: `b` cannot be started, `c` could be, and `a` has no functions of its own. -/
def chainLibrary : Library Char Bool where
  deployConf := fun _ env => some env
  deploySh := fun d => if d = 'a' then none else some ⟨[(.do_start, d = 'c')], some⟩
  glob := fun word => [word]
  call := fun ok env => (env, ok)

def bareSubshell : Subshell Bool := ⟨fun _ => [], fun _ => none⟩

/-- The component `c` is not started, as `b` fails. -/
theorem component_exec_failFast_a : ∃ rounds,
    chain.execComponents chainLibrary [.do_start] bareSubshell [wordC] = some (rounds, 1) ∧
      chain.FailFast chainLibrary [.do_start] bareSubshell [['a'], ['b'], ['c']] rounds 1 ∧
      rounds.map Pass.item = [['a'], ['b']] := by
  have hlisted : chain.listed [wordC] = some [['a'], ['b'], ['c']] := by decide
  obtain ⟨names, rounds, status, hnames, hexec, hfast⟩ :=
    @component_exec_failFast _ _ chain chainLibrary [.do_start] bareSubshell [wordC]
      (by rw [hlisted]; decide)
  have hrun : (chain.execComponents chainLibrary [.do_start] bareSubshell [wordC]).map
      (fun r => (r.1.map Pass.item, r.2)) = some ([['a'], ['b']], 1) := rfl
  rw [hexec, Option.map_some, Option.some_inj, Prod.mk.injEq] at hrun
  obtain ⟨hitems, rfl⟩ := hrun
  obtain rfl : [['a'], ['b'], ['c']] = names := Option.some.inj (hlisted.symm.trans hnames)
  exact ⟨rounds, hexec, hfast, hitems⟩

/-- Without any component nothing fails, and the result is not 0. -/
theorem not_component_exec_failFast : ¬ ∀ (Dir Body : Type) (cli : Settings Dir)
    (lib : Library Dir Body) (DO_ACTION : List Hook) (s : Subshell Body)
    (components : List Word), ∃ names rounds status, cli.listed components = some names ∧
      cli.execComponents lib DO_ACTION s components = some (rounds, status) ∧
      cli.FailFast lib DO_ACTION s names rounds status := by
  intro h
  obtain ⟨names, rounds, status, -, hexec, hfast⟩ :=
    h Unit Unit onlyA emptyLibrary [.do_start] emptySubshell []
  have hresult : onlyA.execComponents emptyLibrary [.do_start] emptySubshell [] = some ([], 1) :=
    rfl
  rw [hresult] at hexec
  cases hexec
  exact absurd (hfast.status_iff.mpr (by simp)) Nat.one_ne_zero

end Settings

end Anx.Cli
