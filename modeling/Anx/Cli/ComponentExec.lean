import Mathlib.Data.List.Pairwise
import Anx.Cli.Resolution

/-!
# The actions of the resolved components

`component_exec` runs an action for every name that `component_depends` prints. Names are
compared as texts; one slash at the end is stripped, but a component may still come up under
a second name, such as one with two slashes.

- `component_is_exclude`, `runActions`, `component_exec`: the functions; the checks of the
  parameters and the actions themselves are parameters;
- `Selects`: the component that came up is one whose action is run;
- `component_exec_iff`: **the resolution ends and prints no name twice**, and no action runs
  twice exactly when no component is selected under two names.
-/

namespace Anx.Cli

open Anx.Lib

namespace Settings

variable {Dir : Type} (cli : Settings Dir)

/-- `component_is_exclude`. -/
def component_is_exclude (component : Text) : Bool :=
  component ≠ [] &&
    cli.EXCLUDE_COMPONENTS.any fun item => matchesPattern (item ++ [.star]) component

/-- The loop of `component_exec`: the directories whose actions are run. The loop ends at
the first parameter check or action that fails. -/
def runActions (params_check action : Text → Bool) : List Text → List Dir
  | [] => []
  | component :: components =>
    match cli.tree.dir component with
    | none => runActions params_check action components
    | some d =>
      match cli.tree.conf d with
      -- `. deploy.conf` fails, and `set -e` ends the loop
      | none => []
      | some _ =>
        if cli.component_is_exclude component then runActions params_check action components
        else if !cli.WITHOUT_CHECK && !params_check component then []
        else d :: if action component then runActions params_check action components else []

/-- `component_exec`, once the resolution has ended. -/
def component_exec (params_check action : Text → Bool) (components : List Word) :
    Option (List Dir) :=
  if cli.WITHOUT_DEPENDS then
    some (cli.runActions params_check action (components.map Word.text))
  else
    -- an empty line of the output is no word
    (cli.resolve components).map fun r =>
      cli.runActions params_check action (r.out.filter (· ≠ []))

/-- The component that came up is one whose action is run. -/
def Selects (v : Visit) : Prop :=
  cli.Accepts v ∧ v.component ≠ [] ∧ cli.component_is_exclude v.component = false

/-- The directory whose action is run for a name. -/
def actionDir (component : Text) : Option Dir :=
  if cli.component_is_exclude component then none else cli.tree.dir component

variable {cli}

/-- At most the directories of the names that are not excluded, in their order. -/
theorem runActions_sublist (params_check action : Text → Bool) (components : List Text) :
    (cli.runActions params_check action components).Sublist
      (components.filterMap cli.actionDir) := by
  induction components with
  | nil => exact List.Sublist.slnil
  | cons component components ih =>
    unfold runActions
    cases hdir : cli.tree.dir component with
    | none =>
      have hskip : cli.actionDir component = none := by
        unfold actionDir
        rw [hdir, ite_self]
      rw [List.filterMap_cons_none hskip]
      exact ih
    | some d =>
      dsimp only
      cases cli.tree.conf d with
      | none => exact List.nil_sublist _
      | some f =>
        dsimp only
        split
        · next hexclude =>
          rw [List.filterMap_cons_none (by simp [actionDir, hexclude])]
          exact ih
        · next hinclude =>
          have haction : cli.actionDir component = some d := by
            unfold actionDir
            rw [if_neg hinclude, hdir]
          rw [List.filterMap_cons_some haction]
          split
          · exact List.nil_sublist _
          · split
            · exact ih.cons_cons d
            · exact List.Sublist.cons_cons d (List.nil_sublist _)

/-- All of them, when every component has its configuration and nothing fails. -/
theorem runActions_eq {components : List Text}
    (hfile : ∀ c ∈ components, (cli.files c).isSome) :
    cli.runActions (fun _ => true) (fun _ => true) components =
      components.filterMap cli.actionDir := by
  induction components with
  | nil => rfl
  | cons component components ih =>
    have ih := ih fun c hc => hfile c (List.mem_cons_of_mem _ hc)
    obtain ⟨f, hf⟩ := Option.isSome_iff_exists.mp (hfile component List.mem_cons_self)
    obtain ⟨d, hdir, hconf⟩ := Option.bind_eq_some_iff.mp hf
    unfold runActions
    simp only [hdir, hconf, Bool.not_true, Bool.and_false, Bool.false_eq_true, if_false, if_true]
    split
    · next hexclude =>
      rw [List.filterMap_cons_none (by simp [actionDir, hexclude]), ih]
    · next hinclude =>
      have haction : cli.actionDir component = some d := by
        unfold actionDir
        rw [if_neg hinclude, hdir]
      rw [List.filterMap_cons_some haction, ih]

/-- No directory comes twice when different names lead to different ones. -/
theorem nodup_filterMap_iff {names : List Text} (hnodup : names.Nodup) :
    (names.filterMap cli.actionDir).Nodup ↔ ∀ c ∈ names, ∀ c' ∈ names, c ≠ c' →
      ∀ d, cli.actionDir c = some d → cli.actionDir c' ≠ some d := by
  unfold List.Nodup
  rw [List.pairwise_filterMap]
  constructor
  · intro h c hc c' hc' hne d hd hd'
    have hsymm : Std.Symm fun a a' => ∀ b, cli.actionDir a = some b →
        ∀ b', cli.actionDir a' = some b' → b ≠ b' :=
      ⟨fun a a' haa' b hb b' hb' heq => haa' b' hb' b hb heq.symm⟩
    exact h.forall hc hc' hne d hd d hd' rfl
  · intro h
    refine hnodup.pairwise_of_forall_ne fun c hc c' hc' hne b hb b' hb' heq => ?_
    exact h c hc c' hc' hne b hb (heq ▸ hb')

/-- The components that are printed: accepted, with a name. -/
theorem mem_printed {components : List Word} {r : Resolution}
    (hr : cli.resolve components = some r) (c : Text) :
    c ∈ r.out.filter (· ≠ []) ↔ cli.Accepted r c ∧ c ≠ [] := by
  rw [List.mem_filter, (resolve_spec hr).2.mem c]
  simp

/-- No action runs twice exactly when no two of the components that are printed have one
directory: in the worst case nothing fails, and all actions run. -/
theorem exec_nodup_iff_actionDir (hdepends : cli.WITHOUT_DEPENDS = false) {components : List Word}
    {r : Resolution} (hr : cli.resolve components = some r) :
    (∀ params_check action ds, cli.component_exec params_check action components = some ds →
      ds.Nodup) ↔ ((r.out.filter (· ≠ [])).filterMap cli.actionDir).Nodup := by
  have hfile : ∀ c ∈ r.out.filter (· ≠ []), (cli.files c).isSome := by
    intro c hc
    obtain ⟨⟨v, -, rfl, f, hf, -⟩, -⟩ := (mem_printed hr c).mp hc
    rw [hf]
    rfl
  have hexec : ∀ params_check action, cli.component_exec params_check action components =
      some (cli.runActions params_check action (r.out.filter (· ≠ []))) := by
    intro params_check action
    simp [component_exec, hdepends, hr]
  constructor
  · intro h
    rw [← runActions_eq hfile]
    exact h _ _ _ (hexec _ _)
  · intro h params_check action ds hds
    rw [hexec] at hds
    cases hds
    exact h.sublist (runActions_sublist params_check action _)

/-- No action runs twice exactly when no component is selected under two names. -/
theorem exec_nodup_iff (hdepends : cli.WITHOUT_DEPENDS = false) {components : List Word}
    {r : Resolution} (hr : cli.resolve components = some r) :
    (∀ params_check action ds, cli.component_exec params_check action components = some ds →
      ds.Nodup) ↔
      ∀ u ∈ r.visits, ∀ v ∈ r.visits, cli.Selects u → cli.Selects v →
        u.component ≠ v.component → cli.tree.dir u.component ≠ cli.tree.dir v.component := by
  have hmem := mem_printed hr
  rw [exec_nodup_iff_actionDir hdepends hr,
    nodup_filterMap_iff ((resolve_spec hr).2.nodup.filter _)]
  constructor
  · rintro h u hu v hv ⟨hau, hune, huex⟩ ⟨hav, hvne, hvex⟩ hne heq
    obtain ⟨f, hf, hf'⟩ := hau
    obtain ⟨d, hdir, -⟩ := Option.bind_eq_some_iff.mp hf
    have hud : cli.actionDir u.component = some d := by simp [actionDir, huex, hdir]
    have hvd : cli.actionDir v.component = some d := by simp [actionDir, hvex, ← heq, hdir]
    exact h _ ((hmem _).mpr ⟨⟨u, hu, rfl, f, hf, hf'⟩, hune⟩) _
      ((hmem _).mpr ⟨⟨v, hv, rfl, hav⟩, hvne⟩) hne d hud hvd
  · intro h c hc c' hc' hne d hd hd'
    obtain ⟨⟨u, hu, rfl, hau⟩, hune⟩ := (hmem c).mp hc
    obtain ⟨⟨v, hv, rfl, hav⟩, hvne⟩ := (hmem c').mp hc'
    unfold actionDir at hd hd'
    split at hd
    · cases hd
    · next hu' =>
      split at hd'
      · cases hd'
      · next hv' =>
        refine h u hu v hv ⟨hau, hune, by simpa using hu'⟩ ⟨hav, hvne, by simpa using hv'⟩ hne ?_
        rw [hd, hd']

/-- Every directory has one name among the requests and the `DEPENDS` lines. -/
def OneName (cli : Settings Dir) (components : List Word) : Prop :=
  ∀ c ∈ components.map Word.component ++ cli.tree.names,
    ∀ c' ∈ components.map Word.component ++ cli.tree.names,
      (cli.tree.dir c).isSome → cli.tree.dir c = cli.tree.dir c' → c = c'

/-- Then no component is selected under two names. -/
theorem OneName.selects {components : List Word} {r : Resolution}
    (h : cli.OneName components) (hr : cli.resolve components = some r) :
    ∀ u ∈ r.visits, ∀ v ∈ r.visits, cli.Selects u → cli.Selects v →
      u.component ≠ v.component → cli.tree.dir u.component ≠ cli.tree.dir v.component := by
  have hsubset := (resolve_spec hr).1.visited_subset (List.subset_append_right
    (components.map Word.component) cli.tree.names)
    (fun w hw => List.mem_append_left _ (List.mem_map_of_mem hw)) (by simp)
    (List.nil_subset _)
  rintro u hu v hv ⟨⟨f, hf, -⟩, -⟩ - hne heq
  obtain ⟨d, hd, -⟩ := Option.bind_eq_some_iff.mp hf
  exact hne (h _ (hsubset (List.mem_map_of_mem hu)) _ (hsubset (List.mem_map_of_mem hv))
    (by rw [hd]; rfl) heq)

/-- **The resolution ends and prints no name twice**; no action runs twice, whatever the
checks and the actions give, exactly when no component is selected under two names, and so
when every directory has one name. -/
theorem component_exec_iff (hdepends : cli.WITHOUT_DEPENDS = false) (components : List Word) :
    ∃ r, (∀ depth ≥ cli.depth components,
        cli.component_depends depth .init components = some r) ∧ r.out.Nodup ∧
      ((∀ params_check action ds, cli.component_exec params_check action components = some ds →
          ds.Nodup) ↔
        ∀ u ∈ r.visits, ∀ v ∈ r.visits, cli.Selects u → cli.Selects v →
          u.component ≠ v.component → cli.tree.dir u.component ≠ cli.tree.dir v.component) ∧
      (cli.OneName components → ∀ params_check action ds,
        cli.component_exec params_check action components = some ds → ds.Nodup) := by
  obtain ⟨r, hr⟩ := cli.resolve_isSome components
  obtain ⟨-, hout⟩ := resolve_spec hr
  have hiff := exec_nodup_iff hdepends hr
  exact ⟨r, fun depth hdepth => component_depends_mono hdepth hr, hout.nodup, hiff,
    fun hone => hiff.mpr (hone.selects hr)⟩

/-- The component `a`, with and without a slash at its end, and nothing else. -/
def onlyA : Settings Unit where
  tree := {
    dir := fun c => if c = ['a'] ∨ c = ['a', '/'] then some () else none
    conf := fun _ => some ⟨none, none⟩
    names := []
    closed := by
      intro c d f _ hf w hw
      cases hf
      cases hw }
  DISTRIB := []
  ARCH := []
  SUITE := []
  WITHOUT_CHECK := false
  WITHOUT_DEPENDS := false
  REVERSE_DEPENDS := false
  EXCLUDE_COMPONENTS := []

/-- The words `a`, `a/` and `a//`. -/
def wordA : Word := ⟨['a'], by decide, by decide, by decide⟩

def wordASlash : Word := ⟨['a', '/'], by decide, by decide, by decide⟩

def wordASlashes : Word := ⟨['a', '/', '/'], by decide, by decide, by decide⟩

/-- Requests for `a` and `a/`. -/
theorem component_exec_iff_slash : ∃ r, (∀ depth ≥ onlyA.depth [wordA, wordASlash],
      onlyA.component_depends depth .init [wordA, wordASlash] = some r) ∧ r.out.Nodup ∧
    ((∀ params_check action ds,
        onlyA.component_exec params_check action [wordA, wordASlash] = some ds → ds.Nodup) ↔
      ∀ u ∈ r.visits, ∀ v ∈ r.visits, onlyA.Selects u → onlyA.Selects v →
        u.component ≠ v.component → onlyA.tree.dir u.component ≠ onlyA.tree.dir v.component) ∧
    (onlyA.OneName [wordA, wordASlash] → ∀ params_check action ds,
      onlyA.component_exec params_check action [wordA, wordASlash] = some ds → ds.Nodup) :=
  component_exec_iff rfl _

/-- Requests for `a` and `a//`: one slash is stripped, and the action of `a` runs twice. -/
theorem not_component_exec_nodup : ¬ ∀ (Dir : Type) (cli : Settings Dir) (components : List Word)
    (params_check action : Text → Bool) (ds : List Dir), cli.WITHOUT_DEPENDS = false →
    cli.component_exec params_check action components = some ds → ds.Nodup := by
  intro h
  have hnodup := h Unit onlyA [wordA, wordASlashes] (fun _ => true) (fun _ => true) [(), ()] rfl
    rfl
  exact absurd hnodup (by decide)

end Settings

end Anx.Cli
