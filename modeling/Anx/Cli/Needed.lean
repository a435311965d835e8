import Mathlib.Order.Bounds.Basic
import Anx.Cli.Resolution

/-!
# The needed components

What a resolution is for: the requested components and those they depend on, as far as they
exist and fit the distribution, the architecture and the suite, each by its own
configuration. The loop of `component_depends` keeps `TARGET` and `DEPENDS` from one
component to the next, so that a component without one of these lines is judged, and
extended, by what another one has left.

- `Fits`, `Closed`, `Needed`: the purpose; `needed_isLeast`: the needed components are the
  least set that has the requests and is closed under dependencies;
- `JudgedRight`: what is left over does not change the judgement of a component;
- `NoStale`: what is left over has no effect at all;
- `resolve_isLeast_iff`: **the printed components are the needed ones** exactly when every
  component that comes up is judged right, and this is so when nothing stale has an effect.
-/

namespace Anx.Cli

open Anx.Lib

namespace Settings

variable {Dir : Type} {cli : Settings Dir}

/-- The component exists, and fits by its own `TARGET` line or has none. -/
def Fits (cli : Settings Dir) (c : Text) : Prop :=
  ∃ f, cli.files c = some f ∧ cli.component_is_compatible (f.TARGET.getD []) = true

/-- The set has the requested components that fit, and those that its members depend on by
their own `DEPENDS` lines and that fit. -/
structure Closed (cli : Settings Dir) (requests : List Word) (S : Set Text) : Prop where
  requests : ∀ w ∈ requests, cli.Fits w.component → w.component ∈ S
  depends : ∀ c ∈ S, ∀ f, cli.files c = some f →
    ∀ w ∈ f.DEPENDS.getD [], cli.Fits w.component → w.component ∈ S

/-- The component has been requested, or another needed component depends on it. -/
inductive Needed (cli : Settings Dir) (requests : List Word) : Text → Prop where
  | request {w : Word} (hw : w ∈ requests) (hfits : cli.Fits w.component) :
      Needed cli requests w.component
  | depends {c : Text} {f : Conf} {w : Word} (hc : Needed cli requests c)
      (hfile : cli.files c = some f) (hw : w ∈ f.DEPENDS.getD []) (hfits : cli.Fits w.component) :
      Needed cli requests w.component

theorem Needed.fits {requests : List Word} {c : Text} (h : cli.Needed requests c) : cli.Fits c := by
  cases h with
  | request _ hfits => exact hfits
  | depends _ _ _ hfits => exact hfits

/-- **The needed components** are the least closed set. -/
theorem needed_isLeast (requests : List Word) :
    IsLeast {S | cli.Closed requests S} {c | cli.Needed requests c} := by
  constructor
  · exact ⟨fun w hw hfits => .request hw hfits, fun c hc f hfile w hw hfits =>
      .depends hc hfile hw hfits⟩
  · intro S hS c hc
    induction hc with
    | request hw hfits => exact hS.requests _ hw hfits
    | depends _ hfile hw hfits ih => exact hS.depends _ ih _ hfile _ hw hfits

theorem isLeast_iff {requests : List Word} {out : List Text} :
    IsLeast {S | cli.Closed requests S} {c | c ∈ out} ↔ ∀ c, c ∈ out ↔ cli.Needed requests c := by
  constructor
  · intro h c
    exact Set.ext_iff.mp (h.unique (needed_isLeast requests)) c
  · intro h
    have hset : {c | c ∈ out} = {c | cli.Needed requests c} := Set.ext h
    rw [hset]
    exact needed_isLeast requests

/-- A needed component has a `TARGET` line, or what is left over accepts it; one that is not
needed is rejected by its line or by what is left over. -/
structure JudgedRight (cli : Settings Dir) (requests : List Word) (v : Visit) : Prop where
  needed : ∀ f, cli.files v.component = some f → cli.Needed requests v.component →
    f.TARGET ≠ none ∨ cli.component_is_compatible v.TARGET = true
  unneeded : ∀ f, cli.files v.component = some f → ¬ cli.Needed requests v.component →
    cli.component_is_compatible (f.TARGET.getD v.TARGET) = false

/-- A component without a `TARGET` line finds none left over that rejects it; an accepted
one without a `DEPENDS` line finds only names left over that have come up. -/
structure NoStale (cli : Settings Dir) (v : Visit) : Prop where
  target : ∀ f, cli.files v.component = some f → f.TARGET = none →
    cli.component_is_compatible v.TARGET = true
  depends : ∀ f, cli.files v.component = some f → f.DEPENDS = none →
    cli.component_is_compatible (f.TARGET.getD v.TARGET) = true →
    ∀ w ∈ v.DEPENDS, isIgnored v.IGNORE_DEPENDS w.component = true

/-- Judged right means accepted exactly when needed. -/
theorem judgedRight_iff (hcheck : cli.WITHOUT_CHECK = false) {requests : List Word} {v : Visit} :
    cli.JudgedRight requests v ↔ (cli.Accepts v ↔ cli.Needed requests v.component) := by
  have haccepts : ∀ target, cli.accepts target = cli.component_is_compatible target := by
    intro target
    rw [accepts, hcheck, Bool.false_or]
  constructor
  · intro h
    constructor
    · rintro ⟨f, hfile, haccept⟩
      by_contra hnot
      rw [haccepts, h.unneeded f hfile hnot] at haccept
      cases haccept
    · intro hneeded
      obtain ⟨f, hfile, hfits⟩ := hneeded.fits
      refine ⟨f, hfile, ?_⟩
      rw [haccepts]
      cases htarget : f.TARGET with
      | none => exact (h.needed f hfile hneeded).resolve_left (by simp [htarget])
      | some target => rwa [htarget] at hfits
  · intro h
    constructor
    · intro f hfile hneeded
      obtain ⟨f', hfile', haccept⟩ := h.mpr hneeded
      rw [hfile] at hfile'
      cases hfile'
      rw [haccepts] at haccept
      cases htarget : f.TARGET with
      | none =>
        rw [htarget] at haccept
        exact .inr haccept
      | some target => exact .inl (by simp)
    · intro f hfile hnot
      rw [← haccepts]
      by_contra haccept
      exact hnot (h.mp ⟨f, hfile, by simpa using haccept⟩)

/-! ## What the accepted components lead to -/

/-- A component comes up in the loop, or has come up before. -/
theorem mem_visit_visits {r : Resolution} {c : Text} {T : List (List Tok)} {D : List Word}
    {v : Visit} (h : v ∈ (r.visit c T D).visits) :
    v ∈ r.visits ∨ v = ⟨c, r.IGNORE_DEPENDS, T, D⟩ := by
  obtain h | h := List.mem_append.mp h
  · exact .inl h
  · exact .inr (List.mem_singleton.mp h)

/-- What holds of everything that comes up after a component, and of the component, holds of
everything that comes up from it on. -/
theorem new_visits {r : Resolution} {c : Text} {T : List (List Tok)} {D : List Word}
    {visits : List Visit} {P : Visit → Prop}
    (h : ∀ v ∈ visits, v ∈ (r.visit c T D).visits ∨ P v)
    (hc : ⟨c, r.IGNORE_DEPENDS, T, D⟩ ∈ visits → P ⟨c, r.IGNORE_DEPENDS, T, D⟩) :
    ∀ v ∈ visits, v ∈ r.visits ∨ P v := by
  intro v hv
  obtain hold | hP := h v hv
  · obtain hold | rfl := mem_visit_visits hold
    · exact .inl hold
    · exact .inr (hc hv)
  · exact .inr hP

/-- **Dependencies come up**: those in its own line, after a component has been accepted. -/
theorem Runs.depends_visited {T : List (List Tok)} {D ws : List Word} {r r' : Resolution}
    (h : cli.Runs T D r ws r') : ∀ v ∈ r'.visits, v ∈ r.visits ∨
      (cli.Accepts v → ∀ f, cli.files v.component = some f →
        ∀ w ∈ f.DEPENDS.getD [], w.component ∈ r'.visited) := by
  induction h with
  | nil => exact fun v hv => .inl hv
  | skip _ _ ih => exact ih
  | missing _ hfile _ ih =>
    refine new_visits ih fun _ _ f hf => ?_
    rw [hfile] at hf
    cases hf
  | reject _ hfile hreject _ ih =>
    refine new_visits ih ?_
    rintro - ⟨f, hf, haccept⟩
    rw [hfile] at hf
    cases hf
    rw [hreject] at haccept
    cases haccept
  | @accept T D ws w r r₁ r' f _ hfile _ call rest ihcall ihrest =>
    have hrest := rest.visited_mono
    rw [after_visited] at hrest
    rw [before_visits] at ihcall
    rw [after_visits] at ihrest
    refine new_visits (c := w.component) (T := T) (D := D) (fun v hv => ?_) fun _ _ f' hf w' hw =>
      hrest ?_
    · obtain hv | hv := ihrest v hv
      · exact (ihcall v hv).imp_right fun h ha f hf w hw => hrest (h ha f hf w hw)
      · exact .inr hv
    · rw [hfile] at hf
      cases hf
      refine call.visited_of_mem w' ?_
      cases hdep : f.DEPENDS with
      | none =>
        rw [hdep] at hw
        cases hw
      | some ds => rwa [hdep] at hw

/-- Without stale variables, a component is accepted when it fits. -/
theorem NoStale.accepts_iff (hcheck : cli.WITHOUT_CHECK = false) {v : Visit}
    (h : cli.NoStale v) : cli.Accepts v ↔ cli.Fits v.component := by
  refine exists_congr fun f => and_congr_right fun hfile => ?_
  rw [accepts, hcheck, Bool.false_or]
  cases htarget : f.TARGET with
  | none =>
    have hleft := h.target f hfile htarget
    have hnone : cli.component_is_compatible [] = true := rfl
    simp only [Option.getD_none, hleft, hnone]
  | some target => rfl

/-- **Nothing unneeded comes up** in a loop whose words are needed if they fit, when nothing
stale has an effect. -/
theorem Runs.needed_of_noStale (hcheck : cli.WITHOUT_CHECK = false) {requests : List Word}
    {T : List (List Tok)} {D ws : List Word} {r r' : Resolution} (h : cli.Runs T D r ws r')
    (hwf : r.Wf) (hws : ∀ w ∈ ws, cli.Fits w.component → cli.Needed requests w.component)
    (hstale : ∀ v ∈ r'.visits, cli.NoStale v) : ∀ v ∈ r'.visits, v ∈ r.visits ∨
      (cli.Accepts v ↔ cli.Needed requests v.component) := by
  -- a word of the loop that comes up
  have hword : ∀ {w : Word} {v : Visit}, v.component = w.component → cli.NoStale v →
      (cli.Fits w.component → cli.Needed requests w.component) →
      (cli.Accepts v ↔ cli.Needed requests v.component) := by
    intro w v hc hno hneeded
    rw [hno.accepts_iff hcheck, hc]
    exact ⟨hneeded, Needed.fits⟩
  induction h with
  | nil => exact fun v hv => .inl hv
  | skip _ _ ih => exact ih hwf (fun w hw => hws w (List.mem_cons_of_mem _ hw)) hstale
  | @missing T D ws w r r' _ _ _ ih =>
    have hvisit := Resolution.visit_wf hwf w.component_plain T D
    have hlater := ih hvisit (fun w hw => hws w (List.mem_cons_of_mem _ hw)) hstale
    exact new_visits hlater fun hv => hword rfl (hstale _ hv) (hws _ List.mem_cons_self)
  | @reject T D ws w r r' _ _ _ _ _ ih =>
    have hvisit := Resolution.visit_wf hwf w.component_plain T D
    have hlater := ih hvisit (fun w hw => hws w (List.mem_cons_of_mem _ hw)) hstale
    exact new_visits hlater fun hv => hword rfl (hstale _ hv) (hws _ List.mem_cons_self)
  | @accept T D ws w r r₁ r' f hnew hfile haccept call rest ihcall ihrest =>
    have hvisit := Resolution.visit_wf hwf w.component_plain T D
    have hrest := rest.visits_extend.subset
    rw [after_visits] at hrest
    have hcall := call.visits_extend.subset
    rw [before_visits] at hcall
    -- the component itself is needed
    have hno := hstale _ (hrest (hcall (List.mem_append_right _ (List.mem_singleton_self _))))
    have haccepts := hword (w := w) rfl hno (hws w List.mem_cons_self)
    have hneeded : cli.Needed requests w.component := haccepts.mp ⟨f, hfile, haccept⟩
    rw [before_visits] at ihcall
    rw [after_visits] at ihrest
    -- what comes up in the call: by its own line, or nothing
    have hdepends : ∀ v ∈ r₁.visits, v ∈ (r.visit w.component T D).visits ∨
        (cli.Accepts v ↔ cli.Needed requests v.component) := by
      cases hdep : f.DEPENDS with
      | some ds =>
        refine ihcall (before_wf hvisit _) ?_ fun v hv => hstale v (hrest hv)
        intro w' hw'
        rw [hdep] at hw'
        exact .depends hneeded hfile (by rw [hdep]; exact hw')
      | none =>
        have hold : ∀ w' ∈ f.DEPENDS.getD D,
            w'.component ∈ (cli.before (r.visit w.component T D) w.component).visited := by
          intro w' hw'
          rw [hdep] at hw'
          have hcompatible : cli.component_is_compatible (f.TARGET.getD T) = true := by
            rwa [accepts, hcheck, Bool.false_or] at haccept
          have hignored := hno.depends f hfile hdep hcompatible w' hw'
          have hmem := (Resolution.isIgnored_iff hwf w'.component_plain).mp hignored
          rw [before_visited, Resolution.visit_visited]
          exact List.mem_append_left _ hmem
        rw [call.eq_of_visited hold, before_visits]
        exact fun v hv => .inl hv
    refine new_visits (c := w.component) (T := T) (D := D) (fun v hv => ?_) fun _ => haccepts
    obtain hv | hv := ihrest (after_wf (call.wf (before_wf hvisit _)) _)
      (fun w hw => hws w (List.mem_cons_of_mem _ hw)) hstale v hv
    · exact hdepends v hv
    · exact .inr hv

/-! ## The printed components -/

/-- When every component that comes up is accepted exactly when it is needed, those that are
printed are the needed ones, and only then. -/
theorem out_iff_needed {requests : List Word} {r : Resolution}
    (h : cli.Runs [] [] .init requests r) (hout : cli.OutOk r []) :
    (∀ c, c ∈ r.out ↔ cli.Needed requests c) ↔
      ∀ v ∈ r.visits, (cli.Accepts v ↔ cli.Needed requests v.component) := by
  have hmem : ∀ c, c ∈ r.out ↔ cli.Accepted r c := fun c => by simp [hout.mem c]
  constructor
  · intro hneeded v hv
    rw [← hneeded, hmem]
    constructor
    · exact fun ha => ⟨v, hv, rfl, ha⟩
    · rintro ⟨u, hu, hc, ha⟩
      -- a component comes up once
      have huv : u = v := List.inj_on_of_nodup_map hout.visited hu hv hc
      exact huv ▸ ha
  · intro hright c
    rw [hmem]
    constructor
    · rintro ⟨v, hv, rfl, ha⟩
      exact (hright v hv).mp ha
    · intro hc
      -- a needed component that has come up is accepted
      have hvisited : ∀ c, cli.Needed requests c → c ∈ r.visited → cli.Accepted r c := by
        intro c hc hcr
        obtain ⟨v, hv, rfl⟩ := List.mem_map.mp hcr
        exact ⟨v, hv, rfl, (hright v hv).mpr hc⟩
      induction hc with
      | request hw hfits =>
        exact hvisited _ (.request hw hfits) (h.visited_of_mem _ hw)
      | @depends c f w hc hfile hw hfits ih =>
        obtain ⟨v, hv, rfl, ha⟩ := ih
        obtain hv' | hv' := h.depends_visited v hv
        · cases hv'
        · exact hvisited _ (.depends hc hfile hw hfits) (hv' ha f hfile w hw)

/-- **The printed components are the needed ones** exactly when every component that comes
up is judged right; and they are when nothing stale has an effect. -/
theorem resolve_isLeast_iff (hcheck : cli.WITHOUT_CHECK = false) (requests : List Word) :
    ∃ r, cli.resolve requests = some r ∧
      (IsLeast {S | cli.Closed requests S} {c | c ∈ r.out} ↔
        ∀ v ∈ r.visits, cli.JudgedRight requests v) ∧
      ((∀ v ∈ r.visits, cli.NoStale v) →
        IsLeast {S | cli.Closed requests S} {c | c ∈ r.out}) := by
  obtain ⟨r, hr⟩ := cli.resolve_isSome requests
  obtain ⟨hruns, hout⟩ := resolve_spec hr
  refine ⟨r, hr, ?_, fun hstale => ?_⟩
  · rw [isLeast_iff, out_iff_needed hruns hout]
    exact forall₂_congr fun v _ => (judgedRight_iff hcheck).symm
  · rw [isLeast_iff, out_iff_needed hruns hout]
    intro v hv
    have hneeded := hruns.needed_of_noStale hcheck Resolution.init_wf
      (fun w hw hfits => Needed.request hw hfits) hstale v hv
    exact hneeded.resolve_left List.not_mem_nil

/-- The component `x` for another suite, and `y` without any line. -/
def xAndY : Settings Bool where
  tree := {
    dir := fun c => if c = ['x'] then some true else if c = ['y'] then some false else none
    conf := fun d => some ⟨if d then some [[.lit 'z']] else none, none⟩
    names := []
    closed := by
      intro c d f _ hf w hw
      cases hf
      cases hw }
  DISTRIB := []
  ARCH := []
  SUITE := []
  WITHOUT_CHECK := false
  WITHOUT_DEPENDS := false
  REVERSE_DEPENDS := false
  EXCLUDE_COMPONENTS := []

def wordX : Word := ⟨['x'], by decide, by decide, by decide⟩

def wordY : Word := ⟨['y'], by decide, by decide, by decide⟩

def wordZ : Word := ⟨['z'], by decide, by decide, by decide⟩

/-- The component `z` depends on `y`, which has no line, and on `x` for another suite. -/
def dependsOnXAndY : Settings Char where
  tree := {
    dir := fun c => if c = ['x'] ∨ c = ['y'] ∨ c = ['z'] then c.head? else none
    conf := fun d => some ⟨if d = 'x' then some [[.lit 's']] else none,
      if d = 'z' then some [wordY, wordX] else none⟩
    names := [['y'], ['x']]
    closed := by
      intro c d f _ hf w hw
      cases hf
      have hall : ∀ w ∈ [wordY, wordX], w.component ∈ [['y'], ['x']] := by decide
      by_cases hd : d = 'z'
      · exact hall w (by simpa [hd] using hw)
      · simp [hd] at hw }
  DISTRIB := []
  ARCH := []
  SUITE := []
  WITHOUT_CHECK := false
  WITHOUT_DEPENDS := false
  REVERSE_DEPENDS := false
  EXCLUDE_COMPONENTS := []

/-- What comes up for `z` and `y`, with nothing left over. -/
def visitsOfZ : List Visit :=
  [⟨['z'], [' '], [], []⟩, ⟨['y'], [' ', 'z', ' '], [], []⟩,
    ⟨['x'], [' ', 'z', ' ', 'y', ' '], [], []⟩]

/-- Requests for `z` and `y`. -/
theorem resolve_isLeast_iff_y : ∃ r, dependsOnXAndY.resolve [wordZ, wordY] = some r ∧
    r.out = [['y'], ['z']] ∧
    IsLeast {S | dependsOnXAndY.Closed [wordZ, wordY] S} {c | c ∈ r.out} := by
  have hcheck : dependsOnXAndY.WITHOUT_CHECK = false := rfl
  obtain ⟨r, hr, -, hleast⟩ := resolve_isLeast_iff hcheck [wordZ, wordY]
  have hrun : dependsOnXAndY.resolve [wordZ, wordY] =
      some ⟨[' ', 'z', ' ', 'y', ' ', 'x', ' '], [['y'], ['z']], visitsOfZ⟩ := by decide
  rw [hrun, Option.some_inj] at hr
  subst hr
  have hfresh : ∀ v ∈ visitsOfZ, v = ⟨v.component, v.IGNORE_DEPENDS, [], []⟩ := by decide
  refine ⟨_, hrun, rfl, hleast fun v hv => ?_⟩
  rw [hfresh v hv]
  exact ⟨fun _ _ _ => rfl, fun _ _ _ _ _ hw => absurd hw List.not_mem_nil⟩

/-- Requests for `x` and `y`: `y` is rejected by the `TARGET` that `x` has left. -/
theorem not_resolve_isLeast : ¬ ∀ (Dir : Type) (cli : Settings Dir) (requests : List Word)
    (r : Resolution), cli.WITHOUT_CHECK = false → cli.resolve requests = some r →
    IsLeast {S | cli.Closed requests S} {c | c ∈ r.out} := by
  intro h
  have hrun : xAndY.resolve [wordX, wordY] =
      some ⟨[' ', 'x', ' ', 'y', ' '], [], [⟨['x'], [' '], [], []⟩,
        ⟨['y'], [' ', 'x', ' '], [[.lit 'z']], []⟩]⟩ := by decide
  have hleast := h Bool xAndY _ _ rfl hrun
  -- `y` exists, and it has no line that it would not fit
  have hy := hleast.1.requests wordY (by decide) ⟨⟨none, none⟩, rfl, rfl⟩
  cases hy

end Settings

end Anx.Cli
