import Mathlib.Logic.Relation
import Anx.Cli.Resolution

/-!
# Dependencies first

Without `REVERSE_DEPENDS`, a component is printed after the call that processes its
dependencies. What has come up by then is printed, or it is one of the components whose
dependencies are being processed: those lead to the component, so that no dependency is
among them as long as there is no cycle. A component without a `DEPENDS` line is extended by
what another one has left, but all of that has come up.

- `DependsOn`, `Ordered`: the relation, and the order of what is printed;
- `Printed`, `LeadTo`: what has come up is printed or pending, and where pending ones lead;
- `Runs.ordered`: a loop keeps the order;
- `resolve_ordered`: **dependencies run first** in a resolution that rejects nothing.
-/

namespace Anx.Cli

open Anx.Lib

namespace Settings

variable {Dir : Type} {cli : Settings Dir}

/-- The component names an existing one in its own `DEPENDS` line. -/
def DependsOn (cli : Settings Dir) (c c' : Text) : Prop :=
  (cli.files c').isSome ∧
    ∃ f, cli.files c = some f ∧ ∃ w ∈ f.DEPENDS.getD [], w.component = c'

/-- Every component comes after those that it depends on. -/
def Ordered (cli : Settings Dir) (out : List Text) : Prop :=
  ∀ before c after, out = before ++ c :: after → ∀ c', cli.DependsOn c c' → c' ∈ before

theorem ordered_concat {out : List Text} {c : Text} (h : cli.Ordered out)
    (hc : ∀ c', cli.DependsOn c c' → c' ∈ out) : cli.Ordered (out ++ [c]) := by
  intro before x after heq
  obtain rfl | ⟨after', last, rfl⟩ := List.eq_nil_or_concat after
  · obtain ⟨rfl, hx⟩ := List.append_inj' heq rfl
    cases hx
    exact hc
  · rw [List.concat_eq_append, ← List.cons_append, ← List.append_assoc] at heq
    obtain ⟨rfl, -⟩ := List.append_inj' heq rfl
    exact h before x after' rfl

/-! ## What has come up -/

/-- An existing component that has come up is printed, or pending. -/
def Printed (cli : Settings Dir) (pending : List Text) (r : Resolution) : Prop :=
  ∀ c ∈ r.visited, (cli.files c).isSome → c ∈ r.out ∨ c ∈ pending

/-- The pending components lead to the existing ones among the words. -/
def LeadTo (cli : Settings Dir) (pending : List Text) (ws : List Word) : Prop :=
  ∀ s ∈ pending, ∀ w ∈ ws, (cli.files w.component).isSome →
    Relation.TransGen cli.DependsOn s w.component

variable {pending : List Text} {r : Resolution} {T : List (List Tok)} {D ws : List Word} {w : Word}

theorem Printed.missing (h : cli.Printed pending r) {c : Text} (hc : cli.files c = none) :
    cli.Printed pending (r.visit c T D) := by
  intro c' hc' hexists
  rw [Resolution.visit_visited, List.mem_append, List.mem_singleton] at hc'
  obtain hc' | rfl := hc'
  · exact h c' hc' hexists
  · rw [hc] at hexists
    cases hexists

theorem Printed.visit (h : cli.Printed pending r) (c : Text) :
    cli.Printed (c :: pending) (r.visit c T D) := by
  intro c' hc' hexists
  rw [Resolution.visit_visited, List.mem_append, List.mem_singleton] at hc'
  obtain hc' | rfl := hc'
  · exact (h c' hc' hexists).imp_right (List.mem_cons_of_mem _)
  · exact .inr List.mem_cons_self

theorem Printed.echo {c : Text} (h : cli.Printed (c :: pending) r) :
    cli.Printed pending (r.echo c) := by
  intro c' hc' hexists
  rw [Resolution.echo_out, List.mem_append, List.mem_singleton]
  obtain hout | hpend := h c' hc' hexists
  · exact .inl (.inl hout)
  · obtain rfl | hpend := List.mem_cons.mp hpend
    · exact .inl (.inr rfl)
    · exact .inr hpend

theorem LeadTo.tail (h : cli.LeadTo pending (w :: ws)) : cli.LeadTo pending ws :=
  fun s hs w' hw' => h s hs w' (List.mem_cons_of_mem _ hw')

/-- With a component pending, its own line is led to. -/
theorem LeadTo.line (h : cli.LeadTo pending (w :: ws)) {f : Conf} {ds : List Word}
    (hfile : cli.files w.component = some f) (hdep : f.DEPENDS = some ds) :
    cli.LeadTo (w.component :: pending) ds := by
  intro s hs w' hw' hexists'
  have hexists : (cli.files w.component).isSome := by rw [hfile]; rfl
  have hstep : cli.DependsOn w.component w'.component :=
    ⟨hexists', f, hfile, w', by rwa [hdep], rfl⟩
  obtain rfl | hs := List.mem_cons.mp hs
  · exact .single hstep
  · exact (h s hs w List.mem_cons_self hexists).tail hstep

/-- **After the call for a component**, what it depends on is printed: a pending dependency
would be on a cycle. -/
theorem Printed.depends (hacyclic : ∀ c, ¬ Relation.TransGen cli.DependsOn c c)
    (h : cli.Printed (w.component :: pending) r) (hlead : cli.LeadTo pending (w :: ws)) {f : Conf}
    (hfile : cli.files w.component = some f)
    (hvisited : ∀ w' ∈ f.DEPENDS.getD D, w'.component ∈ r.visited) {c' : Text}
    (hdepends : cli.DependsOn w.component c') : c' ∈ r.out := by
  obtain ⟨hexists', f', hf', w', hw', rfl⟩ := hdepends
  rw [hfile] at hf'
  cases hf'
  have hexists : (cli.files w.component).isSome := by rw [hfile]; rfl
  have hstep : cli.DependsOn w.component w'.component := ⟨hexists', f, hfile, w', hw', rfl⟩
  have hmem : w' ∈ f.DEPENDS.getD D := by
    cases hdep : f.DEPENDS with
    | none =>
      rw [hdep] at hw'
      cases hw'
    | some ds => rwa [hdep] at hw'
  obtain hout | hpend := h _ (hvisited w' hmem) hexists'
  · exact hout
  · exfalso
    obtain heq | hpend := List.mem_cons.mp hpend
    · rw [heq] at hstep
      exact hacyclic _ (.single hstep)
    · exact hacyclic _ ((hlead _ hpend w List.mem_cons_self hexists).tail hstep)

/-- **A loop keeps the order**, if the components that are pending lead to its words. -/
theorem Runs.ordered (hmode : cli.REVERSE_DEPENDS = false)
    (hacyclic : ∀ c, ¬ Relation.TransGen cli.DependsOn c c) {r' : Resolution}
    (h : cli.Runs T D r ws r')
    (hall : ∀ v ∈ r'.visits, (cli.files v.component).isSome → cli.Accepts v)
    (hprinted : cli.Printed pending r) (hD : ∀ w ∈ D, w.component ∈ r.visited)
    (hlead : cli.LeadTo pending ws) (hordered : cli.Ordered r.out) :
    cli.Ordered r'.out ∧ cli.Printed pending r' := by
  induction h generalizing pending with
  | nil => exact ⟨hordered, hprinted⟩
  | skip _ _ ih => exact ih hall hprinted hD hlead.tail hordered
  | @missing T D ws w r r' _ hfile _ ih =>
    refine ih hall (hprinted.missing hfile) (fun w' hw' => ?_) hlead.tail hordered
    rw [Resolution.visit_visited]
    exact List.mem_append_left _ (hD w' hw')
  | @reject T D ws w r r' f _ hfile hreject rest _ =>
    -- nothing is rejected
    have hmem := rest.visits_extend.subset (List.mem_append_right _ (List.mem_singleton_self _))
    obtain ⟨f', hf', haccept⟩ := hall _ hmem (by rw [hfile]; rfl)
    rw [hfile] at hf'
    cases hf'
    rw [hreject] at haccept
    cases haccept
  | @accept T D ws w r r₁ r' f hnew hfile haccept call rest ihcall ihrest =>
    have hbefore : cli.before (r.visit w.component T D) w.component = r.visit w.component T D := by
      unfold before
      rw [hmode]
      rfl
    have hafter : cli.after r₁ w.component = r₁.echo w.component := by
      unfold after
      rw [hmode]
      rfl
    rw [hbefore] at call ihcall
    rw [hafter] at rest ihrest
    -- the call processes its own line, or names that have come up
    obtain ⟨hordered₁, hprinted₁⟩ :
        cli.Ordered r₁.out ∧ cli.Printed (w.component :: pending) r₁ := by
      cases hdep : f.DEPENDS with
      | none =>
        rw [hdep] at call
        have hold : ∀ w' ∈ (none : Option (List Word)).getD D,
            w'.component ∈ (r.visit w.component T D).visited := by
          intro w' hw'
          rw [Resolution.visit_visited]
          exact List.mem_append_left _ (hD w' hw')
        rw [call.eq_of_visited hold]
        exact ⟨hordered, hprinted.visit _⟩
      | some ds =>
        have hline : cli.LeadTo (w.component :: pending) (f.DEPENDS.getD D) := by
          rw [hdep]
          exact hlead.line hfile hdep
        exact ihcall (fun v hv => hall v (rest.visits_extend.subset hv)) (hprinted.visit _)
          (by simp) hline hordered
    refine ihrest hall hprinted₁.echo (fun w' hw' => call.visited_of_mem w' hw') hlead.tail ?_
    exact ordered_concat hordered₁ fun c' hc' =>
      hprinted₁.depends hacyclic hlead hfile call.visited_of_mem hc'

/-- **Dependencies run first**: in forward mode, without cycles and when no component is
rejected, every printed component comes after the existing ones in its own `DEPENDS`. -/
theorem resolve_ordered (hmode : cli.REVERSE_DEPENDS = false)
    (hacyclic : ∀ c, ¬ Relation.TransGen cli.DependsOn c c) (requests : List Word) :
    ∃ r, cli.resolve requests = some r ∧
      ((∀ v ∈ r.visits, (cli.files v.component).isSome → cli.Accepts v) → cli.Ordered r.out) := by
  obtain ⟨r, hr⟩ := cli.resolve_isSome requests
  refine ⟨r, hr, fun hall => ?_⟩
  have hordered : cli.Ordered [] := by
    intro before c after heq
    cases before <;> cases heq
  have hlead : cli.LeadTo [] requests := fun s hs => absurd hs List.not_mem_nil
  refine ((resolve_spec hr).1.ordered hmode hacyclic hall ?_ ?_ hlead hordered).1
  · exact fun c hc => absurd hc List.not_mem_nil
  · exact fun w hw => absurd hw List.not_mem_nil

/-- The component `p`, which depends on `q`. -/
def pOnQ : Settings Bool where
  tree := {
    dir := fun c => if c = ['p'] then some true else if c = ['q'] then some false else none
    conf := fun d =>
      some ⟨none, if d then some [⟨['q'], by decide, by decide, by decide⟩] else none⟩
    names := [['q']]
    closed := by
      intro c d f _ hf w hw
      cases hf
      cases d with
      | false => cases hw
      | true =>
        obtain rfl := List.mem_singleton.mp hw
        exact List.mem_singleton_self _ }
  DISTRIB := []
  ARCH := []
  SUITE := []
  WITHOUT_CHECK := false
  WITHOUT_DEPENDS := false
  REVERSE_DEPENDS := false
  EXCLUDE_COMPONENTS := []

theorem pOnQ_dependsOn {c c' : Text} (h : pOnQ.DependsOn c c') : c = ['p'] ∧ c' = ['q'] := by
  obtain ⟨-, f, hf, w, hw, rfl⟩ := h
  by_cases hc : c = ['p']
  · subst hc
    cases hf
    obtain rfl := List.mem_singleton.mp hw
    exact ⟨rfl, rfl⟩
  · obtain ⟨d, hd, hconf⟩ := Option.bind_eq_some_iff.mp hf
    have hd : (if c = ['p'] then some true else if c = ['q'] then some false else none) = some d :=
      hd
    rw [if_neg hc] at hd
    split at hd
    · cases hd
      cases hconf
      cases hw
    · cases hd

theorem pOnQ_acyclic (c : Text) : ¬ Relation.TransGen pOnQ.DependsOn c c := by
  have hends : ∀ {c c'}, Relation.TransGen pOnQ.DependsOn c c' → c = ['p'] ∧ c' = ['q'] := by
    intro c c' h
    induction h with
    | single h => exact pOnQ_dependsOn h
    | tail _ h ih => exact ⟨ih.1, (pOnQ_dependsOn h).2⟩
  intro hc
  obtain ⟨hp, hq⟩ := hends hc
  rw [hp] at hq
  cases hq

/-- A request for `p`: nothing is rejected, and `q` comes first. -/
theorem resolve_ordered_pOnQ : ∃ r,
    pOnQ.resolve [⟨['p'], by decide, by decide, by decide⟩] = some r ∧ pOnQ.Ordered r.out := by
  obtain ⟨r, hr, hordered⟩ := resolve_ordered rfl pOnQ_acyclic
    [⟨['p'], by decide, by decide, by decide⟩]
  refine ⟨r, hr, hordered ?_⟩
  cases hr
  intro v hv _
  obtain rfl | hv := List.mem_cons.mp hv
  · exact ⟨_, rfl, rfl⟩
  · obtain rfl := List.mem_singleton.mp hv
    exact ⟨_, rfl, rfl⟩

end Settings

end Anx.Cli
