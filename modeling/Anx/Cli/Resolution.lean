import Mathlib.Data.List.Nodup
import Anx.Cli.ComponentDepends

/-!
# What a resolution does

- `Accepted`: the components that a resolution lets pass;
- `OutOk`: what has been printed is what has been accepted, once, up to the components whose
  dependencies are still being processed; `Runs.outOk` keeps it;
- `Runs.visited_of_mem`: every word of a loop comes up;
- `component_depends_isSome`, `component_depends_mono`: **the resolution ends**, since every
  call inside another one comes after a new name;
- `resolve_isSome`, `resolve_spec`: the end of every resolution, and what is known of it.
-/

namespace Anx.Cli

open Anx.Lib

namespace Settings

variable {Dir : Type} {cli : Settings Dir}

/-- The component that came up exists and has been accepted. -/
def Accepts (cli : Settings Dir) (v : Visit) : Prop :=
  ∃ f, cli.files v.component = some f ∧ cli.accepts (f.TARGET.getD v.TARGET) = true

/-- The component has come up and has been accepted. -/
def Accepted (cli : Settings Dir) (r : Resolution) (c : Text) : Prop :=
  ∃ v ∈ r.visits, v.component = c ∧ cli.Accepts v

theorem accepted_visit {r : Resolution} {c c' : Text} {T : List (List Tok)} {D : List Word} :
    cli.Accepted (r.visit c T D) c' ↔ cli.Accepted r c' ∨
      c' = c ∧ cli.Accepts ⟨c, r.IGNORE_DEPENDS, T, D⟩ := by
  unfold Accepted Resolution.visit
  constructor
  · rintro ⟨v, hv, hc, ha⟩
    obtain hv | hv := List.mem_append.mp hv
    · exact .inl ⟨v, hv, hc, ha⟩
    · rw [List.mem_singleton] at hv
      subst hv
      exact .inr ⟨hc.symm, ha⟩
  · rintro (⟨v, hv, hc, ha⟩ | ⟨rfl, ha⟩)
    · exact ⟨v, List.mem_append_left _ hv, hc, ha⟩
    · exact ⟨_, List.mem_append_right _ (List.mem_singleton_self _), rfl, ha⟩

theorem visited_of_accepted {r : Resolution} {c : Text} (h : cli.Accepted r c) :
    c ∈ r.visited := by
  obtain ⟨v, hv, rfl, -⟩ := h
  exact List.mem_map_of_mem hv

@[simp] theorem before_visits (r : Resolution) (c : Text) :
    (cli.before r c).visits = r.visits := by
  unfold before
  split <;> rfl

@[simp] theorem after_visits (r : Resolution) (c : Text) :
    (cli.after r c).visits = r.visits := by
  unfold after
  split <;> rfl

theorem accepted_congr {r r' : Resolution} (h : r'.visits = r.visits) {c : Text} :
    cli.Accepted r' c ↔ cli.Accepted r c := by
  unfold Accepted
  rw [h]

/-! ## What has come up -/

/-- Nothing that has come up is forgotten. -/
theorem Runs.visits_extend {T : List (List Tok)} {D ws : List Word} {r r' : Resolution}
    (h : cli.Runs T D r ws r') : r.visits <+: r'.visits := by
  induction h with
  | nil => exact List.prefix_rfl
  | skip _ _ ih => exact ih
  | missing _ _ _ ih => exact (List.prefix_append _ _).trans ih
  | reject _ _ _ _ ih => exact (List.prefix_append _ _).trans ih
  | accept _ _ _ _ _ ihcall ihrest =>
    rw [before_visits] at ihcall
    rw [after_visits] at ihrest
    exact (List.prefix_append _ _).trans (ihcall.trans ihrest)

theorem Runs.wf {T : List (List Tok)} {D ws : List Word} {r r' : Resolution}
    (h : cli.Runs T D r ws r') (hwf : r.Wf) : r'.Wf := by
  induction h with
  | nil => exact hwf
  | skip _ _ ih => exact ih hwf
  | missing _ _ _ ih => exact ih (Resolution.visit_wf hwf (Word.component_plain _) _ _)
  | reject _ _ _ _ ih => exact ih (Resolution.visit_wf hwf (Word.component_plain _) _ _)
  | accept _ _ _ _ _ ihcall ihrest =>
    refine ihrest (after_wf (ihcall (before_wf ?_ _)) _)
    exact Resolution.visit_wf hwf (Word.component_plain _) _ _

theorem Runs.visited_mono {T : List (List Tok)} {D ws : List Word} {r r' : Resolution}
    (h : cli.Runs T D r ws r') : r.visited ⊆ r'.visited :=
  List.map_subset _ h.visits_extend.subset

/-- **Every word comes up.** -/
theorem Runs.visited_of_mem {T : List (List Tok)} {D ws : List Word} {r r' : Resolution}
    (h : cli.Runs T D r ws r') : ∀ w ∈ ws, w.component ∈ r'.visited := by
  -- the first word has come up, and the rest of the loop forgets nothing
  induction h with
  | nil => simp
  | skip hold rest ih =>
    rintro w (_ | ⟨_, hw⟩)
    · exact rest.visited_mono hold
    · exact ih w hw
  | missing _ _ rest ih =>
    rintro w (_ | ⟨_, hw⟩)
    · exact rest.visited_mono (by simp)
    · exact ih w hw
  | reject _ _ _ rest ih =>
    rintro w (_ | ⟨_, hw⟩)
    · exact rest.visited_mono (by simp)
    · exact ih w hw
  | accept _ _ _ call rest _ ih =>
    rintro w (_ | ⟨_, hw⟩)
    · have hcall := call.visited_mono
      rw [before_visited] at hcall
      have hrest := rest.visited_mono
      rw [after_visited] at hrest
      exact hrest (hcall (by simp))
    · exact ih w hw

/-- When all words have come up already, the loop does nothing. -/
theorem Runs.eq_of_visited {T : List (List Tok)} {D ws : List Word} {r r' : Resolution}
    (h : cli.Runs T D r ws r') (hold : ∀ w ∈ ws, w.component ∈ r.visited) : r' = r := by
  induction h with
  | nil => rfl
  | skip _ _ ih => exact ih fun w hw => hold w (List.mem_cons_of_mem _ hw)
  | missing hnew => exact absurd (hold _ List.mem_cons_self) hnew
  | reject hnew => exact absurd (hold _ List.mem_cons_self) hnew
  | accept hnew => exact absurd (hold _ List.mem_cons_self) hnew

/-- What comes up has been requested or stands in a `DEPENDS` line. -/
theorem Runs.visited_subset {names : List Text} (hnames : cli.tree.names ⊆ names)
    {T : List (List Tok)} {D ws : List Word} {r r' : Resolution} (h : cli.Runs T D r ws r')
    (hws : ∀ w ∈ ws, w.component ∈ names) (hD : ∀ w ∈ D, w.component ∈ names)
    (hr : r.visited ⊆ names) : r'.visited ⊆ names := by
  have hdepends : ∀ {D : List Word} {c : Text} {f : Conf}, cli.files c = some f →
      (∀ w ∈ D, w.component ∈ names) → ∀ w ∈ f.DEPENDS.getD D, w.component ∈ names := by
    intro D c f hfile hD w hw
    cases hdep : f.DEPENDS with
    | none => exact hD w (by rwa [hdep] at hw)
    | some ds =>
      obtain ⟨d, hdir, hconf⟩ := Option.bind_eq_some_iff.mp hfile
      exact hnames (cli.tree.closed _ d f hdir hconf w (by rwa [hdep] at hw ⊢))
  have hvisit : ∀ {T : List (List Tok)} {D : List Word} {r : Resolution} {c : Text}, c ∈ names →
      r.visited ⊆ names → (r.visit c T D).visited ⊆ names := by
    intro T D r c hc hr c' hc'
    rw [Resolution.visit_visited, List.mem_append, List.mem_singleton] at hc'
    obtain hc' | rfl := hc'
    · exact hr hc'
    · exact hc
  induction h with
  | nil => exact hr
  | skip _ _ ih => exact ih (fun w hw => hws w (List.mem_cons_of_mem _ hw)) hD hr
  | missing _ _ _ ih =>
    exact ih (fun w hw => hws w (List.mem_cons_of_mem _ hw)) hD
      (hvisit (hws _ List.mem_cons_self) hr)
  | reject _ hfile _ _ ih =>
    exact ih (fun w hw => hws w (List.mem_cons_of_mem _ hw)) (hdepends hfile hD)
      (hvisit (hws _ List.mem_cons_self) hr)
  | accept _ hfile _ _ _ ihcall ihrest =>
    rw [before_visited] at ihcall
    rw [after_visited] at ihrest
    exact ihrest (fun w hw => hws w (List.mem_cons_of_mem _ hw)) (hdepends hfile hD)
      (ihcall (hdepends hfile hD) (by simp) (hvisit (hws _ List.mem_cons_self) hr))

/-! ## What is printed -/

/-- What has been printed is what has been accepted, once, but for the components `pending`,
whose dependencies are still being processed. -/
structure OutOk (cli : Settings Dir) (r : Resolution) (pending : List Text) : Prop where
  visited : r.visited.Nodup
  nodup : r.out.Nodup
  mem : ∀ c, c ∈ r.out ↔ cli.Accepted r c ∧ c ∉ pending
  pending : ∀ c ∈ pending, c ∈ r.visited

theorem init_outOk : cli.OutOk .init [] := by
  constructor <;> simp [Resolution.init, Resolution.visited, Accepted]

section

variable {T : List (List Tok)} {D : List Word} {r : Resolution} {c : Text} {pending : List Text}

theorem OutOk.visited_visit (h : cli.OutOk r pending) (hnew : c ∉ r.visited) :
    (r.visit c T D).visited.Nodup := by
  rw [Resolution.visit_visited, List.nodup_append]
  refine ⟨h.visited, List.nodup_singleton c, ?_⟩
  rintro a ha b hb rfl
  exact hnew (List.mem_singleton.mp hb ▸ ha)

/-- A component that does not exist or is not accepted. -/
theorem OutOk.visit (h : cli.OutOk r pending) (hnew : c ∉ r.visited)
    (hnot : ¬ cli.Accepts ⟨c, r.IGNORE_DEPENDS, T, D⟩) : cli.OutOk (r.visit c T D) pending := by
  refine ⟨h.visited_visit hnew, h.nodup, ?_, ?_⟩
  · intro c'
    rw [accepted_visit, Resolution.visit_out, h.mem c']
    simp only [hnot, and_false, or_false]
  · intro c' hc'
    rw [Resolution.visit_visited]
    exact List.mem_append_left _ (h.pending c' hc')

/-- The components that are pending while the dependencies of `c` are processed. -/
def stack (cli : Settings Dir) (c : Text) (pending : List Text) : List Text :=
  if cli.REVERSE_DEPENDS then pending else c :: pending

/-- A component that is accepted is printed at once, or pending. -/
theorem OutOk.before (h : cli.OutOk r pending) (hnew : c ∉ r.visited)
    (haccepts : cli.Accepts ⟨c, r.IGNORE_DEPENDS, T, D⟩) :
    cli.OutOk (cli.before (r.visit c T D) c) (cli.stack c pending) := by
  have hvisited : (cli.before (r.visit c T D) c).visited.Nodup := by
    rw [before_visited]
    exact h.visited_visit hnew
  have hout : c ∉ r.out := fun hc => hnew (visited_of_accepted ((h.mem c).mp hc).1)
  have hpending : c ∉ pending := fun hc => hnew (h.pending c hc)
  have haccepted : ∀ c', cli.Accepted (cli.before (r.visit c T D) c) c' ↔
      cli.Accepted r c' ∨ c' = c := by
    intro c'
    rw [accepted_congr (before_visits _ _), accepted_visit]
    simp only [haccepts, and_true]
  refine ⟨hvisited, ?_, ?_, ?_⟩
  · unfold Settings.before
    split
    · rw [Resolution.echo_out, Resolution.visit_out, List.nodup_append]
      refine ⟨h.nodup, List.nodup_singleton c, ?_⟩
      rintro a ha b hb rfl
      exact hout (List.mem_singleton.mp hb ▸ ha)
    · exact h.nodup
  · intro c'
    rw [haccepted]
    have hmem := h.mem c'
    unfold Settings.before stack
    split
    · rw [Resolution.echo_out, Resolution.visit_out, List.mem_append, List.mem_singleton, hmem]
      grind
    · rw [Resolution.visit_out, hmem]
      grind [visited_of_accepted]
  · intro c' hc'
    rw [before_visited, Resolution.visit_visited, List.mem_append, List.mem_singleton]
    unfold stack at hc'
    split at hc'
    · exact .inl (h.pending c' hc')
    · obtain rfl | hc' := List.mem_cons.mp hc'
      · exact .inr rfl
      · exact .inl (h.pending c' hc')

/-- A component whose dependencies have been processed is printed. -/
theorem OutOk.after (h : cli.OutOk r (cli.stack c pending)) (hpending : c ∉ pending)
    (haccepted : cli.Accepted r c) : cli.OutOk (cli.after r c) pending := by
  refine ⟨by rw [after_visited]; exact h.visited, ?_, ?_, ?_⟩
  · unfold Settings.after
    split
    · exact h.nodup
    · next hmode =>
      have hout : c ∉ r.out := fun hc => ((h.mem c).mp hc).2 (by simp [stack, hmode])
      rw [Resolution.echo_out, List.nodup_append]
      refine ⟨h.nodup, List.nodup_singleton c, ?_⟩
      rintro a ha b hb rfl
      exact hout (List.mem_singleton.mp hb ▸ ha)
  · intro c'
    rw [accepted_congr (after_visits _ _)]
    have hmem := h.mem c'
    unfold Settings.after
    unfold stack at hmem
    split
    · next hmode =>
      rw [if_pos hmode] at hmem
      exact hmem
    · next hmode =>
      rw [if_neg hmode, List.mem_cons] at hmem
      rw [Resolution.echo_out, List.mem_append, List.mem_singleton, hmem]
      grind
  · intro c' hc'
    rw [after_visited]
    refine h.pending c' ?_
    unfold stack
    split
    · exact hc'
    · exact List.mem_cons_of_mem _ hc'

end

/-- **What is printed** is kept by a loop. -/
theorem Runs.outOk {T : List (List Tok)} {D ws : List Word} {r r' : Resolution}
    (h : cli.Runs T D r ws r') {pending : List Text} (hout : cli.OutOk r pending) :
    cli.OutOk r' pending := by
  induction h generalizing pending with
  | nil => exact hout
  | skip _ _ ih => exact ih hout
  | missing hnew hfile _ ih =>
    refine ih (hout.visit hnew ?_)
    rintro ⟨f, hf, -⟩
    rw [hfile] at hf
    cases hf
  | reject hnew hfile hreject _ ih =>
    refine ih (hout.visit hnew ?_)
    rintro ⟨f, hf, haccept⟩
    rw [hfile] at hf
    cases hf
    rw [hreject] at haccept
    cases haccept
  | @accept T D ws w r r₁ r' f hnew hfile haccept call rest ihcall ihrest =>
    have haccepts : cli.Accepts ⟨w.component, r.IGNORE_DEPENDS, T, D⟩ := ⟨f, hfile, haccept⟩
    have hpending : w.component ∉ pending := fun hc => hnew (hout.pending _ hc)
    refine ihrest ((ihcall (hout.before hnew haccepts)).after hpending ?_)
    -- the component has been accepted before the call
    obtain ⟨v, hv, hc, ha⟩ := accepted_visit.mpr (.inr ⟨rfl, haccepts⟩)
    have hsubset := call.visits_extend.subset
    rw [before_visits] at hsubset
    exact ⟨v, hsubset hv, hc, ha⟩

/-! ## The end of a resolution -/

/-- The names that have not come up yet. -/
def fresh (names : List Text) (r : Resolution) : List Text :=
  names.filter fun c => c ∉ r.visited

theorem fresh_length_mono (names : List Text) {r r' : Resolution}
    (h : r.visited ⊆ r'.visited) : (fresh names r').length ≤ (fresh names r).length := by
  refine (List.monotone_filter_right names fun c hc => ?_).length_le
  simp only [decide_eq_true_eq] at hc ⊢
  exact fun hmem => hc (h hmem)

/-- A new name leaves fewer. -/
theorem fresh_length_visit {names : List Text} {r : Resolution} {c : Text}
    (hname : c ∈ names) (hnew : c ∉ r.visited) (T : List (List Tok)) (D : List Word) :
    (fresh names (r.visit c T D)).length < (fresh names r).length := by
  have hfilter : fresh names (r.visit c T D) = (fresh names r).filter (· ≠ c) := by
    unfold fresh
    rw [List.filter_filter]
    refine List.filter_congr fun c' _ => ?_
    simp only [Resolution.visit_visited, List.mem_append, List.mem_singleton, not_or]
    grind
  rw [hfilter]
  have hmem : c ∈ fresh names r := List.mem_filter.mpr ⟨hname, by simpa using hnew⟩
  exact List.length_filter_lt_length_iff_exists.mpr ⟨c, hmem, by simp⟩

/-- **A call ends** when it may go as deep as there are names left. -/
theorem component_depends_isSome {names : List Text} (hnames : cli.tree.names ⊆ names)
    {depth : Nat} {r : Resolution} {ws : List Word} (hwf : r.Wf)
    (hws : ∀ w ∈ ws, w.component ∈ names) (hdepth : (fresh names r).length < depth) :
    ∃ r', cli.component_depends depth r ws = some r' := by
  induction depth generalizing r ws with
  | zero => omega
  | succ depth ih =>
    show ∃ r', cli.loop (cli.component_depends depth) [] [] r ws = some r'
    have hD : ∀ w ∈ ([] : List Word), w.component ∈ names := by simp
    generalize ([] : List (List Tok)) = T
    generalize ([] : List Word) = D at hD
    -- the words of the loop, with whatever its variables have
    induction ws generalizing T D r with
    | nil => exact ⟨r, rfl⟩
    | cons w ws ihws =>
      have hws' : ∀ w ∈ ws, w.component ∈ names := fun w hw => hws w (List.mem_cons_of_mem _ hw)
      rw [loop_cons hwf]
      split
      · exact ihws hwf hws' hdepth T D hD
      · next hnew =>
        have hvisit := Resolution.visit_wf hwf w.component_plain T D
        have hfresh := fresh_length_visit (hws w List.mem_cons_self) hnew T D
        cases hfile : cli.files w.component with
        | none => exact ihws hvisit hws' (by omega) T D hD
        | some f =>
          have hD' : ∀ w ∈ f.DEPENDS.getD D, w.component ∈ names := by
            cases hdep : f.DEPENDS with
            | none => exact hD
            | some ds =>
              intro w' hw'
              obtain ⟨d, hdir, hconf⟩ := Option.bind_eq_some_iff.mp hfile
              exact hnames (cli.tree.closed _ d f hdir hconf w' (by rw [hdep]; exact hw'))
          dsimp only
          split
          · -- the call comes after a new name
            have hfresh' : (fresh names (cli.before (r.visit w.component T D) w.component)).length
                < depth := by
              have hsame : fresh names (cli.before (r.visit w.component T D) w.component) =
                  fresh names (r.visit w.component T D) := by
                unfold fresh
                rw [before_visited]
              rw [hsame]
              omega
            obtain ⟨r₁, hr₁⟩ := ih (before_wf hvisit _) hD' hfresh'
            obtain ⟨hcall, hwf₁⟩ := runs_of_component_depends (before_wf hvisit _) hr₁
            rw [hr₁]
            have hmono := hcall.visited_mono
            rw [before_visited] at hmono
            have hafter : (cli.after r₁ w.component).visited = r₁.visited := after_visited _ _
            rw [← hafter] at hmono
            have hle := fresh_length_mono names hmono
            exact ihws (after_wf hwf₁ _) hws' (by omega) _ _ hD'
          · exact ihws hvisit hws' (by omega) _ _ hD'

/-- The loop returns the same when the calls in it return more often. -/
theorem loop_mono {call call' : Resolution → List Word → Option Resolution}
    (hcall : ∀ r ws r', call r ws = some r' → call' r ws = some r')
    {T : List (List Tok)} {D ws : List Word} {r r' : Resolution}
    (h : cli.loop call T D r ws = some r') : cli.loop call' T D r ws = some r' := by
  induction ws generalizing T D r with
  | nil => exact h
  | cons w ws ih =>
    unfold loop at h ⊢
    dsimp only at h ⊢
    split at h
    · next hold =>
      rw [if_pos hold]
      exact ih h
    · next hnew =>
      rw [if_neg hnew]
      cases hfile : cli.files w.component with
      | none =>
        simp only [hfile] at h ⊢
        exact ih h
      | some f =>
        simp only [hfile] at h ⊢
        split at h
        · next haccept =>
          rw [if_pos haccept]
          split at h
          · next hmode =>
            obtain ⟨r₁, hr₁, h⟩ := Option.bind_eq_some_iff.mp h
            rw [if_pos hmode]
            exact Option.bind_eq_some_iff.mpr ⟨r₁, hcall _ _ _ hr₁, ih h⟩
          · next hmode =>
            obtain ⟨r₁, hr₁, h⟩ := Option.bind_eq_some_iff.mp h
            rw [if_neg hmode]
            exact Option.bind_eq_some_iff.mpr ⟨r₁, hcall _ _ _ hr₁, ih h⟩
        · next hreject =>
          rw [if_neg hreject]
          exact ih h

/-- What a call returns does not depend on how deep it may go. -/
theorem component_depends_mono {depth depth' : Nat} (hle : depth ≤ depth') {r r' : Resolution}
    {ws : List Word} (h : cli.component_depends depth r ws = some r') :
    cli.component_depends depth' r ws = some r' := by
  induction depth generalizing depth' r ws r' with
  | zero => cases h
  | succ depth ih =>
    obtain ⟨depth'', rfl⟩ : ∃ n, depth' = n + 1 := ⟨depth' - 1, by omega⟩
    exact loop_mono (fun r ws r' h => ih (by omega) h) h

/-- **Every resolution ends.** -/
theorem resolve_isSome (components : List Word) : ∃ r, cli.resolve components = some r := by
  refine component_depends_isSome
    (List.subset_append_right (components.map Word.component) cli.tree.names)
    Resolution.init_wf ?_ ?_
  · exact fun w hw => List.mem_append_left _ (List.mem_map_of_mem hw)
  · exact Nat.lt_succ_of_le (List.length_filter_le _ _)

/-- What is known of every resolution. -/
theorem resolve_spec {components : List Word} {r : Resolution}
    (h : cli.resolve components = some r) :
    cli.Runs [] [] .init components r ∧ cli.OutOk r [] := by
  have hruns := (runs_of_component_depends Resolution.init_wf h).1
  exact ⟨hruns, hruns.outOk init_outOk⟩

end Settings

end Anx.Cli
