import Anx.Cli.OnlyContainer

/-!
# The status of services

A service is started if one of its pid files holds the number of a process. `get_pids` looks
for what it has read in `/proc`: without a file that is the name of the file, and with an
empty one it is `/proc/` itself.

- `is_started`, `is_stopped`, `touch`: the functions;
- `held`, `live`: what the files hold, and the numbers among it of live processes;
- `StatusRight`: what the functions are for;
- `statusRight_iff`: **the status is right exactly if** no name of a missing file stands in
  `/proc`, and no file is empty unless another one holds a live process;
- `is_started_touch`: a file that has only been touched makes a service count as started.
-/

namespace Anx.Cli

open Anx.Lib

universe u v

/-- Of two ways to choose from a list, the one that chooses more gives the same only if it
chooses the same everywhere. -/
theorem filterMap_eq_iff_of_le {α : Type u} {β : Type v} {f g : α → Option β} {l : List α}
    (h : ∀ a ∈ l, ∀ b, g a = some b → f a = some b) :
    l.filterMap f = l.filterMap g ↔ ∀ a ∈ l, f a = g a := by
  have hle : ∀ l' : List α, (∀ a ∈ l', ∀ b, g a = some b → f a = some b) →
      (l'.filterMap g).length ≤ (l'.filterMap f).length := by
    intro l' h'
    induction l' with
    | nil => exact Nat.le_refl _
    | cons a l' ih =>
      obtain ⟨ha, hl'⟩ := List.forall_mem_cons.mp h'
      have hrest := ih hl'
      cases hg : g a with
      | none =>
        rw [List.filterMap_cons_none hg]
        exact hrest.trans (List.Sublist.filterMap f (List.sublist_cons_self a l')).length_le
      | some b =>
        rw [List.filterMap_cons_some hg, List.filterMap_cons_some (ha b hg)]
        exact Nat.succ_le_succ hrest
  refine ⟨fun heq => ?_, List.filterMap_congr⟩
  induction l with
  | nil => simp
  | cons a l ih =>
    obtain ⟨ha, hl⟩ := List.forall_mem_cons.mp h
    rw [List.forall_mem_cons]
    cases hg : g a with
    | none =>
      cases hf : f a with
      | none =>
        rw [List.filterMap_cons_none hg, List.filterMap_cons_none hf] at heq
        exact ⟨rfl, ih hl heq⟩
      | some b =>
        -- one more has been chosen
        rw [List.filterMap_cons_none hg, List.filterMap_cons_some hf] at heq
        have hlength := hle l hl
        rw [← heq, List.length_cons] at hlength
        exact absurd hlength (Nat.not_succ_le_self _)
    | some b =>
      rw [List.filterMap_cons_some hg, List.filterMap_cons_some (ha b hg)] at heq
      exact ⟨ha b hg, ih hl (List.cons_eq_cons.mp heq).2⟩

namespace Container

variable (c : Container)

/-- `is_started`: the status of `get_pids`. -/
def is_started (args : List Text) : Bool := c.get_pids args ≠ []

/-- `is_stopped`. -/
def is_stopped (args : List Text) : Bool := !c.is_started args

/-- `touch`. -/
def touch (path : Text) : Container :=
  { c with cat := fun p => if p = path then some ((c.cat p).getD []) else c.cat p }

/-- What the file of this name holds, as the shell reads it. -/
def held (name : Text) : Option Text :=
  (c.cat (c.CHROOT_DIR ++ name)).map fun text => text.rdropWhile (· = '\n')

/-- The number of a live process. -/
def IsLive (pid : Text) : Prop := IsPid pid ∧ c.proc pid = true

instance (pid : Text) : Decidable (c.IsLive pid) := inferInstanceAs (Decidable (_ ∧ _))

/-- The live processes whose numbers the files hold. -/
def live (args : List Text) : List Text :=
  args.filterMap fun name => (c.held name).filter fun pid => c.IsLive pid

/-- The functions tell of these processes. -/
structure StatusRight (args : List Text) : Prop where
  printed : words (c.get_pids args) = c.live args
  started : c.is_started args = true ↔ c.live args ≠ []
  stopped : c.is_stopped args = true ↔ c.live args = []
  killed : c.kill_pids args = c.live args

variable {c} {args : List Text} {name : Text}

/-! ## What is read -/

theorem pidOf_of_held {pid : Text} (h : c.held name = some pid) : c.pidOf name = pid := by
  rw [held] at h
  obtain ⟨text, htext, rfl⟩ := Option.map_eq_some_iff.mp h
  rw [pidOf, htext]

theorem pidOf_of_missing (h : c.held name = none) : c.pidOf name = name := by
  rw [held] at h
  rw [pidOf, Option.map_eq_none_iff.mp h]

/-- Nothing is found exactly if no name leads to anything in `/proc`. -/
theorem get_pids_eq_nil_iff :
    c.get_pids args = [] ↔ ∀ name ∈ args, c.proc (c.pidOf name) = false := by
  have hfold : ∀ pids, args.foldl (fun pids pid => if c.proc (c.pidOf pid)
      then pids ++ ' ' :: c.pidOf pid else pids) pids = [] ↔
        pids = [] ∧ ∀ name ∈ args, c.proc (c.pidOf name) = false := by
    induction args with
    | nil => simp
    | cons name args ih =>
      intro pids
      rw [List.foldl_cons, ih, List.forall_mem_cons]
      split
      · next hproc => simp [hproc]
      · next hproc => simp [hproc]
  exact (hfold []).trans (and_iff_right rfl)

/-! ## The status -/

/-- A name is found in `/proc`, as `echo` prints it. -/
theorem words_get_pids_eq (args : List Text) : words (c.get_pids args) =
    args.filterMap fun name => some (c.pidOf name) |>.filter fun pid => c.proc pid && pid ≠ [] := by
  rw [words_get_pids, ← List.filterMap_eq_filter, List.filterMap_map]
  rfl

/-- What is found is live, or the name of a missing file, or nothing at all. -/
theorem found_cases (hfiles : ∀ pid, c.held name = some pid → pid = [] ∨ IsPid pid)
    (h : c.proc (c.pidOf name) = true) :
    (∃ pid, c.held name = some pid ∧ c.IsLive pid) ∨
      (c.held name = none ∧ c.proc name = true) ∨ c.held name = some [] ∧ c.proc [] = true := by
  cases hheld : c.held name with
  | none =>
    rw [pidOf_of_missing hheld] at h
    exact .inr (.inl ⟨rfl, h⟩)
  | some pid =>
    rw [pidOf_of_held hheld] at h
    rcases hfiles pid hheld with rfl | hpid
    · exact .inr (.inr ⟨rfl, h⟩)
    · exact .inl ⟨pid, rfl, hpid, h⟩

theorem mem_live {pid : Text} :
    pid ∈ c.live args ↔ ∃ name ∈ args, c.held name = some pid ∧ c.IsLive pid := by
  rw [live, List.mem_filterMap]
  refine exists_congr fun name => and_congr_right' ?_
  rw [Option.filter_eq_some_iff, decide_eq_true_iff]

/-- The printed words are the live processes exactly if no missing file is found by its name. -/
theorem printed_iff (hnames : ∀ name ∈ args, IsWord name)
    (hfiles : ∀ name ∈ args, ∀ pid, c.held name = some pid → pid = [] ∨ IsPid pid) :
    words (c.get_pids args) = c.live args ↔
      ∀ name ∈ args, c.held name = none → c.proc name = false := by
  rw [words_get_pids_eq, live, filterMap_eq_iff_of_le]
  · refine forall₂_congr fun name hname => ?_
    cases hheld : c.held name with
    | none =>
      rw [pidOf_of_missing hheld, Option.filter_none, Option.filter_eq_none_iff]
      simp [(hnames name hname).1]
    | some pid =>
      -- an empty file is not printed
      rw [pidOf_of_held hheld]
      refine iff_of_true ?_ (by simp)
      rcases hfiles name hname pid hheld with rfl | hpid
      · simp [Option.filter_some, IsLive, IsPid]
      · simp [Option.filter_some, IsLive, hpid, hpid.1]
  · intro name _ pid hpid
    obtain ⟨hheld, hlive⟩ := Option.filter_eq_some_iff.mp hpid
    have hlive := of_decide_eq_true hlive
    rw [pidOf_of_held hheld]
    exact Option.filter_eq_some_iff.mpr ⟨rfl, by simp [hlive.2, hlive.1.1]⟩

/-- The service counts as started exactly if a process is live, or an empty file is found. -/
theorem started_iff
    (hfiles : ∀ name ∈ args, ∀ pid, c.held name = some pid → pid = [] ∨ IsPid pid)
    (hmissing : ∀ name ∈ args, c.held name = none → c.proc name = false) :
    c.is_started args = true ↔
      c.live args ≠ [] ∨ c.proc [] = true ∧ ∃ name ∈ args, c.held name = some [] := by
  rw [is_started, decide_eq_true_iff, Ne, get_pids_eq_nil_iff]
  push Not
  constructor
  · rintro ⟨name, hname, hproc⟩
    rcases found_cases (hfiles name hname) (by simpa using hproc) with
      ⟨pid, hheld, hlive⟩ | ⟨hheld, hfound⟩ | ⟨hheld, hempty⟩
    · exact .inl (List.ne_nil_of_mem (mem_live.mpr ⟨name, hname, hheld, hlive⟩))
    · rw [hmissing name hname hheld] at hfound
      exact absurd hfound (by simp)
    · exact .inr ⟨hempty, name, hname, hheld⟩
  · rintro (hlive | ⟨hempty, name, hname, hheld⟩)
    · obtain ⟨pid, hpid⟩ := List.exists_mem_of_ne_nil _ hlive
      obtain ⟨name, hname, hheld, hlive⟩ := mem_live.mp hpid
      exact ⟨name, hname, by simp [pidOf_of_held hheld, hlive.2]⟩
    · exact ⟨name, hname, by simp [pidOf_of_held hheld, hempty]⟩

/-- **The status is right exactly if** no name of a missing file stands in `/proc`, and no file
is empty unless another one holds a live process. -/
theorem statusRight_iff (hnames : ∀ name ∈ args, IsWord name)
    (hfiles : ∀ name ∈ args, ∀ pid, c.held name = some pid → pid = [] ∨ IsPid pid) :
    c.StatusRight args ↔
      (∀ name ∈ args, c.held name = none → c.proc name = false) ∧
        (c.proc [] = true → (∃ name ∈ args, c.held name = some []) → c.live args ≠ []) := by
  rw [← printed_iff hnames hfiles]
  constructor
  · intro h
    refine ⟨h.printed, fun hproc hempty => h.started.mp ?_⟩
    have hmissing := (printed_iff hnames hfiles).mp h.printed
    exact (started_iff hfiles hmissing).mpr (.inr ⟨hproc, hempty⟩)
  · rintro ⟨hprinted, hempty⟩
    have hmissing := (printed_iff hnames hfiles).mp hprinted
    have hstarted : c.is_started args = true ↔ c.live args ≠ [] := by
      rw [started_iff hfiles hmissing]
      exact ⟨fun h => h.elim id fun hboth => hempty hboth.1 hboth.2, .inl⟩
    refine ⟨hprinted, hstarted, ?_, ?_⟩
    · rw [is_stopped, Bool.not_eq_true', ← Bool.not_eq_true, hstarted, not_not]
    · rw [kill_pids, hprinted, List.filter_eq_self]
      intro pid hpid
      obtain ⟨-, -, -, hlive⟩ := mem_live.mp hpid
      exact decide_eq_true hlive.1

/-- A file that has only been touched: the service counts as started. -/
theorem is_started_touch (hproc : c.proc [] = true) (hname : name ∈ args)
    (hmissing : c.cat (c.CHROOT_DIR ++ name) = none) :
    (c.touch (c.CHROOT_DIR ++ name)).is_started args = true := by
  have hheld : (c.touch (c.CHROOT_DIR ++ name)).held name = some [] := by
    simp [held, touch, hmissing]
  rw [is_started, decide_eq_true_iff, Ne, get_pids_eq_nil_iff]
  intro hnothing
  have hfound := hnothing name hname
  rw [pidOf_of_held hheld] at hfound
  exact absurd (hproc.symm.trans hfound) (by simp)

/-- A container with the number of the only process in a file. -/
def served (path : Text) : Container :=
  { beside with
    cat := fun p => if p = path then some "7\n".toList else none
    proc := fun pid => pid = [] ∨ pid = ['7']
    proc_isWord := by
      intro pid h
      refine (of_decide_eq_true h).imp_right ?_
      rintro rfl
      decide }

/-- The file of the other name is missing. -/
theorem statusRight_served :
    (served "/mnt/run/sshd.pid".toList).StatusRight
      ["/var/run/sshd.pid".toList, "/run/sshd.pid".toList] := by
  refine (statusRight_iff (by decide) ?_).mpr ⟨by decide, by decide⟩
  have hfiles : ∀ name ∈ ["/var/run/sshd.pid".toList, "/run/sshd.pid".toList],
      (served "/mnt/run/sshd.pid".toList).held name ∈ [none, some ['7']] := by decide
  intro name hname pid hpid
  have hmem := hfiles name hname
  rw [hpid] at hmem
  obtain rfl : pid = ['7'] := by simpa using hmem
  exact .inr (by decide)

/-- The file of a session has only been touched. -/
theorem not_statusRight : ¬ ∀ (c : Container) (args : List Text), (∀ name ∈ args, IsWord name) →
    (∀ name ∈ args, ∀ pid, c.held name = some pid → pid = [] ∨ IsPid pid) →
    c.StatusRight args := by
  intro h
  have hheld : ((served []).touch "/mnt/tmp/xsession.pid".toList).held
      "/tmp/xsession.pid".toList = some [] := by decide
  have hstatus := h ((served []).touch "/mnt/tmp/xsession.pid".toList)
    ["/tmp/xsession.pid".toList] (by decide) (by
      intro name hname pid hpid
      obtain rfl := List.mem_singleton.mp hname
      exact .inl (Option.some.inj (hpid.symm.trans hheld)))
  exact absurd (hstatus.stopped.mpr (by decide)) (by decide)

end Container

end Anx.Cli
